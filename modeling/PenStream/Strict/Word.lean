import PenStream.Canvas.Access

namespace PenStream.Strict

-- Computing in words, with every access checked.
inductive Fault
  | overflow
  | zeroDivision
  -- There is no such place, or no such range of places.
  | range
  | access (error : AccessError)
  -- A loop has gone on for longer than it may.
  | endless
deriving DecidableEq, Repr

abbrev Checked := Except Fault

def fit (low high v : Int) : Checked Int :=
  if low ≤ v ∧ v ≤ high then pure v else throw .overflow

def int32 (v : Int) : Checked Int :=
  fit (-0x80000000) 0x7FFFFFFF v

def int64 (v : Int) : Checked Int :=
  fit (-0x8000000000000000) 0x7FFFFFFFFFFFFFFF v

-- Places and counts of bytes and cells.
def size (v : Int) : Checked Int :=
  fit 0 0xFFFFFFFFFFFFFFFF v

def require (p : Prop) [Decidable p] (fault : Fault) : Checked Unit :=
  if p then pure () else throw fault

-- Division towards zero.
def divide (a b : Int) : Checked Int := do
  require (b ≠ 0) .zeroDivision
  int32 (a.tdiv b)

def remainder (a b : Int) : Checked Int := do
  require (b ≠ 0) .zeroDivision
  int32 (a.tmod b)

def access : Except AccessError α → Checked α
  | .ok a    => pure a
  | .error e => throw (.access e)

theorem int32_eq {v : Int} (h : -0x80000000 ≤ v ∧ v ≤ 0x7FFFFFFF) : int32 v = pure v :=
  if_pos h

theorem int64_eq {v : Int} (h : -0x8000000000000000 ≤ v ∧ v ≤ 0x7FFFFFFFFFFFFFFF) :
    int64 v = pure v :=
  if_pos h

theorem size_eq {v : Int} (h : 0 ≤ v ∧ v ≤ 0xFFFFFFFFFFFFFFFF) : size v = pure v :=
  if_pos h

theorem require_eq {p : Prop} [Decidable p] {fault : Fault} (h : p) :
    require p fault = pure () :=
  if_pos h

-- In a computation that goes on.
section

variable {v : Int} {k : Int → Checked α}

theorem int32_bind (h : -0x80000000 ≤ v ∧ v ≤ 0x7FFFFFFF) : int32 v >>= k = k v := by
  rw [int32_eq h, pure_bind]

theorem int64_bind (h : -0x8000000000000000 ≤ v ∧ v ≤ 0x7FFFFFFFFFFFFFFF) :
    int64 v >>= k = k v := by
  rw [int64_eq h, pure_bind]

theorem size_bind (h : 0 ≤ v ∧ v ≤ 0xFFFFFFFFFFFFFFFF) : size v >>= k = k v := by
  rw [size_eq h, pure_bind]

theorem require_bind {p : Prop} [Decidable p] {fault : Fault} {k : Unit → Checked α} (h : p) :
    require p fault >>= k = k () := by
  rw [require_eq h, pure_bind]

end

theorem access_ok (a : α) : access (.ok a) = pure a :=
  rfl

end PenStream.Strict
