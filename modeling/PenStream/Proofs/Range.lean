import PenStream.Decoder

namespace PenStream

def Point.InRange (p : Point) : Prop :=
  (0 ≤ p.x ∧ p.x ≤ 1295) ∧ (0 ≤ p.y ∧ p.y ≤ 1295)

structure Pen.InRange (pen : Pen) : Prop where
  fg : pen.fg.toNat ≤ 35
  bg : pen.bg.toNat ≤ 35
  fillStyle : pen.fillStyle.toNat ≤ 35
  fillColor : pen.fillColor.toNat ≤ 35
  cursor : pen.cursor.InRange

namespace Command

def InRange : Command → Prop
  | setColors fg bg             => fg.toNat ≤ 35 ∧ bg.toNat ≤ 35
  | line p q color              => p.InRange ∧ q.InRange ∧ color.toNat ≤ 35
  | rectangle p q color         => p.InRange ∧ q.InRange ∧ color.toNat ≤ 35
  | bar p q color               => p.InRange ∧ q.InRange ∧ color.toNat ≤ 35
  | circle p r color            => p.InRange ∧ (0 ≤ r ∧ r ≤ 1295) ∧ color.toNat ≤ 35
  | ellipse p sa ea rx ry color =>
    p.InRange ∧ (0 ≤ sa ∧ sa ≤ 1295) ∧ (0 ≤ ea ∧ ea ≤ 1295) ∧ (0 ≤ rx ∧ rx ≤ 1295) ∧
      (0 ≤ ry ∧ ry ≤ 1295) ∧ color.toNat ≤ 35
  | pixel p color               => p.InRange ∧ color.toNat ≤ 35
  | moveTo p                    => p.InRange
  | lineTo p q color            => p.InRange ∧ q.InRange ∧ color.toNat ≤ 35
  | polyline ps color           => (∀ p ∈ ps, p.InRange) ∧ ps.length ≤ 35 ∧ color.toNat ≤ 35
  | setFill style color         => style.toNat ≤ 35 ∧ color.toNat ≤ 35
  | floodFill p border color    => p.InRange ∧ border.toNat ≤ 35 ∧ color.toNat ≤ 35
  | reset                       => True
  | defineWindow p q            => p.InRange ∧ q.InRange

end Command

-- The points of a polyline are no more than one digit can count; all else is in the types.
def Instruction.Counted : Instruction → Prop
  | polyline ps => ps.length ≤ 35
  | _           => True

theorem Digit.toNat_toUInt8_le (d : Digit) : d.toUInt8.toNat ≤ 35 := by
  have := d.isLt
  simp only [toUInt8, UInt8.toNat_ofNat']
  omega

theorem Position.inRange_toPoint (p : Position) : p.toPoint.InRange := by
  have := p.x.isLt
  have := p.y.isLt
  simp only [Point.InRange, toPoint]
  omega

namespace Pen.InRange

variable {pen : Pen}

theorem fresh : Pen.InRange {} where
  fg := by decide
  bg := by decide
  fillStyle := by decide
  fillColor := by decide
  cursor := by simp [Point.InRange, Point.origin]

theorem apply (h : pen.InRange) {c : Command} (hc : c.InRange) : (pen.apply c.change).InRange := by
  cases c
  case setColors    => exact { h with fg := hc.left, bg := hc.right }
  case setFill      => exact { h with fillStyle := hc.left, fillColor := hc.right }
  case moveTo       => exact { h with cursor := hc }
  case lineTo       => exact { h with cursor := hc.right.left }
  case reset        => exact fresh
  all_goals exact h

theorem command (h : pen.InRange) {i : Instruction} (hi : i.Counted) :
    (i.command pen).InRange := by
  have hp := Position.inRange_toPoint
  have hd := Digit.toNat_toUInt8_le
  have hc (v : Coordinate) : (0 : Int) ≤ v.val ∧ (v.val : Int) ≤ 1295 := by
    have := v.isLt
    omega
  cases i
  case color fg bg             => exact ⟨hd fg, hd bg⟩
  case line p q                => exact ⟨hp p, hp q, h.fg⟩
  case rectangle p q           => exact ⟨hp p, hp q, h.fg⟩
  case bar p q                 => exact ⟨hp p, hp q, h.fg⟩
  case circle p r              => exact ⟨hp p, hc r, h.fg⟩
  case oval p sa ea rx ry      => exact ⟨hp p, hc sa, hc ea, hc rx, hc ry, h.fg⟩
  case pixel p                 => exact ⟨hp p, h.fg⟩
  case move p                  => exact hp p
  case lineTo p                => exact ⟨h.cursor, hp p, h.fg⟩
  case polyline ps             =>
    refine ⟨fun p hm => ?_, Nat.le_trans (Nat.le_of_eq (List.length_map _)) hi, h.fg⟩
    have ⟨q, _, he⟩ := List.mem_map.mp hm
    exact he ▸ hp q
  case fillStyle style color   => exact ⟨hd style, hd color⟩
  case floodFill p border      => exact ⟨hp p, hd border, h.fillColor⟩
  case reset                   => trivial
  case textWindow p q          => exact ⟨hp p, hp q⟩

end Pen.InRange

namespace Reading

-- A choice by what is ahead, also where reading may fail.
theorem run_branch {α : Type} {m : Type → Type} [Monad m] [LawfulMonad m] (n : Nat)
    (r r' : StateT Cursor m α) (c : Cursor) :
    StateT.run (do if reaches n (← get).ahead then r else r') c =
      if reaches n c.ahead then r.run c else r'.run c := by
  rw [StateT.run_bind, StateT.run_get, pure_bind]
  split <;> rfl

theorem run_coordinateOr (otherwise : Coordinate) (c : Cursor) :
    (coordinateOr otherwise).run c =
      if reaches 2 c.ahead then coordinate.run c else (otherwise, c) :=
  run_branch ..

theorem run_positions_succ (count : Nat) (c : Cursor) :
    (positions (count + 1)).run c =
      if reaches 4 c.ahead then
        let (p, c) := position.run c
        let (ps, c) := (positions count).run c
        (p :: ps, c)
      else
        ([], c) :=
  run_branch ..

-- There are as many positions as are counted and there.
theorem length_positions (count : Nat) (c : Cursor) :
    ((positions count).run c).1.length = min count (c.ahead.length / 4) := by
  induction count generalizing c with
  | zero          => exact (Nat.zero_min _).symm
  | succ count hi =>
    rw [run_positions_succ]
    by_cases h : 4 ≤ c.ahead.length
    case pos =>
      have hp : (position.run c).2.ahead = (c.ahead.drop 2).drop 2 := rfl
      rw [if_pos (reaches_iff.mpr h)]
      change ((positions count).run (position.run c).2).1.length + 1 = _
      rw [hi, hp, List.length_drop, List.length_drop]
      omega
    case neg =>
      rw [if_neg (mt reaches_iff.mp h), Nat.div_eq_of_lt (Nat.lt_of_not_le h), Nat.min_zero]
      rfl

end Reading

namespace Opcode

variable {op : Opcode} {c c' : Cursor} {i : Instruction}

theorem read?_eq_none_iff : op.read? c = none ↔ c.ahead.length < op.minLength := by
  rw [read?, ← Nat.not_le, ← Reading.reaches_iff]
  split <;> simp_all

theorem read?_eq_some_iff : op.read? c = some (i, c') ↔
    op.minLength ≤ c.ahead.length ∧ op.parameters.run c = (i, c') := by
  rw [read?, ← Reading.reaches_iff]
  split <;> simp_all

theorem counted_of_read? (h : op.read? c = some (i, c')) : i.Counted := by
  obtain rfl : (op.parameters.run c).1 = i := by rw [(read?_eq_some_iff.mp h).right]
  cases op
  case polyline =>
    have hd := (Reading.digit.run c).1.isLt
    have hl := Reading.length_positions (Reading.digit.run c).1.val (Reading.digit.run c).2
    exact Nat.le_trans (hl ▸ Nat.min_le_left ..) (Nat.le_of_lt_succ hd)
  all_goals trivial

end Opcode

def Segment.Counted : Segment → Prop
  | complete _ _ _ i => i.Counted
  | _                => True

theorem Segment.counted_of_mem_scan {cs : List Char} {segment : Segment} (h : segment ∈ scan cs) :
    segment.Counted := by
  fun_induction scan cs
  case case1 => contradiction
  case case2 => exact List.mem_singleton.mp h ▸ trivial
  case case5 hr hi =>
    rcases List.mem_cons.mp h with rfl | h
    · exact Opcode.counted_of_read? hr
    · exact hi h
  case case3 hi | case4 hi | case6 hi =>
    rcases List.mem_cons.mp h with rfl | h
    · trivial
    · exact hi h

namespace Decoder

structure InRange (d : Decoder) : Prop where
  pen : d.pen.InRange
  commands : ∀ c ∈ d.commands, c.InRange

namespace InRange

variable {d : Decoder}

theorem fresh : InRange {} where
  pen := .fresh
  commands := by simp

theorem segment (h : d.InRange) {segment : Segment} (hs : segment.Counted) :
    (d.segment segment).InRange := by
  cases segment
  case complete introducer op parameters i =>
    have hc := h.pen.command hs
    exact {
      pen := h.pen.apply hc
      commands := fun c hm => by
        rcases Array.mem_push.mp hm with hm | rfl
        · exact h.commands c hm
        · exact hc }
  all_goals exact ⟨h.pen, h.commands⟩

theorem line (h : d.InRange) (cs : List Char) : (d.line cs).InRange := by
  unfold Decoder.line
  dsimp only
  split
  case isTrue  => exact ⟨h.pen, h.commands⟩
  case isFalse =>
    refine List.foldlRecOn _ _ (motive := InRange) ⟨h.pen, h.commands⟩ fun d hd segment hs => ?_
    exact hd.segment (Segment.counted_of_mem_scan hs)

theorem feed (h : d.InRange) (cs : List Char) : (d.feed cs).InRange :=
  List.foldlRecOn _ _ (motive := InRange) h fun _ hd cs _ => hd.line cs

end InRange

end Decoder

-- Every text decodes to commands in range.
theorem inRange_of_mem_decode {text : String} {c : Command} (h : c ∈ (decode text).commands) :
    c.InRange :=
  (Decoder.InRange.fresh.feed text.toList).commands c h

end PenStream
