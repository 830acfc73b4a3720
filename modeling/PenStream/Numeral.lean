namespace PenStream.Numeral

abbrev radix : Nat := 36

-- Where a numeral that is too long stays.
abbrev maxValue : Nat := 0xFFFFFFFF

def digitValue (c : Char) : Nat :=
  if c.isDigit then c.toNat - '0'.toNat
  else if c.isUpper then c.toNat - 'A'.toNat + 10
  else if c.isLower then c.toNat - 'a'.toNat + 10
  else 0

-- The digit of a value below the radix, in upper case.
def digitChar (d : Nat) : Char :=
  if d < 10 then Char.ofNat ('0'.toNat + d) else Char.ofNat ('A'.toNat + (d - 10))

-- The value of a numeral, most significant digit first.
def read (cs : List Char) : Nat :=
  cs.foldl (fun n c => min maxValue (n * radix + digitValue c)) 0

def writeInto (n : Nat) : (width : Nat) → List Char → Option (List Char)
  | 0,         written => if n = 0 then some written else none
  | width + 1, written => writeInto (n / radix) width (digitChar (n % radix) :: written)

-- The numeral of `n` in exactly `width` digits, if it fits.
def write? (n width : Nat) : Option (List Char) :=
  writeInto n width []

theorem writeInto_eq (n width : Nat) (written : List Char) :
    writeInto n width written = (write? n width).map (· ++ written) := by
  induction width generalizing n written with
  | zero => by_cases h : n = 0 <;> simp [writeInto, write?, h]
  | succ width ih =>
    simp [writeInto, write?, ih _ (_ :: _), Function.comp_def]

@[simp]
theorem write?_zero (n : Nat) : write? n 0 = if n = 0 then some [] else none :=
  rfl

@[simp]
theorem write?_succ (n width : Nat) :
    write? n (width + 1) = (write? (n / radix) width).map (· ++ [digitChar (n % radix)]) :=
  writeInto_eq (n / radix) width [digitChar (n % radix)]

-- Of all characters, only those of these ranges are digits.
theorem digit_ranges (c : Char) :
    (c.isDigit ↔ 48 ≤ c.toNat ∧ c.toNat ≤ 57) ∧ (c.isUpper ↔ 65 ≤ c.toNat ∧ c.toNat ≤ 90) ∧
      (c.isLower ↔ 97 ≤ c.toNat ∧ c.toNat ≤ 122) := by
  have hd : c.isDigit = (decide (c.val ≥ 48) && decide (c.val ≤ 57)) := rfl
  have hu : c.isUpper = decide (c.val ≥ 65 ∧ c.val ≤ 90) := rfl
  have hl : c.isLower = (decide (c.val ≥ 97) && decide (c.val ≤ 122)) := rfl
  simp [hd, hu, hl, UInt32.le_iff_toNat_le, ← Char.toNat_val]

theorem digitValue_lt (c : Char) : digitValue c < radix := by
  have ⟨hd, hu, hl⟩ := digit_ranges c
  simp only [digitValue, radix, Char.reduceToNat]
  split
  case isTrue h =>
    have := hd.mp h
    omega
  split
  case isTrue h =>
    have := hu.mp h
    omega
  split
  case isTrue h =>
    have := hl.mp h
    omega
  omega

-- Whatever its characters, a numeral's value is below the power of the radix for its length.
theorem read_lt (cs : List Char) : read cs < Nat.pow radix cs.length := by
  suffices h : ∀ n k, n < Nat.pow radix k →
      cs.foldl (fun n c => min maxValue (n * radix + digitValue c)) n <
        Nat.pow radix (k + cs.length) by
    simpa [read] using h 0 0 (by simp)
  induction cs with
  | nil => simp
  | cons c cs ih =>
    intro n k hn
    have := digitValue_lt c
    have hs : min maxValue (n * radix + digitValue c) < Nat.pow radix (k + 1) := by
      have := Nat.mul_le_mul_right radix (Nat.succ_le_of_lt hn)
      change _ < Nat.pow radix k * radix
      unfold radix at *
      omega
    have := ih _ _ hs
    simpa [Nat.add_assoc, Nat.add_comm 1] using this

theorem read_lt_of_length_le {cs : List Char} {width : Nat} (h : cs.length ≤ width) :
    read cs < Nat.pow radix width :=
  Nat.lt_of_lt_of_le (read_lt cs) (Nat.pow_le_pow_right (by decide) h)

end PenStream.Numeral
