import Mathlib.Data.List.Induction
import Mathlib.Data.Nat.Digits.Defs
import PenStream.Proofs.Numeral

namespace PenStream.Numeral

-- The digits in upper case, in the order of their values.
def alphabet : List Char :=
  "0123456789ABCDEFGHIJKLMNOPQRSTUVWXYZ".toList

-- What a character counts: its place among the digits, in either case, or nothing.
def place (c : Char) : Nat :=
  (alphabet.findIdx? fun digit => Cased digit c).getD 0

-- The exact value of a numeral, whose last digit is the least significant.
def value (cs : List Char) : Nat :=
  Nat.ofDigits radix (cs.reverse.map place)

section Digits

variable {c : Char}

theorem digitValue_of_not_ascii (h : ¬c.toNat < 128) : digitValue c = 0 := by
  have ⟨hd, hu, hl⟩ := digit_ranges c
  rw [digitValue, if_neg (mt hd.mp (by omega)), if_neg (mt hu.mp (by omega)),
    if_neg (mt hl.mp (by omega))]

theorem mem_alphabet_iff : c ∈ alphabet ↔ ∃ d < radix, digitChar d = c := by
  have h : alphabet = (List.range radix).map digitChar := by decide
  simp [h]

theorem place_of_not_ascii (h : ¬c.toNat < 128) : place c = 0 := by
  have ascii : ∀ d < radix, (digitChar d).toNat < 128 ∧ (digitChar d).toLower.toNat < 128 := by
    decide
  have hn : alphabet.findIdx? (fun digit => Cased digit c) = none := by
    simp only [List.findIdx?_eq_none_iff, decide_eq_false_iff_not]
    intro digit hm hc
    obtain ⟨d, hd, rfl⟩ := mem_alphabet_iff.mp hm
    have ⟨hu, hl⟩ := ascii d hd
    exact hc.elim (fun he => h (he ▸ hu)) (fun he => h (he ▸ hl))
  rw [place, hn, Option.getD_none]

theorem digitValue_eq_place (c : Char) : digitValue c = place c := by
  have ascii : ∀ n < 128, digitValue (Char.ofNat n) = place (Char.ofNat n) := by decide +kernel
  by_cases hc : c.toNat < 128
  case pos => exact c.ofNat_toNat ▸ ascii c.toNat hc
  case neg => rw [digitValue_of_not_ascii hc, place_of_not_ascii hc]

theorem place_lt (c : Char) : place c < radix :=
  digitValue_eq_place c ▸ digitValue_lt c

theorem digitChar_place (h : c ∈ alphabet) : digitChar (place c) = c := by
  obtain ⟨d, hd, rfl⟩ := mem_alphabet_iff.mp h
  rw [← digitValue_eq_place, digitValue_digitChar d hd]

end Digits

section Values

variable {n width : Nat} {cs : List Char}

theorem value_append_singleton (cs : List Char) (c : Char) :
    value (cs ++ [c]) = value cs * radix + place c := by
  rw [value, List.reverse_concat, List.map_cons, Nat.ofDigits_cons, Nat.add_comm, Nat.mul_comm]
  rfl

-- Once a sum is too large, so are those that follow.
theorem read_eq_min (cs : List Char) : read cs = min maxValue (value cs) := by
  induction cs using List.reverseRecOn with
  | nil                       => rfl
  | append_singleton cs c hi =>
    rw [read_append_singleton, hi, value_append_singleton, digitValue_eq_place]
    unfold radix maxValue
    omega

theorem mem_alphabet_of_write? (h : write? n width = some cs) : ∀ c ∈ cs, c ∈ alphabet := by
  intro c hc
  have ⟨d, hd, he⟩ := exists_digitChar_of_mem_write? h c hc
  exact mem_alphabet_iff.mpr ⟨d, hd, he.symm⟩

theorem write?_value (h : ∀ c ∈ cs, c ∈ alphabet) : write? (value cs) cs.length = some cs := by
  induction cs using List.reverseRecOn with
  | nil                       => rfl
  | append_singleton cs c hi =>
    have ⟨hcs, hc⟩ := List.forall_mem_append.mp h
    have hp := place_lt c
    have hv : (value cs * radix + place c) / radix = value cs := by unfold radix at *; omega
    have hm : (value cs * radix + place c) % radix = place c := by unfold radix at *; omega
    rw [value_append_singleton, List.length_append, List.length_singleton, write?_succ, hv, hm,
      hi hcs, digitChar_place (List.forall_mem_singleton.mp hc)]
    rfl

end Values

-- A number of 32 bits can be written unless the width is too small for it, and reading gives it
-- back; a numeral in upper case whose value fits is what is written for that value. Whatever the
-- characters, reading gives their exact value, or the largest number of 32 bits if that is less.
theorem reads_exactly :
    (∀ (n : UInt32) (width : Nat),
      (write? n.toNat width = none ↔ n.toNat ≥ 36 ^ width) ∧
      ∀ token, write? n.toNat width = some token →
        token.length = width ∧ (∀ c ∈ token, c ∈ alphabet) ∧ read token = n.toNat) ∧
    (∀ token, (∀ c ∈ token, c ∈ alphabet) → value token < 2 ^ 32 →
      write? (read token) token.length = some token) ∧
    ∀ cs, read cs = min (2 ^ 32 - 1) (value cs) := by
  refine ⟨fun n width => ⟨write?_eq_none_iff, fun token h => ⟨length_write? h, ?_, ?_⟩⟩,
    fun token ht hv => ?_, read_eq_min⟩
  · exact mem_alphabet_of_write? h
  · exact read_write? h (Nat.le_of_lt_succ n.toNat_lt)
  · rw [read_eq_min, Nat.min_eq_right (Nat.le_of_lt_succ hv)]
    exact write?_value ht

-- The largest number in nine digits, more than it needs, and in six, too few; and a numeral of the
-- same length, in either case, that stands for one more.
theorem reads_exactly_largest :
    let n : UInt32 := 4294967295
    let token := "001Z141Z3".toList
    let above := "001z141Z4".toList
    write? n.toNat 9 = some token ∧ write? n.toNat 6 = none ∧ read token = n.toNat ∧
      (∀ c ∈ token, c ∈ alphabet) ∧ value token < 2 ^ 32 ∧
      write? (read token) token.length = some token ∧
      value above = 2 ^ 32 ∧ read above = 2 ^ 32 - 1 := by
  intro n token above
  obtain ⟨hw, hr, hv⟩ := reads_exactly
  have ht : write? n.toNat 9 = some token := by decide +kernel
  have ⟨_, ha, hn⟩ := (hw n 9).right token ht
  have hl : value token < 2 ^ 32 := by decide +kernel
  have hg : value above = 2 ^ 32 := by decide +kernel
  exact ⟨ht, (hw n 6).left.mpr (by decide), hn, ha, hl, hr token ha hl, hg, by rw [hv, hg]; rfl⟩

end PenStream.Numeral
