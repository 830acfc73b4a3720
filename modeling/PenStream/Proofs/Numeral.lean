import Mathlib.Data.List.Forall2
import PenStream.Numeral

namespace PenStream.Numeral

section Digits

variable {d : Nat} {c : Char}

-- A digit in either case.
def Cased (digit c : Char) : Prop :=
  c = digit ∨ c = digit.toLower

instance (digit c : Char) : Decidable (Cased digit c) :=
  inferInstanceAs (Decidable (_ ∨ _))

theorem digitValue_digitChar : ∀ d < radix, digitValue (digitChar d) = d := by
  decide

theorem digitValue_toLower_digitChar : ∀ d < radix, digitValue (digitChar d).toLower = d := by
  decide

theorem Cased.digitValue (hd : d < radix) (h : Cased (digitChar d) c) : digitValue c = d := by
  rcases h with rfl | rfl
  · exact digitValue_digitChar d hd
  · exact digitValue_toLower_digitChar d hd

end Digits

section Writing

variable {n width : Nat} {digits : List Char}

theorem write?_eq_none_iff : write? n width = none ↔ Nat.pow radix width ≤ n := by
  induction width generalizing n with
  | zero =>
    rw [write?_zero, show Nat.pow radix 0 = 1 from rfl]
    split <;> simp <;> omega
  | succ width hi =>
    rw [write?_succ, Option.map_eq_none_iff, hi, Nat.le_div_iff_mul_le (by decide)]
    rfl

theorem exists_write? (h : n < Nat.pow radix width) : ∃ digits, write? n width = some digits :=
  Option.ne_none_iff_exists'.mp (mt write?_eq_none_iff.mp (Nat.not_le.mpr h))

theorem write?_zero_eq_some_iff : write? n 0 = some digits ↔ n = 0 ∧ digits = [] := by
  rw [write?_zero]
  split
  case isTrue h  => simp [h, eq_comm]
  case isFalse h => simp [h]

theorem write?_succ_eq_some_iff : write? n (width + 1) = some digits ↔
    ∃ front, write? (n / radix) width = some front ∧ front ++ [digitChar (n % radix)] = digits := by
  rw [write?_succ, Option.map_eq_some_iff]

theorem length_write? (h : write? n width = some digits) : digits.length = width := by
  induction width generalizing n digits with
  | zero => rw [(write?_zero_eq_some_iff.mp h).right, List.length_nil]
  | succ width hi =>
    obtain ⟨front, hw, rfl⟩ := write?_succ_eq_some_iff.mp h
    rw [List.length_append, hi hw]
    rfl

theorem exists_digitChar_of_mem_write? (h : write? n width = some digits) :
    ∀ c ∈ digits, ∃ d < radix, c = digitChar d := by
  induction width generalizing n digits with
  | zero =>
    rw [(write?_zero_eq_some_iff.mp h).right]
    exact fun _ hc => absurd hc List.not_mem_nil
  | succ width hi =>
    obtain ⟨front, hw, rfl⟩ := write?_succ_eq_some_iff.mp h
    intro c hc
    rcases List.mem_append.mp hc with hc | hc
    · exact hi hw c hc
    · exact ⟨_, Nat.mod_lt _ (by decide), List.mem_singleton.mp hc⟩

theorem read_append_singleton (cs : List Char) (c : Char) :
    read (cs ++ [c]) = min maxValue (read cs * radix + digitValue c) := by
  rw [read, List.foldl_append]
  rfl

theorem read_write? (h : write? n width = some digits) (hn : n ≤ maxValue) : read digits = n := by
  induction width generalizing n digits with
  | zero =>
    obtain ⟨rfl, rfl⟩ := write?_zero_eq_some_iff.mp h
    rfl
  | succ width hi =>
    obtain ⟨front, hw, rfl⟩ := write?_succ_eq_some_iff.mp h
    have hd := Nat.mod_lt n (show radix > 0 by decide)
    rw [read_append_singleton, hi hw (Nat.le_trans (Nat.div_le_self ..) hn),
      digitValue_digitChar _ hd, Nat.div_add_mod', Nat.min_eq_right hn]

end Writing

theorem read_congr {cs ds : List Char}
    (h : List.Forall₂ (fun c d => digitValue c = digitValue d) cs ds) : read cs = read ds := by
  suffices hf : ∀ n, cs.foldl (fun n c => min maxValue (n * radix + digitValue c)) n =
      ds.foldl (fun n c => min maxValue (n * radix + digitValue c)) n from hf 0
  induction h with
  | nil           => exact fun _ => rfl
  | cons hc _ hi => exact fun n => by rw [List.foldl_cons, List.foldl_cons, hc, hi]

-- What a stream may write for a number in so many digits.
def Spells (n width : Nat) (cs : List Char) : Prop :=
  ∃ digits, write? n width = some digits ∧ List.Forall₂ Cased digits cs

instance (n width : Nat) (cs : List Char) : Decidable (Spells n width cs) :=
  match h : write? n width with
  | none        => isFalse (by simp [Spells, h])
  | some digits => decidable_of_iff (List.Forall₂ Cased digits cs) (by simp [Spells, h])

namespace Spells

variable {n width : Nat} {cs : List Char}

theorem length (h : Spells n width cs) : cs.length = width := by
  have ⟨_, hw, hc⟩ := h
  exact hc.length_eq.symm.trans (length_write? hw)

theorem exists_digit (h : Spells n width cs) :
    ∀ c ∈ cs, ∃ d < radix, Cased (digitChar d) c := by
  have ⟨_, hw, hc⟩ := h
  have hd := exists_digitChar_of_mem_write? hw
  clear h hw
  induction hc with
  | nil           => exact fun _ hc => absurd hc List.not_mem_nil
  | cons hc _ hi =>
    have ⟨⟨d, hl, he⟩, hd⟩ := List.forall_mem_cons.mp hd
    exact List.forall_mem_cons.mpr ⟨⟨d, hl, he ▸ hc⟩, hi hd⟩

theorem read (h : Spells n width cs) (hn : n ≤ maxValue) : read cs = n := by
  have ⟨digits, hw, hc⟩ := h
  rw [← read_write? hw hn]
  refine (read_congr ?_).symm
  have hd := exists_digitChar_of_mem_write? hw
  refine (List.forall₂_iff_get.mpr ⟨hc.length_eq, fun i h₁ h₂ => ?_⟩)
  have ⟨d, hl, he⟩ := hd _ (List.get_mem digits ⟨i, h₁⟩)
  have hg := hc.get h₁ h₂
  rw [he] at hg ⊢
  rw [hg.digitValue hl, digitValue_digitChar d hl]

end Spells

theorem exists_spells {n width : Nat} (h : n < Nat.pow radix width) : ∃ cs, Spells n width cs := by
  have ⟨digits, hw⟩ := exists_write? h
  exact ⟨digits, digits, hw, List.forall₂_same.mpr fun _ _ => .inl rfl⟩

end PenStream.Numeral
