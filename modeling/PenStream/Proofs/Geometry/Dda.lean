import Mathlib.Algebra.Order.Ring.Abs
import Mathlib.Tactic.Linarith
import Mathlib.Tactic.LinearCombination
import Mathlib.Tactic.Positivity
import PenStream.Geometry.Dda

namespace PenStream.Dda

-- A value on its way from `start`, `k` steps on, where all steps make up the difference. Counted
-- `count` times, it has gained `k` times the difference, but for the remainders that are carried.
structure At (start difference : Int) (k : Nat) (d : Dda) : Prop where
  count_pos : 0 < d.count
  split : d.whole * d.count + d.rest = difference
  rest_pos : 0 < d.rest
  rest_le : d.rest ≤ d.count
  carry_gt : -d.count < d.carry
  carry_le : d.carry ≤ 0
  value : d.count * (d.value - start) + d.carry = k * difference + d.rest - d.count

@[simp]
theorem count_forward (start stop count : Int) :
    (forward start stop count).count = max count 1 := by
  unfold forward
  dsimp only
  split <;> rfl

@[simp]
theorem count_step (d : Dda) : d.step.count = d.count := by
  unfold step
  dsimp only
  split <;> rfl

@[simp]
theorem count_iterate (d : Dda) (k : Nat) : (step^[k] d).count = d.count := by
  induction k with
  | zero      => rfl
  | succ k hi => rw [Function.iterate_succ_apply', count_step, hi]

@[simp]
theorem rest_step (d : Dda) : d.step.rest = d.rest := by
  unfold step
  dsimp only
  split <;> rfl

theorem value_step (d : Dda) :
    d.step.value = d.value + d.whole ∨ d.step.value = d.value + d.whole + 1 := by
  unfold step
  dsimp only
  split
  case isTrue  => exact .inr rfl
  case isFalse => exact .inl rfl

namespace At

variable {start difference : Int} {k : Nat} {d : Dda}

theorem forward (start stop count : Int) :
    At start (stop - start) 0 (forward start stop count) := by
  have hc : 0 < max count 1 := by omega
  have hs := Int.tdiv_mul_add_tmod (stop - start) (max count 1)
  have hl := Int.tmod_lt_of_pos (stop - start) hc
  have hg := Int.lt_tmod_of_pos (stop - start) hc
  unfold Dda.forward
  dsimp only
  split
  case isTrue h =>
    exact {
      count_pos := hc
      split := by simp only [Int.sub_mul]; omega
      rest_pos := by simp only; omega
      rest_le := by simp only; omega
      carry_gt := by simp only; omega
      carry_le := h
      value := by simp only [Int.sub_self, Int.mul_zero, Nat.cast_zero, Int.zero_mul]; omega }
  case isFalse h =>
    exact {
      count_pos := hc
      split := hs
      rest_pos := by simp only; omega
      rest_le := by simp only; omega
      carry_gt := by simp only; omega
      carry_le := by simp only; omega
      value := by simp only [Int.sub_self, Int.mul_zero, Nat.cast_zero, Int.zero_mul]; omega }

-- A step gains the difference, `count` times; it takes from the carry what it adds in excess.
theorem step (h : At start difference k d) : At start difference (k + 1) d.step := by
  have ⟨hc, hs, hp, hl, hg, hz, hv⟩ := h
  unfold Dda.step
  dsimp only
  split
  case isTrue hk =>
    exact {
      count_pos := hc, split := hs, rest_pos := hp, rest_le := hl
      carry_gt := by simp only; omega
      carry_le := by simp only; omega
      value := by push_cast; linear_combination hv + hs }
  case isFalse hk =>
    exact {
      count_pos := hc, split := hs, rest_pos := hp, rest_le := hl
      carry_gt := by simp only; omega
      carry_le := by simp only; omega
      value := by push_cast; linear_combination hv + hs }

theorem iterate (h : At start difference 0 d) (k : Nat) : At start difference k (Dda.step^[k] d) := by
  induction k with
  | zero      => exact h
  | succ k hi => exact Function.iterate_succ_apply' Dda.step k d ▸ hi.step

-- Less than one more, in counts, is no more in whole numbers.
theorem le_of_mul_count (h : At start difference k d) {m n : Int}
    (hl : m * d.count < (n + 1) * d.count) : m ≤ n :=
  Int.le_of_lt_add_one (lt_of_mul_lt_mul_right hl (Int.le_of_lt h.count_pos))

-- A value is less than one away from where it would be if every step added the same.
theorem le_value (h : At start difference k d) (gain : Int)
    (hg : gain * d.count ≤ k * difference) : start + gain ≤ d.value := by
  have hv := h.value
  have hr := h.rest_pos
  have hc := h.carry_le
  refine h.le_of_mul_count ?_
  linarith

theorem value_le (h : At start difference k d) (gain : Int)
    (hg : k * difference ≤ gain * d.count) : d.value ≤ start + gain := by
  have hv := h.value
  have hr := h.rest_le
  have hc := h.carry_gt
  refine h.le_of_mul_count ?_
  linarith

theorem value_eq (h : At start difference k d) (gain : Int)
    (hg : gain * d.count = k * difference) : d.value = start + gain :=
  Int.le_antisymm (h.value_le gain (Int.le_of_eq hg.symm)) (h.le_value gain (Int.le_of_eq hg))

-- As long as no step is one too many, a value does not go beyond either end.
theorem between (h : At start difference k d) (hk : k ≤ d.count) :
    start + min difference 0 ≤ d.value ∧ d.value ≤ start + max difference 0 := by
  rcases Int.le_total 0 difference with hd | hd
  · have := h.le_value 0 (by rw [Int.zero_mul]; positivity)
    have := h.value_le difference (by rw [Int.mul_comm]; exact mul_le_mul_of_nonneg_left hk hd)
    omega
  · have := h.value_le 0
      (by rw [Int.zero_mul]; exact Int.mul_nonpos_of_nonneg_of_nonpos (by omega) hd)
    have := h.le_value difference
      (by rw [Int.mul_comm (k : Int)]; exact Int.mul_le_mul_of_nonpos_left hd hk)
    omega

-- A difference of no more than so much for each step adds no more in one.
theorem whole_between (h : At start difference k d) {n : Int} (hd : |difference| ≤ n * d.count) :
    -(n + 1) ≤ d.whole ∧ d.whole ≤ n := by
  have ⟨hl, hu⟩ := abs_le.mp hd
  have hs := h.split
  have hr := h.rest_pos
  have hr' := h.rest_le
  constructor
  · refine h.le_of_mul_count ?_
    linarith
  · refine h.le_of_mul_count ?_
    linarith

-- What a step adds is less than one away from the difference per step.
theorem mul_gain_step (h : At start difference k d) :
    d.count * (d.step.value - d.value) = difference + d.carry - d.step.carry := by
  have hv := h.value
  have hv' := h.step.value
  rw [count_step, rest_step] at hv'
  push_cast at hv'
  linear_combination hv' - hv

theorem le_step_value (h : At start difference k d) (gain : Int)
    (hg : gain * d.count ≤ difference) : d.value + gain ≤ d.step.value := by
  have hm := h.mul_gain_step
  have hc := h.carry_gt
  have hc' := h.step.carry_le
  refine h.le_of_mul_count ?_
  linarith

theorem step_value_le (h : At start difference k d) (gain : Int)
    (hg : difference ≤ gain * d.count) : d.step.value ≤ d.value + gain := by
  have hm := h.mul_gain_step
  have hc := h.carry_le
  have hc' := h.step.carry_gt
  rw [count_step] at hc'
  refine h.le_of_mul_count ?_
  linarith

end At

end PenStream.Dda
