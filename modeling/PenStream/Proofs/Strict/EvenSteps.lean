import Mathlib.Algebra.Order.Floor.Ring
import Mathlib.Data.Rat.Floor
import PenStream.Proofs.Strict.Line

namespace PenStream

namespace Dda

theorem ceil_div_eq {a n q : Int} (hn : 0 < n) (hl : (q - 1) * n < a) (hu : a ≤ q * n) :
    ⌈(a : ℚ) / n⌉ = q := by
  have hn : (0 : ℚ) < n := by exact_mod_cast hn
  rw [Int.ceil_eq_iff, lt_div_iff₀ hn, div_le_iff₀ hn]
  exact ⟨by exact_mod_cast hl, by exact_mod_cast hu⟩

theorem abs_sub_div_lt {a n z : Int} (hn : 0 < n) (h : |n * z - a| < n) :
    |(z : ℚ) - a / n| < 1 := by
  have hq : (0 : ℚ) < n := by exact_mod_cast hn
  have he : (z : ℚ) - a / n = (n * z - a) / n := by rw [sub_div, mul_div_cancel_left₀ _ hq.ne']
  rw [he, abs_div, abs_of_pos hq, div_lt_one hq]
  exact_mod_cast h

-- There are no other whole numbers less than one away.
theorem eq_floor_or_eq_ceil {x : ℚ} {z : Int} (h : |(z : ℚ) - x| < 1) : z = ⌊x⌋ ∨ z = ⌈x⌉ := by
  have ⟨hl, hr⟩ := abs_lt.mp h
  rcases le_total (z : ℚ) x with hz | hz
  · exact .inl (Int.floor_eq_iff.mpr ⟨hz, by linarith⟩).symm
  · exact .inr (Int.ceil_eq_iff.mpr ⟨by linarith, hz⟩).symm

namespace At

variable {start difference : Int} {k : Nat} {d : Dda}

theorem ceil_eq (h : At start difference k d) : ⌈(difference : ℚ) / d.count⌉ = d.whole + 1 := by
  have hs := h.split
  have hp := h.rest_pos
  have hl := h.rest_le
  exact ceil_div_eq h.count_pos (by linarith) (by linarith)

-- Steps round up, but start one step ahead: what has been gained is what `k + 1` exact steps come
-- to, rounded up, less what the first of them does.
theorem value_eq_ceil (h : At start difference k d) : d.value =
    start + ⌈(((k + 1) * difference : Int) : ℚ) / d.count⌉ - ⌈(difference : ℚ) / d.count⌉ := by
  have hv := h.value
  have hs := h.split
  have hg := h.carry_gt
  have hz := h.carry_le
  have hc : ⌈(((k + 1) * difference : Int) : ℚ) / d.count⌉ = d.value - start + (d.whole + 1) :=
    ceil_div_eq h.count_pos (by linarith) (by linarith)
  rw [hc, h.ceil_eq]
  omega

theorem abs_value_sub_lt (h : At start difference k d) :
    |((d.value - start : Int) : ℚ) - ((k * difference : Int) : ℚ) / d.count| < 1 := by
  have hv := h.value
  have hp := h.rest_pos
  have hl := h.rest_le
  have hg := h.carry_gt
  have hz := h.carry_le
  exact abs_sub_div_lt h.count_pos (abs_lt.mpr ⟨by linarith, by linarith⟩)

theorem abs_gain_sub_lt (h : At start difference k d) :
    |((d.step.value - d.value : Int) : ℚ) - (difference : ℚ) / d.count| < 1 := by
  have hm := h.mul_gain_step
  have hg := h.carry_gt
  have hz := h.carry_le
  have hg' := h.step.carry_gt
  have hz' := h.step.carry_le
  rw [count_step] at hg'
  exact abs_sub_div_lt h.count_pos (abs_lt.mpr ⟨by linarith, by linarith⟩)

end At

end Dda

namespace Strict

-- Short of a fault, a computation has no other result than this.
def Computes (x : Checked α) (a : α) : Prop :=
  ∀ b, x = .ok b → b = a

namespace Computes

variable {x : Checked α} {a : α}

theorem pure (a : α) : Computes (pure a) a := by
  rintro b ⟨⟩
  rfl

theorem bind {f : α → Checked β} {b : β} (h : Computes x a) (hf : Computes (f a) b) :
    Computes (x >>= f) b := by
  intro c hc
  cases x with
  | error e => cases hc
  | ok a'   => exact hf c (h a' rfl ▸ hc)

theorem require (p : Prop) [Decidable p] (fault : Fault) : Computes (require p fault) () :=
  fun _ _ => rfl

theorem int32 (v : Int) : Computes (int32 v) v := by
  unfold Strict.int32 fit
  split
  case isTrue  => exact .pure v
  case isFalse => rintro b ⟨⟩

end Computes

namespace Computes

theorem divide (a b : Int) : Computes (divide a b) (a.tdiv b) :=
  (require _ _).bind (int32 _)

theorem remainder (a b : Int) : Computes (remainder a b) (a.tmod b) :=
  (require _ _).bind (int32 _)

theorem forward (start stop count : Int) :
    Computes (forward start stop count) (.forward start stop count) := by
  unfold Strict.forward Dda.forward
  refine (int32 _).bind ((divide _ _).bind ((remainder _ _).bind ?_))
  dsimp only
  split
  case isTrue =>
    refine (int32 _).bind ((int32 _).bind ((int32 _).bind ?_))
    rw [Int.add_sub_cancel]
    exact .pure _
  case isFalse => exact (int32 _).bind (.pure _)

theorem ddaStep (d : Dda) : Computes (ddaStep d) d.step := by
  unfold Strict.ddaStep Dda.step
  refine (int32 _).bind ((int32 _).bind ?_)
  dsimp only
  split
  case isTrue  => exact (int32 _).bind ((int32 _).bind (.pure _))
  case isFalse => exact .pure _

theorem ddaSteps (count : Nat) (d : Dda) : Computes (ddaSteps count d) (Dda.step^[count] d) := by
  induction count generalizing d with
  | zero          => exact .pure d
  | succ count hi => exact (ddaStep d).bind (hi d.step)

theorem ddaAfter (start stop count : Int) (k : Nat) :
    Computes (ddaAfter start stop count k) (Dda.step^[k] (.forward start stop count)) :=
  (forward start stop count).bind (ddaSteps k _)

end Computes

-- Between ends that are words, but not the least, each value is one.
theorem ddaSteps_eq {start difference : Int} {k n : Nat} {d : Dda} (h : d.At start difference k)
    (hn : k + n ≤ d.count) (hc : d.count < 0x80000000) (hs : |start| < 0x80000000)
    (ht : |start + difference| < 0x80000000) : ddaSteps n d = pure (Dda.step^[n] d) := by
  induction n generalizing k d with
  | zero => rfl
  | succ n hi =>
    have hv : |d.step.value| < 0x80000000 := by
      have := h.step.between (by rw [Dda.count_step]; omega)
      have := abs_lt.mp hs
      have := abs_lt.mp ht
      exact abs_lt.mpr (by omega)
    rw [ddaSteps, ddaStep_eq h hc hv, pure_bind]
    exact hi h.step (by rw [Dda.count_step]; omega) (by rw [Dda.count_step]; exact hc)

theorem ddaAfter_eq {start stop count : Int} {k : Nat} (hk : k ≤ count)
    (hw : ∀ v ∈ [count, start, stop, stop - start], |v| < 0x80000000) :
    ddaAfter start stop count k = pure (Dda.step^[k] (.forward start stop count)) := by
  simp only [List.forall_mem_cons] at hw
  have ⟨hc, hs, ht, hd, _⟩ := hw
  have hc := abs_lt.mp hc
  rw [ddaAfter, forward_eq (by omega) hd, pure_bind]
  refine ddaSteps_eq (.forward start stop count) ?_ ?_ hs (by rwa [add_sub_cancel])
  · rw [Dda.count_forward]
    omega
  · rw [Dda.count_forward]
    omega

end Strict

namespace Dda

-- In words of 32 bits there is no other result, and where the ends and what lies between them are
-- words, but not the least, there is this one.
theorem closed_form {count : Int} (hc : 1 ≤ count) (start stop : Int) (k : Nat) :
    let difference : ℚ := stop - start
    let d := step^[k] (forward start stop count)
    d.value = start + ⌈(k + 1) * difference / count⌉ - ⌈difference / count⌉ ∧
    (-count < d.carry ∧ d.carry ≤ 0) ∧
    |d.value - (start + k * difference / count)| < 1 ∧
    (d.step.value - d.value = ⌊difference / count⌋ ∨
      d.step.value - d.value = ⌈difference / count⌉) ∧
    (k = count → d.value = stop) ∧
    (∀ e, Strict.ddaAfter start stop count k = .ok e → e = d) ∧
    (k ≤ count → (∀ v ∈ [count, start, stop, stop - start], |v| < 0x80000000) →
      Strict.ddaAfter start stop count k = pure d) := by
  intro difference d
  have h : At start (stop - start) k d := At.iterate (.forward start stop count) k
  have hn : d.count = count := by rw [count_iterate, count_forward, max_eq_left hc]
  have hd : difference = ((stop - start : Int) : ℚ) := (Int.cast_sub stop start).symm
  have hv := h.value_eq_ceil
  have ha := h.abs_value_sub_lt
  have hs := eq_floor_or_eq_ceil h.abs_gain_sub_lt
  have hg := h.carry_gt
  rw [hn] at hv ha hs hg
  rw [hd]
  refine ⟨?_, ⟨hg, h.carry_le⟩, ?_, hs, fun hk => ?_,
    Strict.Computes.ddaAfter start stop count k, fun hk hw => ?_⟩
  · exact_mod_cast hv
  · rw [← sub_sub]
    exact_mod_cast ha
  · rw [h.value_eq (stop - start) (by rw [hn, hk, mul_comm])]
    omega
  · exact Strict.ddaAfter_eq hk hw

-- On a falling line that does not come out even, one step of three.
theorem closed_form_falling :
    let d := step (forward 0 (-7) 3)
    (1 : Int) ≤ 3 ∧ d.value = -2 ∧ Strict.ddaAfter 0 (-7) 3 1 = pure d ∧
      d.value = 0 + ⌈((1 : Nat) + 1) * (((-7 : Int) : ℚ) - (0 : Int)) / (3 : Int)⌉ -
        ⌈(((-7 : Int) : ℚ) - (0 : Int)) / (3 : Int)⌉ := by
  intro d
  have hc : (1 : Int) ≤ 3 := by decide
  have ⟨hv, _, _, _, _, _, hw⟩ := closed_form hc 0 (-7) 1
  exact ⟨hc, rfl, hw (by decide) (by decide), hv⟩

end Dda

end PenStream
