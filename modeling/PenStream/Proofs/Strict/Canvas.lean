import Mathlib.Tactic.Linarith
import Mathlib.Tactic.Positivity
import Mathlib.Tactic.Zify
import PenStream.Canvas.Clip
import PenStream.Strict.Canvas

namespace PenStream

theorem Color.length_flatMap_bytes (cs : List Color) :
    (cs.flatMap bytes).length = cs.length * 4 := by
  induction cs with
  | nil => rfl
  | cons c cs hi =>
    rw [List.flatMap_cons, List.length_append, hi, List.length_cons, Nat.succ_mul, Nat.add_comm]
    rfl

theorem Canvas.length_bytes {s : Size} (c : Canvas s) :
    c.bytes.length = s.width * s.height * 4 := by
  rw [bytes, Color.length_flatMap_bytes, Vector.length_toList]

namespace Strict

variable {s : Size}

-- The bytes of a canvas can be counted, and those of a row are among them.
theorem row_bytes (y : Fin s.height) :
    (0 : Int) ≤ y.val * (s.width * 4) ∧
      (y.val : Int) * (s.width * 4) + s.width * 4 ≤ s.width * s.height * 4 ∧
      (s.width : Int) * s.height * 4 ≤ 0xFFFFFFFFFFFFFFFF := by
  refine ⟨by positivity, ?_, ?_⟩
  · have := Nat.mul_le_mul_right (s.width * 4) (Nat.succ_le_of_lt y.isLt)
    rw [Nat.succ_mul] at this
    zify at this
    linarith
  · have := Nat.mul_le_mul (Nat.le_of_lt_succ s.width_lt) (Nat.le_of_lt_succ s.height_lt)
    zify at this
    linarith

theorem row_rowNumber (y : Fin s.height) : Canvas.row s (Canvas.rowNumber y) = .ok y := by
  have hn : Canvas.rowNumber y = y := by
    have := y.isLt
    have := s.height_lt
    simp only [Canvas.rowNumber]
    omega
  simp [Canvas.row, hn]

theorem row_eq (y : Fin s.height) : row s y = pure y := by
  have hw := s.width_lt
  have ⟨h₀, h₁, h₂⟩ := row_bytes y
  simp only [row, row_rowNumber, access_ok, pure_bind, Size.area, Canvas.cellBytes, Nat.cast_mul,
    Nat.cast_ofNat]
  rw [size_bind (by omega), size_bind (by omega), size_bind (by omega), require_bind h₁]

theorem span_eq (x len : Nat) (h : x + len ≤ s.width) : span s x len = pure () := by
  have hw := s.width_lt
  simp only [span, Canvas.cellBytes, Nat.cast_ofNat]
  rw [size_bind (by omega), size_bind (by omega), size_bind (by omega),
    require_eq (by simp only [Canvas.stride, Nat.cast_mul, Nat.cast_ofNat]; omega)]

example : span ⟨2, 1, by decide, by decide, by decide, by decide⟩ 1 2 = throw .range :=
  rfl

theorem write_point (c : Canvas s) (color : Color) (p : Cell s) :
    c.write color p.point = .ok (c.set p color) := by
  simp only [Canvas.write, Cell.point, row_rowNumber]
  simp [bind, Except.bind, Canvas.cell, pure, Except.pure]

theorem read_point (c : Canvas s) (p : Cell s) : c.read p.point = .ok (c.get p) := by
  simp only [Canvas.read, Cell.point, row_rowNumber]
  simp [bind, Except.bind, Canvas.cell, pure, Except.pure]

theorem put_eq (c : Canvas s) (color : Color) (p : Cell s) :
    put c color p.point = pure (c.set p color) := by
  have hs : span s p.x 1 = pure () := span_eq p.x 1 p.x.isLt
  rw [put, write_point]
  simp only [Cell.point, row_eq, hs, pure_bind, access_ok]

theorem putRow_eq (c : Canvas s) (color : Color) (y : Fin s.height) {x len : Nat}
    (h : x + len ≤ s.width) :
    putRow c color ⟨x, y⟩ len = pure (c.paintRow color y x len h) := by
  have hw : c.writeRow color ⟨x, y⟩ len = .ok (c.paintRow color y x len h) := by
    have hx : (0 : Int) ≤ x ∧ (x : Int) + len ≤ s.width := by omega
    simp only [Canvas.writeRow, row_rowNumber]
    simp [bind, Except.bind, hx, pure, Except.pure]
  rw [putRow, hw]
  simp only [row_eq, span_eq x len h, pure_bind, access_ok]

theorem putDown_eq (c : Canvas s) (color : Color) (x : Fin s.width) {y len : Nat}
    (h : y + len ≤ s.height) :
    putDown c color ⟨x, y⟩ len = pure (c.paintColumn color x y len h) := by
  induction len generalizing c y with
  | zero => rfl
  | succ len hi =>
    have hp := put_eq c color ⟨x, ⟨y, by omega⟩⟩
    simp only [Cell.point] at hp
    rw [putDown, hp, pure_bind]
    exact_mod_cast hi _ (y := y + 1) (by omega)

theorem putColumn_eq (c : Canvas s) (color : Color) (x : Fin s.width) {y len : Nat}
    (h : y + len ≤ s.height) :
    putColumn c color ⟨x, y⟩ len = pure (c.paintColumn color x y len h) := by
  have := s.height_lt
  rw [putColumn, int32_bind (by simp only; omega), putDown_eq]

theorem putBlock_eq (c : Canvas s) (color : Color) {x len y rows : Nat} (hx : x + len ≤ s.width)
    (h : y + rows ≤ s.height) :
    putBlock c color ⟨x, y⟩ len rows = pure (c.paintBlock color x len hx y rows h) := by
  induction rows generalizing c y with
  | zero => rfl
  | succ rows hi =>
    have hp := putRow_eq c color ⟨y, by omega⟩ hx
    simp only at hp
    rw [putBlock, hp, pure_bind]
    exact_mod_cast hi _ (y := y + 1) (by omega)

theorem bounds_eq : bounds s = pure s.bounds := by
  have := s.width_lt
  have := s.height_lt
  rw [bounds, int32_bind (by omega), int32_bind (by omega)]
  rfl

theorem extent_eq {first last : Int} (h : 0 ≤ first ∧ first ≤ last ∧ last < 0x7FFFFFFF) :
    extent first last = pure (last - first + 1) := by
  rw [extent, int32_bind (by omega), int32_eq (by omega)]

theorem plot_eq (c : Canvas s) (color : Color) (p : Point) :
    plot c color p = pure (c.plot color p) := by
  rw [plot, bounds_eq, pure_bind, Canvas.plot]
  cases h : s.cell? p
  case some q =>
    rw [Cell.cell?_eq_some_iff] at h
    have hc : s.bounds.contains q.point := by
      have := q.x.isLt
      have := q.y.isLt
      simp only [Box.contains_iff, Size.bounds, Cell.point]
      omega
    rw [← h, if_pos hc, put_eq]
  case none =>
    have hc : ¬s.bounds.contains p := by
      simp only [Size.cell?, dite_eq_right_iff, reduceCtorEq, imp_false] at h
      simp only [Box.contains_iff, Size.bounds]
      omega
    rw [if_neg hc]

-- Ends that are in order, and not both beyond the same side, leave a run between the sides.
theorem hline_eq (c : Canvas s) (color : Color) (x₁ x₂ y : Int) :
    hline c color x₁ x₂ y = pure (c.hline color x₁ x₂ y) := by
  have hw := s.width_lt
  have hp := s.width_pos
  rw [hline, bounds_eq, pure_bind, Canvas.hline]
  by_cases h : max (min x₁ x₂) 0 ≤ min (max x₁ x₂) (s.width - 1) ∧ 0 ≤ y ∧ y < s.height
  case pos =>
    rw [if_neg (by simp only [Size.bounds]; omega), dif_pos h]
    simp only [Size.bounds]
    rw [extent_eq (by omega), pure_bind, ← putRow_eq]
    congr 2
    · omega
    · exact (Int.toNat_of_nonneg h.right.left).symm
  case neg => rw [if_pos (by simp only [Size.bounds]; omega), dif_neg h]

theorem vline_eq (c : Canvas s) (color : Color) (x y₁ y₂ : Int) :
    vline c color x y₁ y₂ = pure (c.vline color x y₁ y₂) := by
  have hh := s.height_lt
  have hp := s.height_pos
  rw [vline, bounds_eq, pure_bind, Canvas.vline]
  by_cases h : max (min y₁ y₂) 0 ≤ min (max y₁ y₂) (s.height - 1) ∧ 0 ≤ x ∧ x < s.width
  case pos =>
    rw [if_neg (by simp only [Size.bounds]; omega), dif_pos h]
    simp only [Size.bounds]
    rw [extent_eq (by omega), pure_bind, ← putColumn_eq]
    congr 2
    · exact (Int.toNat_of_nonneg h.right.left).symm
    · omega
  case neg => rw [if_pos (by simp only [Size.bounds]; omega), dif_neg h]

theorem bar_eq (c : Canvas s) (color : Color) (p q : Point) :
    bar c color p q = pure (c.bar color p q) := by
  have hw := s.width_lt
  rw [bar, bounds_eq, pure_bind, Canvas.bar]
  by_cases h : ((Box.ofCorners p q).clip s.bounds).isValid
  case pos =>
    have hx := Canvas.clip_columns h
    have hy := Canvas.clip_rows h
    rw [if_pos h, dif_pos h, extent_eq (by omega), pure_bind, Canvas.paintBox, ← putBlock_eq]
    congr 2 <;> omega
  case neg => rw [if_neg h, dif_neg h]

theorem clear_eq (c : Canvas s) (color : Color) : clear c color = pure (c.clear color) :=
  putBlock_eq c color (x := 0) (y := 0) (by omega) (by omega)

end Strict

end PenStream
