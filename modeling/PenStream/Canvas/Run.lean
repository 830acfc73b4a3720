import PenStream.Canvas.Basic

namespace PenStream.Canvas

variable {s : Size}

-- Colours `len` places from the place `i` on.
def paintFrom {n : Nat} (pixels : Vector Color n) (color : Color) :
    (i len : Nat) → i + len ≤ n → Vector Color n
  | _, 0,       _ => pixels
  | i, len + 1, h => paintFrom (pixels.set i color) color (i + 1) len (by omega)

theorem getElem_paintFrom {n : Nat} (pixels : Vector Color n) (color : Color) (i len : Nat)
    (h : i + len ≤ n) (j : Nat) (hj : j < n) :
    (paintFrom pixels color i len h)[j] = if i ≤ j ∧ j < i + len then color else pixels[j] := by
  induction len generalizing pixels i with
  | zero => rw [paintFrom, if_neg (by omega)]
  | succ len ih =>
    rw [paintFrom, ih, Vector.getElem_set]
    split <;> split <;> (try split) <;> first | rfl | omega

theorem row_fits {x len : Nat} (y : Fin s.height) (h : x + len ≤ s.width) :
    y * s.width + x + len ≤ s.area := by
  have h' : y * s.width + s.width ≤ s.height * s.width := by
    rw [← Nat.succ_mul]
    exact Nat.mul_le_mul_right _ y.isLt
  simp only [Size.area, Nat.mul_comm s.width]
  omega

-- Colours `len` cells of the row `y`, from the column `x` on.
def paintRow (c : Canvas s) (color : Color) (y : Fin s.height) (x len : Nat)
    (h : x + len ≤ s.width) : Canvas s :=
  ⟨paintFrom c.pixels color (y * s.width + x) len (row_fits y h)⟩

theorem get_paintRow (c : Canvas s) (color : Color) (y : Fin s.height) (x len : Nat)
    (h : x + len ≤ s.width) (p : Cell s) :
    (c.paintRow color y x len h).get p =
      if p.y = y ∧ x ≤ p.x ∧ p.x < x + len then color else c.get p := by
  simp only [get_eq_getElem, Cell.index_isLt, paintRow, getElem_paintFrom]
  congr 1
  simp only [Cell.index, eq_iff_iff, Fin.ext_iff]
  have hp := p.x.isLt
  constructor
  case mpr => rintro ⟨hy, h₁, h₂⟩; rw [hy]; omega
  case mp =>
    rintro ⟨h₁, h₂⟩
    have hy : p.y.val = y.val := by
      rcases Nat.lt_trichotomy p.y.val y.val with hlt | heq | hgt
      · have := Nat.mul_le_mul_right s.width (Nat.succ_le_of_lt hlt)
        rw [Nat.succ_mul] at this
        omega
      · exact heq
      · have := Nat.mul_le_mul_right s.width (Nat.succ_le_of_lt hgt)
        rw [Nat.succ_mul] at this
        omega
    rw [hy] at h₁ h₂
    exact ⟨hy, by omega, by omega⟩

-- Colours `len` cells of the column `x`, from the row `y` on.
def paintColumn (c : Canvas s) (color : Color) (x : Fin s.width) :
    (y len : Nat) → y + len ≤ s.height → Canvas s
  | _, 0,       _ => c
  | y, len + 1, h =>
    (c.set ⟨x, ⟨y, by omega⟩⟩ color).paintColumn color x (y + 1) len (by omega)

theorem get_paintColumn (c : Canvas s) (color : Color) (x : Fin s.width) (y len : Nat)
    (h : y + len ≤ s.height) (p : Cell s) :
    (c.paintColumn color x y len h).get p =
      if p.x = x ∧ y ≤ p.y ∧ p.y < y + len then color else c.get p := by
  induction len generalizing c y with
  | zero => rw [paintColumn, if_neg fun h => absurd h.2 (by omega)]
  | succ len ih =>
    rw [paintColumn, ih, get_set]
    have : (⟨x, ⟨y, by omega⟩⟩ : Cell s) = p ↔ p.x = x ∧ p.y.val = y := by
      cases p
      simp [Fin.ext_iff, eq_comm]
    grind

-- Colours `len` cells from the column `x` on, in each of `rows` rows from the row `y` on.
def paintBlock (c : Canvas s) (color : Color) (x len : Nat) (hx : x + len ≤ s.width) :
    (y rows : Nat) → y + rows ≤ s.height → Canvas s
  | _, 0,        _ => c
  | y, rows + 1, h =>
    (c.paintRow color ⟨y, by omega⟩ x len hx).paintBlock color x len hx (y + 1) rows (by omega)

theorem get_paintBlock (c : Canvas s) (color : Color) (x len : Nat) (hx : x + len ≤ s.width)
    (y rows : Nat) (h : y + rows ≤ s.height) (p : Cell s) :
    (c.paintBlock color x len hx y rows h).get p =
      if (x ≤ p.x ∧ p.x < x + len) ∧ y ≤ p.y ∧ p.y < y + rows then color else c.get p := by
  induction rows generalizing c y with
  | zero => rw [paintBlock, if_neg fun h => absurd h.2 (by omega)]
  | succ rows ih =>
    rw [paintBlock, ih, get_paintRow]
    simp only [Fin.ext_iff]
    split <;> split <;> (try split) <;> first | rfl | omega

end PenStream.Canvas
