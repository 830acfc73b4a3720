import PenStream.Canvas.Run

namespace PenStream.Canvas

variable {s : Size}

def hline (c : Canvas s) (color : Color) (x₁ x₂ y : Int) : Canvas s :=
  let left := max (min x₁ x₂) 0
  let right := min (max x₁ x₂) (s.width - 1)
  if h : left ≤ right ∧ 0 ≤ y ∧ y < s.height then
    c.paintRow color ⟨y.toNat, by omega⟩ left.toNat (right - left + 1).toNat (by omega)
  else
    c

def vline (c : Canvas s) (color : Color) (x y₁ y₂ : Int) : Canvas s :=
  let top := max (min y₁ y₂) 0
  let bottom := min (max y₁ y₂) (s.height - 1)
  if h : top ≤ bottom ∧ 0 ≤ x ∧ x < s.width then
    c.paintColumn color ⟨x.toNat, by omega⟩ top.toNat (bottom - top + 1).toNat (by omega)
  else
    c

def paintBox (c : Canvas s) (color : Color) (b : Box)
    (hx : 0 ≤ b.left ∧ b.left ≤ b.right ∧ b.right < s.width)
    (hy : 0 ≤ b.top ∧ b.top ≤ b.bottom ∧ b.bottom < s.height) : Canvas s :=
  c.paintBlock color b.left.toNat (b.right - b.left + 1).toNat (by omega)
    b.top.toNat (b.bottom - b.top + 1).toNat (by omega)

theorem clip_columns {b : Box} (h : (b.clip s.bounds).isValid) :
    0 ≤ (b.clip s.bounds).left ∧ (b.clip s.bounds).left ≤ (b.clip s.bounds).right ∧
      (b.clip s.bounds).right < s.width := by
  have := Box.isValid_iff.mp h
  simp only [Box.clip, Size.bounds] at *
  omega

theorem clip_rows {b : Box} (h : (b.clip s.bounds).isValid) :
    0 ≤ (b.clip s.bounds).top ∧ (b.clip s.bounds).top ≤ (b.clip s.bounds).bottom ∧
      (b.clip s.bounds).bottom < s.height := by
  have := Box.isValid_iff.mp h
  simp only [Box.clip, Size.bounds] at *
  omega

-- The solid box between two corners.
def bar (c : Canvas s) (color : Color) (p q : Point) : Canvas s :=
  let b := Box.ofCorners p q
  if h : (b.clip s.bounds).isValid then
    c.paintBox color (b.clip s.bounds) (clip_columns h) (clip_rows h)
  else
    c

def clear (c : Canvas s) (color : Color) : Canvas s :=
  c.paintBlock color 0 s.width (by omega) 0 s.height (by omega)

theorem clear_eq_fill (c : Canvas s) (color : Color) : c.clear color = c.fill color :=
  ext_get fun p => by simp [clear, get_paintBlock, fill, p.x.isLt, p.y.isLt]

end PenStream.Canvas
