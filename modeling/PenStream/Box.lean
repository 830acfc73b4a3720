import PenStream.Point

namespace PenStream

structure Box where
  left : Int
  top : Int
  right : Int
  bottom : Int
deriving DecidableEq, Repr

namespace Box

-- The box with the same sides, each pair in its order.
def normalize (b : Box) : Box where
  left := min b.left b.right
  top := min b.top b.bottom
  right := max b.left b.right
  bottom := max b.top b.bottom

-- The box spanned by two opposite corners.
def ofCorners (p q : Point) : Box :=
  normalize ⟨p.x, p.y, q.x, q.y⟩

def clip (b within : Box) : Box where
  left := max b.left within.left
  top := max b.top within.top
  right := min b.right within.right
  bottom := min b.bottom within.bottom

-- Whether the box holds any point.
def isValid (b : Box) : Bool :=
  b.left ≤ b.right && b.top ≤ b.bottom

theorem isValid_iff {b : Box} : b.isValid ↔ b.left ≤ b.right ∧ b.top ≤ b.bottom := by
  simp [isValid]

def contains (b : Box) (p : Point) : Bool :=
  b.left ≤ p.x && p.x ≤ b.right && b.top ≤ p.y && p.y ≤ b.bottom

theorem contains_iff {b : Box} {p : Point} :
    b.contains p ↔ b.left ≤ p.x ∧ p.x ≤ b.right ∧ b.top ≤ p.y ∧ p.y ≤ b.bottom := by
  simp [contains, and_assoc]

theorem contains_clip {b within : Box} {p : Point} :
    (b.clip within).contains p ↔ b.contains p ∧ within.contains p := by
  simp only [contains_iff, clip]
  omega

theorem isValid_normalize (b : Box) : b.normalize.isValid := by
  simp only [isValid_iff, normalize]
  omega

end Box

end PenStream
