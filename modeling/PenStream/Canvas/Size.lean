import PenStream.Box
import PenStream.SetupError

namespace PenStream

structure Size where
  width : Nat
  height : Nat
  width_pos : 0 < width
  height_pos : 0 < height
  width_lt : width < 0x80000000
  height_lt : height < 0x80000000

namespace Size

def ofDimensions (width height : Nat) : Except SetupError Size :=
  if h : 0 < width ∧ 0 < height ∧ width < 0x80000000 ∧ height < 0x80000000 then
    .ok ⟨width, height, h.1, h.2.1, h.2.2.1, h.2.2.2⟩
  else
    .error (.dimensions width height)

abbrev area (s : Size) : Nat :=
  s.width * s.height

-- The part of the plane that a canvas covers.
def bounds (s : Size) : Box :=
  ⟨0, 0, s.width - 1, s.height - 1⟩

end Size

structure Cell (s : Size) where
  x : Fin s.width
  y : Fin s.height
deriving DecidableEq

namespace Cell

variable {s : Size}

theorem index_lt (p : Cell s) : p.y * s.width + p.x < s.area := by
  have h : p.y * s.width + s.width ≤ s.height * s.width := by
    rw [← Nat.succ_mul]
    exact Nat.mul_le_mul_right _ p.y.isLt
  have := p.x.isLt
  simp only [Size.area, Nat.mul_comm s.width]
  omega

-- The place of a cell in the order of rows from the top, each from the left.
def index (p : Cell s) : Fin s.area :=
  ⟨p.y * s.width + p.x, p.index_lt⟩

theorem index_isLt (p : Cell s) : p.index.val < s.area :=
  p.index_lt

theorem index_inj {p q : Cell s} : p.index = q.index ↔ p = q := by
  constructor
  case mpr => exact fun h => h ▸ rfl
  case mp =>
    intro h
    simp only [index, Fin.mk.injEq] at h
    have hy : p.y.val = q.y.val := by
      have := congrArg (· / s.width) h
      simpa [Nat.mul_comm _ s.width, Nat.mul_add_div s.width_pos,
        Nat.div_eq_of_lt p.x.isLt, Nat.div_eq_of_lt q.x.isLt] using this
    have hx : p.x.val = q.x.val := by
      simp only [hy] at h
      omega
    cases p; cases q
    simp_all [Fin.ext_iff]

def ofIndex (i : Fin s.area) : Cell s where
  x := ⟨i % s.width, Nat.mod_lt _ s.width_pos⟩
  y := ⟨i / s.width, Nat.div_lt_of_lt_mul i.isLt⟩

@[simp]
theorem index_ofIndex (i : Fin s.area) : (ofIndex i).index = i := by
  simp [index, ofIndex, Nat.mul_comm, Nat.div_add_mod]

def point (p : Cell s) : Point :=
  ⟨p.x, p.y⟩

end Cell

@[inline]
def Size.cell? (s : Size) (p : Point) : Option (Cell s) :=
  if h : 0 ≤ p.x ∧ p.x < s.width ∧ 0 ≤ p.y ∧ p.y < s.height then
    some ⟨⟨p.x.toNat, by omega⟩, ⟨p.y.toNat, by omega⟩⟩
  else
    none

namespace Cell

variable {s : Size}

@[simp]
theorem cell?_point (p : Cell s) : s.cell? p.point = some p := by
  have := p.x.isLt
  have := p.y.isLt
  simp [Size.cell?, point]

theorem cell?_eq_some_iff {p : Point} {q : Cell s} : s.cell? p = some q ↔ q.point = p := by
  constructor
  case mpr => exact fun h => h ▸ cell?_point q
  case mp =>
    unfold Size.cell?
    split
    case isFalse => simp
    case isTrue h =>
      rintro ⟨⟩
      cases p
      simp only [point, Point.mk.injEq] at h ⊢
      omega

end Cell

end PenStream
