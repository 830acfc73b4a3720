import Mathlib.Tactic.Linarith
import Mathlib.Tactic.Ring
import PenStream.Geometry.Arc

namespace PenStream

-- By how much a point fails the equation of the ellipse.
def Ellipse.deviation (rx ry : Int) (p : Point) : Int :=
  ry * ry * (p.x * p.x) + rx * rx * (p.y * p.y) - rx * rx * (ry * ry)

namespace Arc

variable {rx ry : Int} {a : Arc}

def Move.from (m : Move) (p : Point) : Point :=
  ⟨p.x + m.offset.x, p.y + m.offset.y⟩

@[simp]
theorem offset_step (a : Arc) : a.step.offset = a.move.from a.offset :=
  rfl

theorem errorAfter_both (a : Arc) :
    a.errorAfter .both = a.errorAfter .across + a.errorAfter .down - a.error := by
  simp only [errorAfter]
  omega

structure Exact (rx ry : Int) (a : Arc) : Prop where
  xx : a.xx = rx * rx
  yy : a.yy = ry * ry
  gainX : a.gainX = 2 * (ry * ry * a.offset.x)
  gainY : a.gainY = 2 * (rx * rx * a.offset.y)
  error : a.error = Ellipse.deviation rx ry a.offset

namespace Exact

theorem top (rx ry : Int) : Exact rx ry (top rx ry) where
  xx := rfl
  yy := rfl
  gainX := by simp [Arc.top]
  gainY := by simp only [Arc.top]; ring
  error := by simp only [Arc.top, Ellipse.deviation]; ring

theorem errorAfter (h : Exact rx ry a) (m : Move) :
    a.errorAfter m = Ellipse.deviation rx ry (m.from a.offset) := by
  cases m <;>
    simp only [Arc.errorAfter, h.error, h.gainX, h.gainY, h.xx, h.yy, Ellipse.deviation, Move.from,
      Move.offset] <;>
    ring

theorem errorAfter_across (h : Exact rx ry a) :
    a.errorAfter .across = a.error + ry * ry * (2 * a.offset.x + 1) := by
  simp only [Arc.errorAfter, h.gainX, h.yy]
  ring

theorem errorAfter_down (h : Exact rx ry a) :
    a.errorAfter .down = a.error - rx * rx * (2 * -a.offset.y - 1) := by
  simp only [Arc.errorAfter, h.gainY, h.xx]
  ring

-- Straight below the side only the height is left of the error.
theorem errorAfter_down_nonneg (h : Exact rx ry a) (hr : a.offset.x = rx) :
    0 ≤ a.errorAfter .down := by
  have hd : a.errorAfter .down = rx * rx * ((a.offset.y + 1) * (a.offset.y + 1)) := by
    rw [h.errorAfter]
    simp only [Ellipse.deviation, Move.from, Move.offset, hr]
    ring
  exact hd ▸ Int.mul_nonneg (mul_self_nonneg rx) (mul_self_nonneg _)

theorem step (h : Exact rx ry a) : Exact rx ry a.step where
  xx := h.xx
  yy := h.yy
  gainX := by simp only [Arc.step, h.gainX, h.yy]; ring
  gainY := by simp only [Arc.step, h.gainY, h.xx]; ring
  error := h.errorAfter a.move

end Exact

-- A place in the quadrant from the top at `-ry` to the side at `rx`.
structure Inside (rx ry : Int) (p : Point) : Prop where
  left : 0 ≤ p.x
  right : p.x ≤ rx
  top : -ry ≤ p.y
  bottom : p.y ≤ 0

theorem inside_top (hx : 0 ≤ rx) (hy : 0 ≤ ry) : Inside rx ry (top rx ry).offset where
  left := Int.le_refl _
  right := hx
  top := Int.le_refl _
  bottom := Int.neg_nonpos_of_nonneg hy

-- At the side of the quadrant, a move to the right is off by more than one straight down.
theorem move_of_right (he : Exact rx ry a) (h : Inside rx ry a.offset) (hl : ¬a.isLevel)
    (hr : a.offset.x = rx) : a.move = .down := by
  have hy : a.offset.y ≤ -1 := by simp only [isLevel, decide_eq_true_eq] at hl; omega
  have hx := h.left
  have ht := h.top
  have hg : 0 < ry * ry * (2 * a.offset.x + 1) := by
    apply Int.mul_pos (Int.mul_pos _ _) <;> omega
  have hg' : 0 ≤ rx * rx * (2 * -a.offset.y - 1) := by
    apply Int.mul_nonneg (mul_self_nonneg rx)
    omega
  have ha := he.errorAfter_across
  have hd := he.errorAfter_down
  have hb := a.errorAfter_both
  have hn := he.errorAfter_down_nonneg hr
  rw [move, if_neg (by omega), if_neg (by omega)]

theorem Inside.step (he : Exact rx ry a) (h : Inside rx ry a.offset) (hl : ¬a.isLevel) :
    Inside rx ry a.step.offset := by
  have hy : a.offset.y ≤ -1 := by simp only [isLevel, decide_eq_true_eq] at hl; omega
  have ⟨h₁, h₂, h₃, _⟩ := h
  rw [offset_step]
  by_cases hr : a.offset.x = rx
  case pos =>
    rw [move_of_right he h hl hr]
    constructor <;> simp only [Move.from, Move.offset] <;> omega
  case neg => cases a.move <;> constructor <;> simp only [Move.from, Move.offset] <;> omega

-- How many moves are left at most: those to the side and those down to the height of the centre.
def left (rx : Int) (p : Point) : Nat :=
  (rx - p.x).toNat + (-p.y).toNat

theorem left_step_lt (he : Exact rx ry a) (h : Inside rx ry a.offset) (hl : ¬a.isLevel) :
    left rx a.step.offset < left rx a.offset := by
  have ⟨_, h₂, _, h₄⟩ := h.step he hl
  have ⟨_, h₂', _, h₄'⟩ := h
  rw [offset_step] at *
  cases hm : a.move <;> simp only [hm, left, Move.from, Move.offset] at * <;> omega

-- For radii of 15 bits the numbers of a walk are far from what 64 bits hold.
structure Bounded (a : Arc) : Prop where
  xx : 0 ≤ a.xx ∧ a.xx ≤ 0x3FFF0001
  yy : 0 ≤ a.yy ∧ a.yy ≤ 0x3FFF0001
  gainX : 0 ≤ a.gainX ∧ a.gainX ≤ 0x3FFFFFFFFFFF
  gainY : -0x3FFFFFFFFFFF - 0x3FFF0001 ≤ a.gainY ∧ a.gainY ≤ 0
  error : -0x1000000000000000 ≤ a.error ∧ a.error ≤ 0x2000000000000000

theorem mul_bounds {u v m n : Int} (hu : 0 ≤ u ∧ u ≤ m) (hv : 0 ≤ v ∧ v ≤ n) :
    0 ≤ u * v ∧ u * v ≤ m * n :=
  ⟨Int.mul_nonneg hu.left hv.left,
    Int.mul_le_mul hu.right hv.right hv.left (hu.left.trans hu.right)⟩

theorem Exact.bounded (he : Exact rx ry a) (h : Inside rx ry a.offset) (hx : rx ≤ 0x7FFF)
    (hy : ry ≤ 0x7FFF) : Bounded a := by
  have ⟨h₁, h₂, h₃, h₄⟩ := h
  have hrx : 0 ≤ rx ∧ rx ≤ 0x7FFF := by omega
  have hry : 0 ≤ ry ∧ ry ≤ 0x7FFF := by omega
  have hpx : 0 ≤ a.offset.x ∧ a.offset.x ≤ 0x7FFF := by omega
  have hpy : 0 ≤ -a.offset.y ∧ -a.offset.y ≤ 0x7FFF := by omega
  have hxx := mul_bounds hrx hrx
  have hyy := mul_bounds hry hry
  have hgx := mul_bounds hyy hpx
  have hgy := mul_bounds hxx hpy
  have hu := mul_bounds hyy (mul_bounds hpx hpx)
  have hv := mul_bounds hxx (mul_bounds hpy hpy)
  have hw := mul_bounds hxx hyy
  rw [mul_neg] at hgy
  rw [neg_mul_neg] at hv
  exact {
    xx := by rw [he.xx]; omega
    yy := by rw [he.yy]; omega
    gainX := by rw [he.gainX]; omega
    gainY := by rw [he.gainY]; omega
    error := by rw [he.error, Ellipse.deviation]; omega }

end Arc

end PenStream
