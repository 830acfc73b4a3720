import Mathlib.Analysis.Real.Sqrt
import PenStream.Proofs.Geometry.Quadrant

namespace PenStream

namespace Arc

variable {rx ry : Int} {a : Arc}

-- No move would have left less of an error than the one that is made.
theorem natAbs_errorAfter_move_le (a : Arc) (m : Move) :
    (a.errorAfter a.move).natAbs ≤ (a.errorAfter m).natAbs := by
  unfold move
  dsimp only
  split
  case isTrue  => cases m <;> omega
  case isFalse => split <;> cases m <;> omega

-- The most that a move on one axis changes the error, anywhere in the quadrant.
def widestGain (rx ry : Int) : Int :=
  max (ry * ry * (2 * rx - 1)) (rx * rx * (2 * ry - 1))

theorem widestGain_nonneg (rx ry : Nat) : 0 ≤ widestGain rx ry := by
  rcases Nat.eq_zero_or_pos rx with rfl | hx
  · exact le_max_of_le_right (by simp)
  · exact le_max_of_le_left (Int.mul_nonneg (mul_self_nonneg _) (by omega))

-- Off by no more than half of the widest gain.
def Close (rx ry : Int) (error : Int) : Prop :=
  2 * (error.natAbs : Int) ≤ widestGain rx ry

-- Of an error, one above it, one below it, and what comes of both changes together.
theorem Close.exists_of_gains {error up down : Int} (h : Close rx ry error)
    (hu : 0 ≤ up ∧ up ≤ widestGain rx ry) (hd : 0 ≤ down ∧ down ≤ widestGain rx ry) :
    Close rx ry (error + up) ∨ Close rx ry (error - down) ∨ Close rx ry (error + up - down) := by
  unfold Close at *
  omega

-- A move to the right raises the error and a move down lowers it, so that one of the three next
-- offsets is as close as this one, and the walk goes to the one that is off the least.
theorem Close.step (he : Exact rx ry a) (hi : Inside rx ry a.offset) (hl : ¬a.isLevel)
    (h : Close rx ry a.error) : Close rx ry a.step.error := by
  have hy : a.offset.y ≤ -1 := by simp only [isLevel, decide_eq_true_eq] at hl; omega
  obtain ⟨h₁, h₂, h₃, _⟩ := hi
  suffices hm : ∃ m, Close rx ry (a.errorAfter m) by
    obtain ⟨m, hm⟩ := hm
    have := a.natAbs_errorAfter_move_le m
    exact Int.le_trans (by simp only [Arc.step]; omega) hm
  have hd : 0 ≤ rx * rx * (2 * -a.offset.y - 1) ∧
      rx * rx * (2 * -a.offset.y - 1) ≤ widestGain rx ry :=
    ⟨Int.mul_nonneg (mul_self_nonneg _) (by omega),
      le_max_of_le_right (Int.mul_le_mul_of_nonneg_left (by omega) (mul_self_nonneg _))⟩
  by_cases hr : a.offset.x = rx
  case pos =>
    -- At the side a move down takes off what is left of the error.
    refine ⟨.down, Int.le_trans ?_ h⟩
    have := he.errorAfter_down_nonneg hr
    have := he.errorAfter_down
    omega
  case neg =>
    have hu : 0 ≤ ry * ry * (2 * a.offset.x + 1) ∧
        ry * ry * (2 * a.offset.x + 1) ≤ widestGain rx ry :=
      ⟨Int.mul_nonneg (mul_self_nonneg _) (by omega),
        le_max_of_le_left (Int.mul_le_mul_of_nonneg_left (by omega) (mul_self_nonneg _))⟩
    rcases h.exists_of_gains hu hd with h | h | h
    · exact ⟨.across, he.errorAfter_across ▸ h⟩
    · exact ⟨.down, he.errorAfter_down ▸ h⟩
    · refine ⟨.both, ?_⟩
      rw [errorAfter_both, he.errorAfter_across, he.errorAfter_down]
      convert h using 1
      ring

end Arc

namespace Ellipse

theorem close_of_mem_walked {rx ry : Nat} {p : Point} (h : p ∈ walked rx ry) :
    Arc.Close rx ry (deviation rx ry p) := by
  have ⟨_, hp, he, hc⟩ := exists_place_of_mem_walked (Arc.widestGain_nonneg rx ry)
    (fun _ he hi hl hc => Arc.Close.step he hi hl hc) h
  exact hp ▸ he.error ▸ hc

-- What comes no later than the first level offset has been walked.
theorem mem_walked_of_first {rx ry : Nat} {before after : List Point} {p : Point}
    (h : quadrant rx ry = before ++ p :: after) (hb : ∀ q ∈ before, q.y ≠ 0) :
    p ∈ walked rx ry := by
  obtain ⟨x, _, hg, _⟩ := staircase_walked rx ry
  have hn : ¬walked rx ry <+: before := fun hp =>
    hb _ (hp.subset (List.mem_of_getLast? hg)) rfl
  rw [quadrant_eq] at h
  rcases List.append_eq_append_iff.mp h with ⟨rest, he, _⟩ | ⟨rest, he, hr⟩
  · exact absurd ⟨rest, he.symm⟩ hn
  · cases rest with
    | nil         => exact absurd (by rw [he, List.append_nil]) hn
    | cons q rest =>
      obtain rfl : p = q := (List.cons.inj hr).left
      exact he ▸ List.mem_append_right _ List.mem_cons_self

end Ellipse

namespace Circle

-- Between two squares lies the sum of the roots, and more if these are not next to each other.
theorem le_mul_self_sub {u v : Int} (hu : 0 ≤ u) (h : u < v) : 2 * v - 1 ≤ v * v - u * u := by
  have := Int.mul_le_mul (show u ≤ v - 1 by omega) (show u ≤ v - 1 by omega) hu (by omega)
  linarith

-- By how much the square of the distance from the centre exceeds that of the radius.
def excess (r : Int) (p : Point) : Int :=
  p.x * p.x + p.y * p.y - r * r

theorem deviation_eq (r : Int) (p : Point) :
    Ellipse.deviation r r p = r * r * excess r p := by
  simp only [Ellipse.deviation, excess]
  ring

theorem abs_excess_le_of_mem_walked {r : Nat} (hr : 0 < r) {p : Point}
    (h : p ∈ Ellipse.walked r r) : |excess r p| ≤ r - 1 := by
  have hc := Ellipse.close_of_mem_walked h
  have hp : (0 : Int) < r * r := Int.mul_pos (by omega) (by omega)
  rw [Arc.Close, Arc.widestGain, max_self, Int.natCast_natAbs, deviation_eq, abs_mul,
    abs_of_pos hp, Int.mul_left_comm] at hc
  have := Int.le_of_mul_le_mul_left hc hp
  omega

-- What is level is at the side, since the square before that of the radius is too far from it.
theorem eq_side_of_level {r x : Int} (hx : 0 ≤ x ∧ x ≤ r) (h : |excess r ⟨x, 0⟩| ≤ r - 1) :
    x = r := by
  rcases Int.lt_or_eq_of_le hx.right with hl | he
  case inr => exact he
  case inl =>
    have := le_mul_self_sub hx.left hl
    simp only [excess, abs_le] at h
    omega

theorem getLast?_walked (r : Nat) : (Ellipse.walked r r).getLast? = some ⟨r, 0⟩ := by
  obtain ⟨x, hx, hg, hs⟩ := Ellipse.staircase_walked r r
  have hm := List.mem_of_getLast? hg
  have hn : 0 ≤ x := (hs.start_le _ hm).left
  rcases Nat.eq_zero_or_pos r with rfl | hr
  case inl => exact Int.le_antisymm hx hn ▸ hg
  case inr => exact eq_side_of_level ⟨hn, hx⟩ (abs_excess_le_of_mem_walked hr hm) ▸ hg

-- So there is nothing between to be added.
theorem quadrant_eq_walked (r : Nat) : Ellipse.quadrant r r = Ellipse.walked r r := by
  rw [Ellipse.quadrant_eq, getLast?_walked, Option.getD_some, Ellipse.quadrant.tailFrom]
  simp

theorem abs_excess_le {r : Nat} (hr : 0 < r) {p : Point} (h : p ∈ Ellipse.quadrant r r) :
    |excess r p| ≤ r - 1 :=
  abs_excess_le_of_mem_walked hr (quadrant_eq_walked r ▸ h)

theorem filter_level_quadrant {r : Nat} (hr : 0 < r) :
    (Ellipse.quadrant r r).filter (·.y = 0) = [⟨r, 0⟩] := by
  have hs := Ellipse.staircase_quadrant r r
  rw [← List.perm_singleton, List.perm_ext_iff_of_nodup (hs.nodup.filter _) (List.nodup_singleton _)]
  rintro ⟨x, y⟩
  simp only [List.mem_filter, decide_eq_true_eq, List.mem_singleton, Point.mk.injEq]
  constructor
  · rintro ⟨hp, rfl⟩
    exact ⟨eq_side_of_level ⟨(hs.start_le _ hp).left, (hs.le_stop _ hp).left⟩ (abs_excess_le hr hp),
      rfl⟩
  · rintro ⟨rfl, rfl⟩
    exact ⟨List.mem_of_getLast? hs.getLast?_eq, rfl⟩

-- An error of less than the radius is less than half a pixel.
theorem abs_sqrt_sub_lt {r : Nat} {square : Int} (hr : 0 < r) (h : |square - r * r| ≤ r - 1) :
    |√(square : ℝ) - r| < 1 / 2 := by
  have hr : (1 : ℝ) ≤ r := by exact_mod_cast hr
  have h : |(square : ℝ) - r * r| ≤ r - 1 := by exact_mod_cast h
  rw [abs_le] at h
  rw [abs_lt, lt_sub_iff_add_lt, sub_lt_iff_lt_add]
  constructor
  · exact (Real.lt_sqrt (by linarith)).mpr (by linarith)
  · exact (Real.sqrt_lt' (by linarith)).mpr (by linarith)

end Circle

namespace Ellipse

-- No offset down to the first that is level is off the ellipse by more than half of the widest
-- gain. A circle is level at its side only, and its pixels are less than half a pixel off it.
theorem quadrant_close_to_ellipse :
    (∀ (rx ry : Nat) (before after : List Point) (p : Point),
      quadrant rx ry = before ++ p :: after → (∀ q ∈ before, q.y ≠ 0) →
        2 * |deviation rx ry p| ≤
          (max (ry * ry * (2 * rx - 1)) (rx * rx * (2 * ry - 1)) : Int)) ∧
    ∀ r : Nat, 0 < r →
      (quadrant r r).filter (·.y = 0) = [⟨r, 0⟩] ∧
      ∀ p ∈ quadrant r r,
        |p.x * p.x + p.y * p.y - r * r| ≤ (r - 1 : Int) ∧
        |√(p.x * p.x + p.y * p.y : ℝ) - r| < 1 / 2 := by
  refine ⟨fun rx ry before after p h hb => ?_, fun r hr => ⟨?_, fun p hp => ?_⟩⟩
  · rw [← Int.natCast_natAbs]
    exact close_of_mem_walked (mem_walked_of_first h hb)
  · exact Circle.filter_level_quadrant hr
  · have he := Circle.abs_excess_le hr hp
    exact ⟨he, by exact_mod_cast Circle.abs_sqrt_sub_lt hr he⟩

-- The last offset of a flat ellipse that is not level, and the pixel of a small circle that lies on
-- its diagonal.
theorem quadrant_close_to_ellipse_flat :
    let before : List Point := [⟨0, -1⟩, ⟨1, -1⟩, ⟨2, -1⟩, ⟨3, -1⟩, ⟨4, -1⟩, ⟨5, -1⟩, ⟨6, -1⟩]
    let diagonal : Point := ⟨3, -3⟩
    quadrant (10 : Nat) (1 : Nat) = before ++ ⟨7, -1⟩ :: [⟨8, 0⟩, ⟨9, 0⟩, ⟨10, 0⟩] ∧
      (∀ q ∈ before, q.y ≠ 0) ∧ 2 * |deviation (10 : Nat) (1 : Nat) ⟨7, -1⟩| ≤ 100 ∧
      0 < 4 ∧ diagonal ∈ quadrant (4 : Nat) (4 : Nat) ∧
      |√((3 : Int) * (3 : Int) + (-3 : Int) * (-3 : Int) : ℝ) - (4 : Nat)| < 1 / 2 := by
  intro before diagonal
  have hq : quadrant (10 : Nat) (1 : Nat) = before ++ ⟨7, -1⟩ :: [⟨8, 0⟩, ⟨9, 0⟩, ⟨10, 0⟩] := by
    decide
  have hb : ∀ q ∈ before, q.y ≠ 0 := by decide
  have hd : diagonal ∈ quadrant (4 : Nat) (4 : Nat) := by decide
  exact ⟨hq, hb, quadrant_close_to_ellipse.left 10 1 _ _ _ hq hb, by decide, hd,
    ((quadrant_close_to_ellipse.right 4 (by decide)).right _ hd).right⟩

end Ellipse

end PenStream
