import PenStream.Proofs.Geometry.Arc
import PenStream.Proofs.Strict.Line
import PenStream.Strict.Ellipse

namespace PenStream.Strict

variable {s : Size}

theorem top_eq {rx ry : Int} (hx : 0 ≤ rx ∧ rx ≤ 0x7FFF) (hy : 0 ≤ ry ∧ ry ≤ 0x7FFF) :
    top rx ry = pure (.top rx ry) := by
  have hxx := Arc.mul_bounds hx hx
  have hyy := Arc.mul_bounds hy hy
  have hg := Arc.mul_bounds hy (v := 2 * (rx * rx)) (n := 0x80000000) (by omega)
  rw [top, int64_bind (by omega), int64_bind (by omega), int64_bind (by omega),
    int64_bind (by omega), int64_bind (by rw [neg_mul]; omega),
    int32_eq (by omega)]
  rfl

theorem choose_eq {a : Arc} (ha : |a.errorAfter .across| ≤ 0x7FFFFFFFFFFFFFFF)
    (hd : |a.errorAfter .down| ≤ 0x7FFFFFFFFFFFFFFF)
    (hb : |a.errorAfter .both| ≤ 0x7FFFFFFFFFFFFFFF) :
    choose (a.errorAfter .across) (a.errorAfter .down) (a.errorAfter .both) = pure a.move := by
  simp only [Int.abs_eq_natAbs] at ha hd hb
  simp only [choose, Int.abs_eq_natAbs]
  rw [int64_bind (by omega), int64_bind (by omega), int64_bind (by omega)]
  simp only [← Nat.cast_min, Nat.cast_lt, Nat.cast_le]
  rfl

theorem arcStep_eq {a : Arc} (h : a.Bounded) (hx : |a.offset.x| ≤ 0x7FFF)
    (hy : |a.offset.y| ≤ 0x7FFF) : arcStep a = pure a.step := by
  have ⟨hxx, hyy, hgx, hgy, he⟩ := h
  rw [abs_le] at hx hy
  have hc : choose (a.error + a.gainX + a.yy) (a.error + a.gainY + a.xx)
      (a.error + a.gainX + a.yy + a.gainY + a.xx) = pure a.move := by
    apply choose_eq <;> rw [abs_le] <;> simp only [Arc.errorAfter] <;> omega
  rw [arcStep, int64_bind (by omega), int64_bind (by omega), int64_bind (by omega),
    int64_bind (by omega), int64_bind (by omega), int64_bind (by omega), hc, pure_bind, Arc.step]
  cases a.move <;>
    rw [int64_bind (by simp only [Arc.Move.offset]; omega),
      int64_bind (by simp only [Arc.Move.offset]; omega),
      int32_bind (by simp only [Arc.Move.offset]; omega),
      int32_bind (by simp only [Arc.Move.offset]; omega)] <;>
    rfl

theorem plotAll_eq (c : Canvas s) (color : Color) (points : List Point) :
    plotAll color c points = pure (c.plotAll color points) := by
  induction points generalizing c with
  | nil => rfl
  | cons p rest hi =>
    rw [plotAll, plot_eq, pure_bind, hi]
    rfl

theorem plotReflections_eq (c : Canvas s) (color : Color) {center : Point} (hc : center.InRange)
    (offset : Point) (hx : |offset.x| ≤ 0x7FFF) (hy : |offset.y| ≤ 0x7FFF) :
    plotReflections c color center offset =
      pure (c.plotAll color (Ellipse.reflections center offset)) := by
  have ⟨_, _⟩ := hc
  rw [abs_le] at hx hy
  have hr : reflections center offset = pure (Ellipse.reflections center offset) := by
    rw [reflections, int32_bind (by omega), int32_bind (by omega), int32_bind (by omega),
      int32_bind (by omega)]
    rfl
  rw [plotReflections, hr, pure_bind, plotAll_eq]

theorem abs_of_inside {rx ry : Int} {p : Point} (h : Arc.Inside rx ry p) (hx : rx ≤ 0x7FFF)
    (hy : ry ≤ 0x7FFF) : |p.x| ≤ 0x7FFF ∧ |p.y| ≤ 0x7FFF := by
  have ⟨_, _, _, _⟩ := h
  exact ⟨abs_le.mpr (by omega), abs_le.mpr (by omega)⟩

-- The walk comes down to the centre with the moves that the quadrant has room for.
theorem walkArc_eq (color : Color) {center : Point} (hc : center.InRange) {rx ry : Int}
    (hx : rx ≤ 0x7FFF) (hy : ry ≤ 0x7FFF) {moves : Nat} {a : Arc} (he : a.Exact rx ry)
    (h : Arc.Inside rx ry a.offset) (hm : Arc.left rx a.offset ≤ moves) (c : Canvas s) :
    let walked := Walk.foldUntil Arc.step Arc.isLevel
      (fun c a => c.plotAll color (Ellipse.reflections center a.offset)) moves c a
    walkArc color center moves c a = pure (walked.1, walked.2.offset) ∧
      Arc.Inside rx ry walked.2.offset := by
  induction moves generalizing a c with
  | zero =>
    have ⟨hpx, hpy⟩ := abs_of_inside h hx hy
    have hl : a.isLevel := by
      have := h.bottom
      simp only [Arc.left] at hm
      simp only [Arc.isLevel, decide_eq_true_eq]
      omega
    rw [walkArc, plotReflections_eq c color hc a.offset hpx hpy, pure_bind, if_pos hl]
    exact ⟨rfl, h⟩
  | succ moves hi =>
    have ⟨hpx, hpy⟩ := abs_of_inside h hx hy
    rw [walkArc, plotReflections_eq c color hc a.offset hpx hpy, pure_bind]
    unfold Walk.foldUntil
    split
    case isTrue hl  => exact ⟨rfl, h⟩
    case isFalse hl =>
      have := Arc.left_step_lt he h hl
      rw [arcStep_eq (he.bounded h hx hy) hpx hpy, pure_bind]
      exact hi he.step (h.step he hl) (by omega) _

theorem walkTail_eq (color : Color) {center : Point} (hc : center.InRange) {count : Nat} {p : Point}
    (hx : 0 ≤ p.x ∧ p.x + count ≤ 0x7FFF) (hy : |p.y| ≤ 0x7FFF) (c : Canvas s) :
    walkTail color center count c p =
      pure (Walk.fold (fun p => ⟨p.x + 1, p.y⟩)
        (fun c p => c.plotAll color (Ellipse.reflections center p)) count c ⟨p.x + 1, p.y⟩) := by
  induction count generalizing p c with
  | zero => rfl
  | succ count hi =>
    have hp : |p.x + 1| ≤ 0x7FFF := abs_le.mpr (by omega)
    have hr := plotReflections_eq c color hc ⟨p.x + 1, p.y⟩ hp hy
    rw [walkTail, int32_bind (by omega), hr, pure_bind]
    exact hi (p := ⟨p.x + 1, p.y⟩) (by dsimp only; omega) hy _

theorem ellipse_eq (c : Canvas s) (color : Color) {center : Point} (hc : center.InRange)
    {rx ry : Int} (hx : |rx| ≤ 0x7FFF) (hy : |ry| ≤ 0x7FFF) :
    ellipse c color center rx ry = pure (c.ellipse color center rx ry) := by
  rw [Int.abs_eq_natAbs] at hx hy
  have hm : Arc.left rx.natAbs (Arc.top rx.natAbs ry.natAbs).offset ≤
      ((rx.natAbs : Int) + ry.natAbs).toNat := by
    simp only [Arc.left, Arc.top]
    omega
  obtain ⟨hw, hi⟩ := walkArc_eq color hc hx hy (Arc.Exact.top ..)
    (Arc.inside_top (by omega) (by omega)) hm c
  have hf := Ellipse.foldTail_foldUntil
    (fun c p => c.plotAll color (Ellipse.reflections center p)) c rx.natAbs ry.natAbs
  have hp := (abs_of_inside hi hx hy).right
  have hn : ((rx.natAbs : Int) + ry.natAbs).toNat = rx.natAbs + ry.natAbs := by omega
  rw [hn] at hw hi hp
  have := hi.left
  have := hi.right
  rw [ellipse, Int.abs_eq_natAbs, Int.abs_eq_natAbs, int32_bind (by omega), int32_bind (by omega),
    top_eq (by omega) (by omega), pure_bind, hn, hw, pure_bind]
  dsimp only
  rw [walkTail_eq color hc (by omega) hp, Canvas.ellipse, Ellipse.foldQuadrant_eq]
  exact congrArg pure hf

end PenStream.Strict
