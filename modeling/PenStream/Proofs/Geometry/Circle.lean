import PenStream.Proofs.Geometry.Accuracy

namespace PenStream.Circle

variable {r : Int} {p q : Point} {m : Arc.Move} {a : Arc}

-- The square of the distance from the centre exceeds that of the radius by less than the larger
-- offset, or falls short of it by no more. The walk leaves nothing of this band out.
def InBand (r : Int) (p : Point) : Prop :=
  -max p.x (-p.y) ≤ excess r p ∧ excess r p < max p.x (-p.y)

theorem inBand_swap (r x y : Int) : InBand r ⟨-y, -x⟩ ↔ InBand r ⟨x, y⟩ := by
  simp only [InBand, excess, neg_neg, neg_mul_neg, max_comm (-y), Int.add_comm (y * y)]

theorem excess_from (r : Int) (m : Arc.Move) (p : Point) : excess r (m.from p) =
    excess r p + m.offset.x * (2 * p.x + 1) + m.offset.y * (2 * p.y + 1) := by
  cases m <;> simp only [excess, Arc.Move.from, Arc.Move.offset] <;> ring

-- Of what a move leaves, the excess is no more than of what the others would leave.
def Least (r : Int) (p : Point) (m : Arc.Move) : Prop :=
  ∀ n : Arc.Move, (excess r (m.from p)).natAbs ≤ (excess r (n.from p)).natAbs

theorem least_move (hr : 0 < r) (he : a.Exact r r) : Least r a.offset a.move := by
  intro n
  have h := a.natAbs_errorAfter_move_le n
  rw [he.errorAfter, he.errorAfter, deviation_eq, deviation_eq, Int.natAbs_mul (r * r),
    Int.natAbs_mul (r * r)] at h
  exact Nat.le_of_mul_le_mul_left h (Int.natAbs_pos.mpr (Int.mul_pos hr hr).ne')

theorem Least.bounds (h : Least r p m) :
    let left := (excess r (m.from p)).natAbs
    left ≤ (excess r p + (2 * p.x + 1)).natAbs ∧ left ≤ (excess r p + (2 * p.y + 1)).natAbs ∧
      left ≤ (excess r p + (2 * p.x + 1) + (2 * p.y + 1)).natAbs := by
  have across := excess_from r .across p
  have down := excess_from r .down p
  have both := excess_from r .both p
  simp only [Arc.Move.offset] at across down both
  refine ⟨(h .across).trans_eq ?_, (h .down).trans_eq ?_, (h .both).trans_eq ?_⟩ <;> omega

-- What the excess gains on the way to the right and what it loses on the way down.
theorem exists_excess_eq (r : Int) (hx : 0 ≤ p.x ∧ p.x ≤ q.x) (hy : p.y ≤ q.y ∧ q.y ≤ 0) :
    ∃ gain loss, excess r q = excess r p + gain - loss ∧
      (p.x = q.x → gain = 0) ∧ (p.x < q.x → 2 * q.x - 1 ≤ gain) ∧
      (p.y = q.y → loss = 0) ∧ (p.y < q.y → 2 * -p.y - 1 ≤ loss) := by
  refine ⟨q.x * q.x - p.x * p.x, -p.y * -p.y - -q.y * -q.y, ?_, ?_, ?_, ?_, ?_⟩
  · simp only [excess]
    ring
  · exact fun h => by rw [h, sub_self]
  · exact fun h => le_mul_self_sub hx.left h
  · exact fun h => by rw [h, sub_self]
  · exact fun h => le_mul_self_sub (by omega) (by omega)

namespace InBand

theorem from_least (h : InBand r p) (hx : 0 ≤ p.x) (hy : p.y < 0) (hm : Least r p m) :
    InBand r (m.from p) := by
  have ⟨ha, hd, hb⟩ := hm.bounds
  rw [InBand] at h ⊢
  rw [excess_from] at ha hd hb ⊢
  cases m <;> simp only [Arc.Move.from, Arc.Move.offset] at ha hd hb ⊢ <;> omega

-- None of the band is left behind: a pixel of it that a move would pass by, in the same column or
-- in the same row, would have tempted the walk to another move.
theorem ahead_of_least (h : InBand r p) (hm : Least r p m) (hq : InBand r q)
    (hx : 0 ≤ p.x ∧ p.x ≤ q.x) (hy : p.y ≤ q.y ∧ q.y ≤ 0) (hl : p.y < 0) (hn : q ≠ p) :
    (m.from p).x ≤ q.x ∧ (m.from p).y ≤ q.y := by
  have hn : p.x < q.x ∨ p.y < q.y := by
    by_contra hc
    refine hn (congrArg₂ Point.mk ?_ ?_) <;> omega
  obtain ⟨gain, loss, he, hg₀, hg, hl₀, hl⟩ := exists_excess_eq r hx hy
  have ⟨ha, hd, hb⟩ := hm.bounds
  rw [InBand] at h hq
  rw [excess_from] at ha hd hb
  cases m <;> simp only [Arc.Move.from, Arc.Move.offset] at ha hd hb ⊢
  case across => omega
  case down   => omega
  case both   => omega

-- Once it is level, the band has only the side.
theorem eq_side (h : InBand r p) (hr : 0 ≤ r) (hx : 0 ≤ p.x) (hy : p.y = 0) : p.x = r := by
  rcases Int.lt_trichotomy p.x r with hl | he | hg
  case inl =>
    have := le_mul_self_sub hx hl
    simp only [InBand, excess, hy] at h
    omega
  case inr.inl => exact he
  case inr.inr =>
    have := le_mul_self_sub hr hg
    simp only [InBand, excess, hy] at h
    omega

-- The band does not reach higher than the top.
theorem top_le (h : InBand r p) (hr : 0 ≤ r) : -r ≤ p.y := by
  by_contra hc
  have hy := le_mul_self_sub (u := r) (v := -p.y) hr (by omega)
  have hx := Int.le_self_sq p.x
  have hn := sq_nonneg p.x
  rw [neg_mul_neg] at hy
  rw [pow_two] at hx hn
  simp only [InBand, excess] at h
  omega

theorem eq_of_level (h : InBand r p) (hq : InBand r q) (hr : 0 ≤ r) (hx : 0 ≤ p.x ∧ p.x ≤ q.x)
    (hy : p.y = 0 ∧ q.y = 0) : q = p := by
  have hp := h.eq_side hr hx.left hy.left
  have hq := hq.eq_side hr (by omega) hy.right
  exact congrArg₂ Point.mk (by omega) (by omega)

end InBand

-- A walk in the band comes to every pixel of it that is ahead.
theorem mem_walk_of_inBand (hr : 0 < r) (he : a.Exact r r) (hi : Arc.Inside r r a.offset)
    (ha : InBand r a.offset) {moves : Nat} (hm : Arc.left r a.offset ≤ moves) (hq : InBand r q)
    (hx : a.offset.x ≤ q.x) (hy : a.offset.y ≤ q.y ∧ q.y ≤ 0) :
    q ∈ (Walk.takeUntil Arc.step Arc.isLevel moves a).map Arc.offset := by
  induction moves generalizing a with
  | zero =>
    have hb := hi.bottom
    simp only [Arc.left] at hm
    rw [ha.eq_of_level hq (by omega) ⟨hi.left, hx⟩ (by omega)]
    exact List.mem_singleton_self _
  | succ moves ih =>
    rw [Walk.takeUntil_succ]
    split
    case isTrue hv =>
      simp only [Arc.isLevel, decide_eq_true_eq] at hv
      rw [ha.eq_of_level hq (by omega) ⟨hi.left, hx⟩ (by omega)]
      exact List.mem_singleton_self _
    case isFalse hv =>
      rw [List.map_cons, List.mem_cons]
      by_cases hn : q = a.offset
      case pos => exact .inl hn
      case neg =>
        have hm' := Arc.left_step_lt he hi hv
        have hl' : a.offset.y < 0 := by simpa [Arc.isLevel] using hv
        have hs := least_move hr he
        obtain ⟨hx, hy'⟩ := ha.ahead_of_least hs hq ⟨hi.left, hx⟩ hy hl' hn
        exact .inr (ih he.step (hi.step he hv) (ha.from_least hi.left hl' hs) (by omega) hx
          ⟨hy', hy.right⟩)

theorem inBand_top (hr : 0 < r) : InBand r (Arc.top r r).offset := by
  simp only [InBand, excess, Arc.top, neg_mul_neg]
  omega

theorem inBand_of_mem_walked {r : Nat} (hr : 0 < r) (h : p ∈ Ellipse.walked r r) :
    InBand r p := by
  have step (a : Arc) (he : a.Exact r r) (hi : Arc.Inside r r a.offset) (hl : ¬a.isLevel)
      (hb : InBand r a.offset) : InBand r a.step.offset :=
    hb.from_least hi.left (by simpa [Arc.isLevel] using hl) (least_move (by omega) he)
  obtain ⟨_, hp, _, hb⟩ := Ellipse.exists_place_of_mem_walked (inBand_top (by omega)) step h
  exact hp ▸ hb

-- A pixel is on the quadrant of a circle if and only if it is in the band.
theorem mem_quadrant_iff {r : Nat} (hr : 0 < r) :
    p ∈ Ellipse.quadrant r r ↔ (0 ≤ p.x ∧ p.y ≤ 0) ∧ InBand r p := by
  rw [quadrant_eq_walked]
  constructor
  · intro h
    obtain ⟨x, _, _, hs⟩ := Ellipse.staircase_walked r r
    exact ⟨⟨(hs.start_le p h).left, (hs.le_stop p h).right⟩, inBand_of_mem_walked hr h⟩
  · rintro ⟨⟨hx, hy⟩, h⟩
    exact mem_walk_of_inBand (by omega) (Arc.Exact.top r r) (Arc.inside_top (by omega) (by omega))
      (inBand_top (by omega)) (Ellipse.left_top_le r r) h hx ⟨h.top_le (by omega), hy⟩

theorem swap_mem_quadrant_iff (r : Nat) (x y : Int) :
    ⟨-y, -x⟩ ∈ Ellipse.quadrant r r ↔ ⟨x, y⟩ ∈ Ellipse.quadrant r r := by
  rcases Nat.eq_zero_or_pos r with rfl | hr
  case inl =>
    have hz : Ellipse.quadrant (0 : Nat) (0 : Nat) = [⟨0, 0⟩] := by decide
    simp only [hz, List.mem_singleton, Point.mk.injEq]
    omega
  case inr =>
    rw [mem_quadrant_iff hr, mem_quadrant_iff hr, inBand_swap]
    refine and_congr_left' ?_
    dsimp only
    omega

end PenStream.Circle
