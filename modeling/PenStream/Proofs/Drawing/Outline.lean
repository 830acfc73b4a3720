import Mathlib.Logic.Relation
import PenStream.Proofs.Drawing.Enclosure
import PenStream.Proofs.Geometry.Circle

namespace PenStream

namespace Point

-- Two points that share a side or a corner.
def Touches (p q : Point) : Prop :=
  (p.x - q.x).natAbs ≤ 1 ∧ (p.y - q.y).natAbs ≤ 1

-- A way from point to point of an area, each of which touches the one before.
def Joined (area : Set Point) : Point → Point → Prop :=
  Relation.ReflTransGen fun p q => (p ∈ area ∧ q ∈ area) ∧ p.Touches q

def EightConnected (area : Set Point) : Prop :=
  ∀ p ∈ area, ∀ q ∈ area, Joined area p q

variable {area : Set Point} {p q : Point}

theorem Touches.symm (h : p.Touches q) : q.Touches p := by
  simp only [Touches] at *
  omega

theorem Joined.symm (h : Joined area p q) : Joined area q p := by
  have : Std.Symm fun p q => (p ∈ area ∧ q ∈ area) ∧ p.Touches q :=
    ⟨fun _ _ h => ⟨h.left.symm, h.right.symm⟩⟩
  exact Relation.ReflTransGen.stdSymm.symm _ _ h

end Point

theorem Arc.Move.touches_from (m : Arc.Move) (p : Point) : p.Touches (m.from p) := by
  cases m <;> simp only [Point.Touches, Arc.Move.from, Arc.Move.offset] <;> omega

-- However a staircase is placed in an area, its start is joined with all of it.
theorem Staircase.joined {p q : Point} {ps : List Point} (h : Staircase p q ps)
    {area : Set Point} {place : Point → Point}
    (hp : ∀ p q, p.Touches q → (place p).Touches (place q)) (ha : ∀ o ∈ ps, place o ∈ area) :
    ∀ o ∈ ps, Point.Joined area (place p) (place o) := by
  induction h with
  | stop p => exact List.forall_mem_singleton.mpr .refl
  | @step p q ps m h hi =>
    have ⟨hs, hr⟩ := List.forall_mem_cons.mp ha
    have ht := hp _ _ (m.touches_from p)
    refine List.forall_mem_cons.mpr ⟨.refl, fun o ho => ?_⟩
    exact .head ⟨⟨hs, hr _ h.start_mem⟩, ht⟩ (hi hr o ho)

namespace Ellipse

variable {center p : Point} {rx ry : Int}

-- The pixel of an offset, on the left or on the right of the centre, below it or above.
def mirrored (center : Point) (left below : Bool) (o : Point) : Point where
  x := if left then center.x - o.x else center.x + o.x
  y := if below then center.y - o.y else center.y + o.y

theorem mem_reflections_iff {o : Point} :
    p ∈ reflections center o ↔ ∃ left below, p = mirrored center left below o := by
  simp only [reflections, mirrored, Bool.exists_bool, List.mem_cons, List.not_mem_nil, or_false]
  tauto

theorem touches_mirrored (center : Point) (left below : Bool) {p q : Point} (h : p.Touches q) :
    (mirrored center left below p).Touches (mirrored center left below q) := by
  simp only [Point.Touches, mirrored] at *
  cases left <;> cases below <;> simp <;> omega

theorem mirrored_mem_points (center : Point) (left below : Bool) {o : Point}
    (h : o ∈ quadrant rx.natAbs ry.natAbs) :
    mirrored center left below o ∈ points center rx ry :=
  ⟨o, h, mem_reflections_iff.mpr ⟨left, below, rfl⟩⟩

-- One quadrant above the centre leads from the top to a side, and one below it from there on.
theorem joined_top (h : p ∈ points center rx ry) :
    Point.Joined (points center rx ry) ⟨center.x, center.y - ry.natAbs⟩ p := by
  have ⟨o, ho, hp⟩ := h
  obtain ⟨left, below, rfl⟩ := mem_reflections_iff.mp hp
  have hs := staircase_quadrant rx.natAbs ry.natAbs
  have joined (below : Bool) := hs.joined (fun _ _ => touches_mirrored center left below)
    (fun _ => mirrored_mem_points center left below)
  have side := List.mem_of_getLast? hs.getLast?_eq
  have ht : mirrored center left false ⟨0, -ry.natAbs⟩ = ⟨center.x, center.y - ry.natAbs⟩ := by
    cases left <;> simp [mirrored, Int.sub_eq_add_neg]
  have hm : mirrored center left false ⟨rx.natAbs, 0⟩ = mirrored center left true ⟨rx.natAbs, 0⟩ := by
    simp [mirrored]
  rw [← ht]
  cases below with
  | false => exact joined false o ho
  | true  =>
    exact ((joined false _ side).trans (hm ▸ (joined true _ side).symm)).trans (joined true o ho)

theorem eightConnected_points (center : Point) (rx ry : Int) :
    Point.EightConnected (points center rx ry) :=
  fun _ hp _ hq => (joined_top hp).symm.trans (joined_top hq)

-- What a quadrant without width or without height has: all there is between its ends.
theorem mem_quadrant_zero_left {ry : Nat} :
    p ∈ quadrant (0 : Nat) ry ↔ p.x = 0 ∧ -ry ≤ p.y ∧ p.y ≤ 0 := by
  have hs := staircase_quadrant 0 ry
  constructor
  · intro hp
    have ⟨hx, hy⟩ := hs.start_le p hp
    have ⟨hx', hy'⟩ := hs.le_stop p hp
    exact ⟨Int.le_antisymm hx' hx, hy, hy'⟩
  · rintro ⟨hx, hy⟩
    have ⟨o, ho, he⟩ := hs.exists_mem_row hy
    have := (hs.start_le o ho).left
    have := (hs.le_stop o ho).left
    have hp : p = o := congrArg₂ Point.mk (by dsimp only at *; omega) he.symm
    exact hp ▸ ho

theorem mem_quadrant_zero_right {rx : Nat} :
    p ∈ quadrant rx (0 : Nat) ↔ p.y = 0 ∧ 0 ≤ p.x ∧ p.x ≤ rx := by
  have hs := staircase_quadrant rx 0
  constructor
  · intro hp
    have ⟨hx, hy⟩ := hs.start_le p hp
    have ⟨hx', hy'⟩ := hs.le_stop p hp
    exact ⟨Int.le_antisymm hy' hy, hx, hx'⟩
  · rintro ⟨hy, hx⟩
    have hm := hs.mem_first_row (List.mem_of_getLast? hs.getLast?_eq) rfl hx
    have hp : p = ⟨p.x, -(0 : Nat)⟩ := congrArg (Point.mk p.x) hy
    exact hp ▸ hm

theorem points_neg_left (center : Point) (rx ry : Int) :
    points center (-rx) ry = points center rx ry := by
  rw [points, points, Int.natAbs_neg]

theorem points_neg_right (center : Point) (rx ry : Int) :
    points center rx (-ry) = points center rx ry := by
  rw [points, points, Int.natAbs_neg ry]

-- What is as far from either axis is on the outline as well.
theorem mem_points_congr {q : Point} (hx : (p.x - center.x).natAbs = (q.x - center.x).natAbs)
    (hy : (p.y - center.y).natAbs = (q.y - center.y).natAbs) :
    p ∈ points center rx ry ↔ q ∈ points center rx ry := by
  rw [mem_points_iff, mem_points_iff, folded, folded, hx, hy]

theorem bounds_of_mem_points (h : p ∈ points center rx ry) :
    (p.x - center.x).natAbs ≤ rx.natAbs ∧ (p.y - center.y).natAbs ≤ ry.natAbs := by
  rw [mem_points_iff] at h
  have hs := staircase_quadrant rx.natAbs ry.natAbs
  have := (hs.start_le _ h).right
  have := (hs.le_stop _ h).left
  simp only [folded] at *
  omega

theorem side_mem_points (hx : (p.x - center.x).natAbs = rx.natAbs) (hy : p.y = center.y) :
    p ∈ points center rx ry := by
  have hf : folded center p = ⟨rx.natAbs, 0⟩ := by
    simp only [folded, hx, hy, Int.sub_self, Int.natAbs_zero, Nat.cast_zero, Int.neg_zero]
  rw [mem_points_iff, hf]
  exact List.mem_of_getLast? (staircase_quadrant _ _).getLast?_eq

theorem top_mem_points (hx : p.x = center.x) (hy : (p.y - center.y).natAbs = ry.natAbs) :
    p ∈ points center rx ry := by
  have hf : folded center p = ⟨0, -ry.natAbs⟩ := by
    simp only [folded, hx, hy, Int.sub_self, Int.natAbs_zero, Nat.cast_zero]
  rw [mem_points_iff, hf]
  exact (staircase_quadrant _ _).start_mem

theorem points_zero_left (center : Point) (ry : Int) : points center 0 ry =
    { p | p.x = center.x ∧ center.y - ry.natAbs ≤ p.y ∧ p.y ≤ center.y + ry.natAbs } := by
  ext p
  rw [mem_points_iff, Int.natAbs_zero, mem_quadrant_zero_left]
  simp only [folded, Set.mem_ofPred_eq]
  omega

theorem points_zero_right (center : Point) (rx : Int) : points center rx 0 =
    { p | p.y = center.y ∧ center.x - rx.natAbs ≤ p.x ∧ p.x ≤ center.x + rx.natAbs } := by
  ext p
  rw [mem_points_iff, Int.natAbs_zero, mem_quadrant_zero_right]
  simp only [folded, Set.mem_ofPred_eq]
  omega

-- Drawing an ellipse colours its outline: the same for negative radii, alike on both sides of both
-- axes, in one piece, and as wide and as high as the radii say.
theorem draws_outline (center : Point) (rx ry : Int) :
    let outline := points center rx ry
    (∀ {s : Size} (c : Canvas s) (ink : Ink),
      Canvas.Painted ink.line outline c (c.draw ink (.ellipse center rx ry))) ∧
    (points center (-rx) ry = outline ∧ points center rx (-ry) = outline) ∧
    (∀ x y : Int,
      (⟨center.x - x, center.y + y⟩ ∈ outline ↔ ⟨center.x + x, center.y + y⟩ ∈ outline) ∧
      (⟨center.x + x, center.y - y⟩ ∈ outline ↔ ⟨center.x + x, center.y + y⟩ ∈ outline)) ∧
    Point.EightConnected outline ∧
    (∀ p ∈ outline, (center.x - |rx| ≤ p.x ∧ p.x ≤ center.x + |rx|) ∧
      center.y - |ry| ≤ p.y ∧ p.y ≤ center.y + |ry|) ∧
    (⟨center.x - |rx|, center.y⟩ ∈ outline ∧ ⟨center.x + |rx|, center.y⟩ ∈ outline ∧
      ⟨center.x, center.y - |ry|⟩ ∈ outline ∧ ⟨center.x, center.y + |ry|⟩ ∈ outline) ∧
    (rx = 0 → outline =
      { p | p.x = center.x ∧ center.y - |ry| ≤ p.y ∧ p.y ≤ center.y + |ry| }) ∧
    (ry = 0 → outline =
      { p | p.y = center.y ∧ center.x - |rx| ≤ p.x ∧ p.x ≤ center.x + |rx| }) := by
  intro outline
  simp only [Int.abs_eq_natAbs]
  refine ⟨fun c ink => Canvas.painted_ellipse c ink.line center rx ry,
    ⟨points_neg_left center rx ry, points_neg_right center rx ry⟩, fun x y => ⟨?_, ?_⟩,
    eightConnected_points center rx ry, fun p hp => ?_, ⟨?_, ?_, ?_, ?_⟩, ?_, ?_⟩
  · exact mem_points_congr (by dsimp only; omega) rfl
  · exact mem_points_congr rfl (by dsimp only; omega)
  · have ⟨hx, hy⟩ := bounds_of_mem_points hp
    omega
  · exact side_mem_points (by dsimp only; omega) rfl
  · exact side_mem_points (by dsimp only; omega) rfl
  · exact top_mem_points rfl (by dsimp only; omega)
  · exact top_mem_points rfl (by dsimp only; omega)
  · rintro rfl
    exact points_zero_left center ry
  · rintro rfl
    exact points_zero_right center rx

theorem natAbs_of_mem_reflections {o : Point} (h : p ∈ reflections center o) :
    (p.x - center.x).natAbs = o.x.natAbs ∧ (p.y - center.y).natAbs = o.y.natAbs := by
  obtain ⟨left, below, rfl⟩ := mem_reflections_iff.mp h
  cases left <;> cases below <;> simp only [mirrored, if_true, Bool.false_eq_true, if_false] <;> omega

end Ellipse

namespace Circle

open Ellipse

theorem swap_mem_points_iff (center : Point) (radius x y : Int) :
    ⟨center.x + y, center.y + x⟩ ∈ points center radius radius ↔
      ⟨center.x + x, center.y + y⟩ ∈ points center radius radius := by
  have hs := swap_mem_quadrant_iff radius.natAbs x.natAbs (-y.natAbs)
  simpa [mem_points_iff, folded] using hs

-- A circle is the same when its axes are exchanged, and so it is drawn alike in all eight
-- directions from its centre.
theorem quadrant_symmetric :
    (∀ (r : Nat) (x y : Int), ⟨x, y⟩ ∈ quadrant r r ↔ ⟨-y, -x⟩ ∈ quadrant r r) ∧
    ∀ (center : Point) (radius : Int),
      let outline := (Shape.circle center radius).points
      (∀ {s : Size} (c : Canvas s) (ink : Ink),
        Canvas.Painted ink.line outline c (c.draw ink (.circle center radius))) ∧
      ∀ x y : Int, ∀ p ∈ reflections center ⟨x, y⟩ ++ reflections center ⟨y, x⟩,
        p ∈ outline ↔ ⟨center.x + x, center.y + y⟩ ∈ outline := by
  refine ⟨fun r x y => (swap_mem_quadrant_iff r x y).symm, fun center radius => ?_⟩
  refine ⟨fun c ink => Canvas.painted_ellipse c ink.line center radius radius, fun x y p hp => ?_⟩
  rcases List.mem_append.mp hp with hp | hp
  · have ⟨hx, hy⟩ := natAbs_of_mem_reflections hp
    exact mem_points_congr (by dsimp only at *; omega) (by dsimp only at *; omega)
  · have ⟨hx, hy⟩ := natAbs_of_mem_reflections hp
    refine .trans ?_ (swap_mem_points_iff center radius x y)
    exact mem_points_congr (by dsimp only at *; omega) (by dsimp only at *; omega)

end Circle

end PenStream
