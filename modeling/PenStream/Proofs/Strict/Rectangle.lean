import PenStream.Proofs.Drawing.Painted
import PenStream.Proofs.Geometry.Across
import PenStream.Proofs.Strict.Execute

namespace PenStream

theorem Line.exact_of_near {start stop : Point} (hs : start.Near) (ht : stop.Near) :
    Exact start stop := by
  have bounds {p : Point} (hp : p.Near) :
      -0x800000 ≤ across start stop p ∧ across start stop p < 0x800000 := by
    have ⟨_, _⟩ := abs_lt.mp hp.left
    have ⟨_, _⟩ := abs_lt.mp hp.right
    unfold across
    split <;> omega
  exact List.forall_mem_cons.mpr ⟨bounds hs, List.forall_mem_singleton.mpr (bounds ht)⟩

namespace Box

-- The corners of a box one after another, from one that is given to the opposite and back.
def circuit (p q : Point) : List Point :=
  [p, ⟨q.x, p.y⟩, q, ⟨p.x, q.y⟩, p]

variable {p q : Point}

theorem near_of_mem_circuit (hp : p.Near) (hq : q.Near) : ∀ r ∈ circuit p q, r.Near := by
  simp only [circuit, List.forall_mem_cons]
  exact ⟨hp, ⟨hq.left, hp.right⟩, hq, ⟨hp.left, hq.right⟩, hp, nofun⟩

theorem chain_circuit (hp : p.Near) (hq : q.Near) :
    Line.chain (circuit p q) = (ofCorners p q).border := by
  have side {a b : Point} (ha : a ∈ circuit p q) (hb : b ∈ circuit p q)
      (hx : a.x = b.x ∨ a.y = b.y) (r : Point) :
      r ∈ Line.pixels a b ↔ (ofCorners a b).contains r :=
    have near := near_of_mem_circuit hp hq
    Line.mem_pixels_iff_of_axial (Line.exact_of_near (near a ha) (near b hb)) hx
  ext r
  simp only [circuit] at side
  simp only [circuit, Line.chain, Set.mem_union, Set.mem_ofPred_eq, Set.mem_empty_iff_false,
    or_false]
  rw [side (by simp) (by simp) (by simp), side (by simp) (by simp) (by simp),
    side (by simp) (by simp) (by simp), side (by simp) (by simp) (by simp)]
  simp only [border, contains_iff, ofCorners, normalize, Set.mem_ofPred_eq]
  grind

end Box

namespace Strict

variable {s : Size}

-- Drawn either way, without a fault, a rectangle gives its border the colour for lines and leaves
-- the rest as it was.
theorem rectangle_as_polyline (c : Canvas s) (ink : Ink) {p q : Point} (hp : p.Near) (hq : q.Near) :
    let border := (Box.ofCorners p q).border
    ∃ d : Canvas s,
      draw c ink (.rectangle p q) = pure d ∧ c.draw ink (.rectangle p q) = d ∧
      draw c ink (.polyline (Box.circuit p q)) = pure d ∧
      c.draw ink (.polyline (Box.circuit p q)) = d ∧
      ∀ r : Cell s, (r.point ∈ border → d.get r = ink.line) ∧
        (r.point ∉ border → d.get r = c.get r) := by
  intro border
  have hr : Canvas.Painted ink.line border c (c.draw ink (.rectangle p q)) :=
    Canvas.painted_outline c ink.line (Box.isValid_normalize _)
  have hl : Canvas.Painted ink.line border c (c.draw ink (.polyline (Box.circuit p q))) :=
    (Canvas.painted_polyline c ink.line _).congr (Box.chain_circuit hp hq)
  refine ⟨_, outline_eq .., rfl, ?_, hl.unique hr, fun r => ⟨hr.inside r, hr.outside r⟩⟩
  have hd : c.outline ink.line (.ofCorners p q) = c.polyline ink.line (Box.circuit p q) :=
    hr.unique hl
  rw [hd]
  exact polyline_eq c ink.line (Box.near_of_mem_circuit hp hq)

-- Of a rectangle as large as may be, the canvas has the right end of the upper side.
theorem rectangle_as_polyline_clipped :
    let size : Size := ⟨3, 2, by decide, by decide, by decide, by decide⟩
    let ink : Ink := { line := ⟨85, 85, 255, 255⟩ }
    let p : Point := ⟨2, 4194303⟩
    let q : Point := ⟨-4194303, 1⟩
    let blank : Canvas size := .uniform size .clear
    let d := blank.draw ink (.polyline (Box.circuit p q))
    p.Near ∧ q.Near ∧ draw blank ink (.polyline (Box.circuit p q)) = pure d ∧
      blank.draw ink (.rectangle p q) = d ∧
      ∀ r : Cell size, d.get r = if r.y.val = 1 then ink.line else .clear := by
  intro size ink p q blank d
  have hp : p.Near := by decide
  have hq : q.Near := by decide
  obtain ⟨_, -, hr, hl, rfl, hg⟩ := rectangle_as_polyline blank ink hp hq
  refine ⟨hp, hq, hl, hr, fun r => ?_⟩
  have hx : r.x.val < 3 := r.x.isLt
  have hy : r.y.val < 2 := r.y.isLt
  have hm : r.point ∈ (Box.ofCorners p q).border ↔ r.y.val = 1 := by
    simp only [Box.border, Box.contains_iff, Box.ofCorners, Box.normalize, Set.mem_ofPred_eq,
      Cell.point, p, q]
    omega
  split
  case isTrue h  => exact (hg r).left (hm.mpr h)
  case isFalse h => rw [(hg r).right (mt hm.mp h), Canvas.get_uniform]

end Strict

end PenStream
