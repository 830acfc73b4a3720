import PenStream.Proofs.Component
import PenStream.Proofs.Drawing.Painted
import PenStream.Proofs.Geometry.Staircase

namespace PenStream

theorem Point.mem_neighbours_comm {p q : Point} : q ∈ p.neighbours ↔ p ∈ q.neighbours := by
  obtain ⟨px, py⟩ := p
  obtain ⟨qx, qy⟩ := q
  simp only [neighbours, List.mem_cons, List.not_mem_nil, or_false, Point.mk.injEq]
  omega

namespace Box

-- Strictly inside all four sides.
def Encloses (b : Box) (p : Point) : Prop :=
  (b.left < p.x ∧ p.x < b.right) ∧ b.top < p.y ∧ p.y < b.bottom

theorem Encloses.of_neighbour {b : Box} {p q : Point} (h : b.Encloses p) (hq : q ∉ b.border)
    (hn : q ∈ p.neighbours) : b.Encloses q := by
  obtain ⟨qx, qy⟩ := q
  simp only [Point.neighbours, List.mem_cons, List.not_mem_nil, or_false, Point.mk.injEq] at hn
  simp only [border, contains_iff, Set.mem_ofPred_eq] at hq
  simp only [Encloses] at h ⊢
  omega

end Box

namespace Ellipse

variable {center p q : Point} {rx ry : Int}

-- In a row that the ellipse has, nearer to the vertical axis than some point of its outline.
def Encloses (center : Point) (rx ry : Int) (p : Point) : Prop :=
  (p.y - center.y).natAbs ≤ ry.natAbs ∧
    ∃ o ∈ quadrant rx.natAbs ry.natAbs,
      o.y.natAbs = (p.y - center.y).natAbs ∧ (p.x - center.x).natAbs < o.x

-- The offset from the centre, reflected into the quadrant that is walked.
def folded (center p : Point) : Point :=
  ⟨(p.x - center.x).natAbs, -(p.y - center.y).natAbs⟩

theorem mem_points_iff :
    p ∈ points center rx ry ↔ folded center p ∈ quadrant rx.natAbs ry.natAbs := by
  have hs := staircase_quadrant rx.natAbs ry.natAbs
  have hr (o : Point) (ho : o ∈ quadrant rx.natAbs ry.natAbs) :
      p ∈ reflections center o ↔ o = folded center p := by
    have hx := (hs.start_le o ho).left
    have hy := (hs.le_stop o ho).right
    obtain ⟨ox, oy⟩ := o
    obtain ⟨px, py⟩ := p
    simp only [reflections, folded, List.mem_cons, List.not_mem_nil, or_false, Point.mk.injEq]
    simp only at hx hy
    omega
  constructor
  · rintro ⟨o, ho, hp⟩
    exact (hr o ho).mp hp ▸ ho
  · exact fun ho => ⟨_, ho, (hr _ ho).mpr rfl⟩

theorem encloses_iff : Encloses center rx ry p ↔
    Staircase.Shields (quadrant rx.natAbs ry.natAbs) (folded center p) := by
  have hs := staircase_quadrant rx.natAbs ry.natAbs
  constructor
  · rintro ⟨_, o, ho, hy, hx⟩
    have := (hs.le_stop o ho).right
    exact ⟨o, ho, by simp only [folded] at *; omega, hx⟩
  · rintro ⟨o, ho, hy, hx⟩
    have := (hs.start_le o ho).right
    simp only [folded] at *
    exact ⟨by omega, o, ho, by omega, hx⟩

theorem Encloses.of_neighbour (h : Encloses center rx ry p) (hp : p ∉ points center rx ry)
    (hq : q ∉ points center rx ry) (hn : q ∈ p.neighbours) : Encloses center rx ry q := by
  rw [mem_points_iff] at hp hq
  rw [encloses_iff] at h ⊢
  refine (staircase_quadrant rx.natAbs ry.natAbs).shields_of_near hp hq ?_ ?_ ?_ ?_ h
  · simp only [folded]; omega
  · simp only [folded]; omega
  · simp only [folded]; omega
  · obtain ⟨qx, qy⟩ := q
    simp only [Point.neighbours, List.mem_cons, List.not_mem_nil, or_false, Point.mk.injEq] at hn
    simp only [folded]
    omega

end Ellipse

namespace Shape

variable {shape : Shape} {p q : Point}

-- Only boxes and ellipses have an inside.
def Encloses : Shape → Point → Prop
  | rectangle p q, r   => (Box.ofCorners p q).Encloses r
  | ellipse p rx ry, r => Ellipse.Encloses p rx ry r
  | _, _               => False

theorem Encloses.of_neighbour (h : shape.Encloses p) (hp : p ∉ shape.points)
    (hq : q ∉ shape.points) (hn : q ∈ p.neighbours) : shape.Encloses q := by
  cases shape
  case rectangle a b       => exact Box.Encloses.of_neighbour h hq hn
  case ellipse center rx ry => exact Ellipse.Encloses.of_neighbour h hp hq hn
  all_goals exact h.elim

-- There is no way from one side of an outline to the other that does not cross it.
theorem encloses_iff_of_neighbour (hp : p ∉ shape.points) (hq : q ∉ shape.points)
    (hn : q ∈ p.neighbours) : shape.Encloses p ↔ shape.Encloses q :=
  ⟨fun h => h.of_neighbour hp hq hn,
    fun h => h.of_neighbour hq hp (Point.mem_neighbours_comm.mp hn)⟩

end Shape

end PenStream
