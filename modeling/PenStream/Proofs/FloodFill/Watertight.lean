import PenStream.Proofs.Drawing.Enclosure
import PenStream.Proofs.FloodFill.Sound

namespace PenStream

variable {s : Size}

theorem Cell.Linked.mem {inside : Set (Cell s)} {seed p : Cell s} (l : Linked inside seed p) :
    p ∈ inside := by
  cases l <;> assumption

-- A path that keeps off an outline does not change sides.
theorem Shape.encloses_iff_of_linked {shape : Shape} {inside : Set (Cell s)} {seed p : Cell s}
    (ho : ∀ q ∈ inside, q.point ∉ shape.points) (l : Cell.Linked inside seed p) :
    shape.Encloses p.point ↔ shape.Encloses seed.point := by
  induction l with
  | seed h         => rfl
  | step l a h hi =>
    have hn := Cell.mem_neighbours_iff.mpr a
    exact (encloses_iff_of_neighbour (ho _ l.mem) (ho _ h) hn).symm.trans hi

-- What is like a cell off a shape is off the shape, if the shape has another colour.
theorem Canvas.Painted.off_of_alike {tolerance : UInt8} {color : Color} {area : Set Point}
    {c d : Canvas s} {seed p : Cell s} (h : Painted color area c d) (hs : seed.point ∉ area)
    (hc : ¬color.within tolerance (c.get seed)) (hp : p ∈ d.alike tolerance seed) :
    p.point ∉ area := by
  intro hi
  simp only [alike, Set.mem_ofPred_eq, h.inside p hi, h.outside seed hs] at hp
  exact hc hp

namespace FloodFill

variable (rule : FloodFill) (c : Canvas s) (seed : Cell s) (color : Color)

def area : Set Point :=
  { r | ¬(c.get seed).sameRgb color ∧ ∃ p ∈ (rule.done c seed color).painted, p.point = r }

variable {rule c seed color}

theorem area_of_sameRgb (h : (c.get seed).sameRgb color) : rule.area c seed color = ∅ := by
  simp [area, h]

theorem point_mem_area (h : ¬(c.get seed).sameRgb color) {p : Cell s} :
    p.point ∈ rule.area c seed color ↔ p ∈ (rule.done c seed color).painted := by
  simp [area, h, Cell.point_inj]

theorem fill_of_sameRgb (h : (c.get seed).sameRgb color) :
    rule.fill c seed.point color = (c, {}) := by
  simp [fill, h]

variable (rule c seed color)

theorem painted_fill :
    Canvas.Painted color.solid (rule.area c seed color) c (rule.fill c seed.point color).1 := by
  by_cases h : (c.get seed).sameRgb color
  case pos => rw [area_of_sameRgb h, fill_of_sameRgb h]; exact .empty
  case neg =>
    have hs := rule.sound_done c seed color
    rw [fill_eq_done h]
    exact {
      inside := fun p hp => hs.get_painted p ((point_mem_area h).mp hp)
      outside := fun p hp => hs.get_other p (mt (point_mem_area h).mpr hp) }

theorem written_fill :
    (rule.fill c seed.point color).2.written = (rule.area c seed color).ncard := by
  by_cases h : (c.get seed).sameRgb color
  case pos => rw [area_of_sameRgb h, fill_of_sameRgb h, Set.ncard_empty]
  case neg =>
    have ha : rule.area c seed color = Set.image Cell.point (rule.done c seed color).painted := by
      simp [area, h, Set.image]
    have hi : Function.Injective (Cell.point (s := s)) := fun _ _ => Cell.point_inj.mp
    rw [fill_eq_done h, ha, Set.ncard_image_of_injective _ hi]
    exact (rule.sound_done c seed color).written

variable {rule c seed color} in
-- All that a fill writes is linked with its seed, by cells that are like the seed.
theorem linked_of_mem_area {r : Point} (h : r ∈ rule.area c seed color) :
    ∃ p : Cell s, p.point = r ∧ Cell.Linked (c.alike rule.tolerance seed) seed p := by
  obtain ⟨_, p, hp, rfl⟩ := h
  have hs := rule.sound_done c seed color
  exact ⟨p, rfl, (hs.linked p hp).mono hs.alike⟩

end FloodFill

-- Once a shape has been drawn on a canvas of one colour, in another, a fill that starts off the
-- shape writes on one side of it only: inside if its seed is enclosed, outside if not.
theorem fill_watertight (rule : FloodFill) (ground : Color) {drawing : Command} {shape : Shape}
    {color : ColorIndex} (hs : drawing.shape? = some (shape, color))
    (hc : ¬(Palette.color color).within rule.tolerance ground) (seed : Cell s)
    (ho : seed.point ∉ shape.points) (border ink : ColorIndex) :
    let drawn := ((Canvas.uniform s ground).execute rule drawing).1
    let area := rule.area drawn seed (Palette.color ink)
    ∃ filled tally,
      drawn.execute rule (.floodFill seed.point border ink) = (filled, .filled tally) ∧
      tally.written = area.ncard ∧
      Canvas.Painted (Palette.color ink).solid area drawn filled ∧
      ∀ p ∈ area, shape.Encloses p ↔ shape.Encloses seed.point := by
  intro drawn area
  have hd : Canvas.Painted (Palette.color color) shape.points (.uniform s ground) drawn :=
    Canvas.painted_execute _ rule hs
  refine ⟨_, _, rfl, rule.written_fill .., rule.painted_fill .., fun r hr => ?_⟩
  obtain ⟨p, rfl, hl⟩ := FloodFill.linked_of_mem_area hr
  refine Shape.encloses_iff_of_linked (fun q hq => ?_) hl
  exact hd.off_of_alike ho (by rwa [Canvas.get_uniform]) hq

-- A circle of which the canvas shows the lower right, filled with its own colour from its centre.
theorem fill_watertight_corner :
    let rule : FloodFill := { maxPending := 1 }
    let size : Size := ⟨4, 4, by decide, by decide, by decide, by decide⟩
    let center : Cell size := ⟨⟨0, by decide⟩, ⟨1, by decide⟩⟩
    let drawn := ((Canvas.uniform size .clear).execute rule (.circle center.point 2 4)).1
    (drawn.execute rule (.floodFill center.point 15 4)).2 =
        .filled { written := 6, truncated := true } ∧
      ∀ p ∈ rule.area drawn center (Palette.color 4), Ellipse.Encloses center.point 2 2 p := by
  intro rule size center drawn
  have ho : center.point ∉ (Shape.circle center.point 2).points :=
    mt Ellipse.mem_points_iff.mp (by decide)
  have hi : Ellipse.Encloses center.point 2 2 center.point :=
    ⟨by decide, ⟨2, 0⟩, by decide, by decide, by decide⟩
  have hs : (Command.circle center.point 2 4).shape? = some (.circle center.point 2, 4) := rfl
  have ⟨_, _, _, _, _, h⟩ := fill_watertight rule .clear hs (by decide) center ho 15 4
  exact ⟨by decide +kernel, fun p hp => (h p hp).mpr hi⟩

end PenStream
