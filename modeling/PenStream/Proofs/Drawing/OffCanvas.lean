import PenStream.Proofs.Drawing.Painted
import PenStream.Proofs.Geometry.Across

namespace PenStream

variable {s : Size}

theorem Canvas.Painted.eq_of_disjoint {color : Color} {area : Set Point} {c d : Canvas s}
    (h : Painted color area c d) (hn : ∀ p : Cell s, p.point ∉ area) : d = c :=
  h.unique (.of_disjoint hn)

-- A box that is clipped to nothing holds no cell.
theorem Box.not_contains_of_clip {b : Box} (h : ¬(b.clip s.bounds).isValid) (p : Cell s) :
    ¬b.contains p.point := by
  have := p.x.isLt
  have := p.y.isLt
  simp only [isValid_iff, clip, Size.bounds, contains_iff, Cell.point] at h ⊢
  omega

namespace Line

-- Nothing is drawn unless the box between the points for which the ends are taken meets the canvas.
theorem execute_off_wrapped (c : Canvas s) (rule : FloodFill) {command : Command}
    {start stop : Point} {color : ColorIndex}
    (hd : command.shape? = some (.line start stop, color))
    (ho : ∀ p : Cell s,
      ¬(Box.ofCorners (wrapped start stop start) (wrapped start stop stop)).contains p.point) :
    (c.execute rule command).1 = c :=
  (Canvas.painted_execute c rule hd).eq_of_disjoint fun p hp => ho p (contains_of_mem_pixels hp)

-- If the box between the ends of a line does not meet the canvas, drawing the line changes nothing.
theorem execute_off_canvas (c : Canvas s) (rule : FloodFill) {start stop : Point}
    (he : Exact start stop) (ho : ∀ p : Cell s, ¬(Box.ofCorners start stop).contains p.point)
    (color : ColorIndex) :
    (c.execute rule (.line start stop color)).1 = c ∧
      (c.execute rule (.lineTo start stop color)).1 = c := by
  have ho : ∀ p : Cell s,
      ¬(Box.ofCorners (wrapped start stop start) (wrapped start stop stop)).contains p.point := by
    rwa [he.wrapped_eq (by simp), he.wrapped_eq (by simp)]
  exact ⟨execute_off_wrapped c rule rfl ho, execute_off_wrapped c rule rfl ho⟩

-- A steep line to the left of the canvas, from far above it to far below.
theorem execute_off_canvas_left :
    let size : Size := ⟨3, 2, by decide, by decide, by decide, by decide⟩
    let start : Point := ⟨-8388608, -900000000⟩
    let stop : Point := ⟨-1, 900000000⟩
    Exact start stop ∧ (∀ p : Cell size, ¬(Box.ofCorners start stop).contains p.point) ∧
      ((Canvas.uniform size .clear).execute {} (.line start stop 15)).1 = .uniform size .clear := by
  intro size start stop
  have he : Exact start stop := by decide
  have ho : ∀ p : Cell size, ¬(Box.ofCorners start stop).contains p.point :=
    Box.not_contains_of_clip (by decide)
  exact ⟨he, ho, (execute_off_canvas (.uniform size .clear) {} he ho 15).left⟩

-- Two pixels far below the canvas, next to each other, are drawn on its first row, although nothing
-- overflows in their distance; a rectangle there is not drawn.
theorem not_execute_off_canvas :
    let size : Size := ⟨2, 2, by decide, by decide, by decide, by decide⟩
    let start : Point := ⟨0, 0x1000000⟩
    let stop : Point := ⟨1, 0x1000000⟩
    let blank : Canvas size := .uniform size .clear
    (∀ p : Cell size, ¬(Box.ofCorners start stop).contains p.point) ∧
    (stop.x - start.x = 1 ∧ stop.y - start.y = 0) ∧
    Subpixel.middle stop.y - Subpixel.middle start.y = 0 ∧
    (blank.execute {} (.line start stop 15)).1 ≠ blank ∧
    (blank.execute {} (.lineTo start stop 15)).1 ≠ blank ∧
    (blank.execute {} (.rectangle start stop 15)).1 = blank := by
  intro size start stop blank
  let corner : Cell size := ⟨⟨0, by decide⟩, ⟨0, by decide⟩⟩
  have ho : ∀ p : Cell size, ¬(Box.ofCorners start stop).contains p.point :=
    Box.not_contains_of_clip (by decide)
  have hl : (blank.execute {} (.line start stop 15)).1.get corner ≠ blank.get corner := by
    decide +kernel
  have hl' : (blank.execute {} (.lineTo start stop 15)).1.get corner ≠ blank.get corner := by
    decide +kernel
  refine ⟨ho, by decide, by decide, fun h => hl (congrArg (Canvas.get · corner) h),
    fun h => hl' (congrArg (Canvas.get · corner) h), ?_⟩
  have hr : Canvas.Painted _ (Shape.rectangle start stop).points blank
      (blank.execute {} (.rectangle start stop 15)).1 :=
    Canvas.painted_execute blank {} rfl
  exact hr.eq_of_disjoint fun p hp => ho p hp.left

end Line

end PenStream
