import Mathlib.Data.Int.Range
import PenStream.Proofs.Drawing.Painted
import PenStream.Proofs.Strict.Ellipse

namespace PenStream

namespace Box

-- The points of a box, row by row.
def places (b : Box) : List Point :=
  (Int.range b.top (b.bottom + 1)).flatMap fun y =>
    (Int.range b.left (b.right + 1)).map fun x => ⟨x, y⟩

theorem mem_places_iff {b : Box} {p : Point} : p ∈ b.places ↔ b.contains p := by
  obtain ⟨px, py⟩ := p
  simp only [places, List.mem_flatMap, List.mem_map, Int.mem_range_iff, Point.mk.injEq,
    contains_iff]
  constructor
  · rintro ⟨y, hy, x, hx, rfl, rfl⟩
    omega
  · rintro ⟨hl, hr, ht, hb⟩
    exact ⟨py, by omega, px, by omega, rfl, rfl⟩

end Box

namespace Canvas

variable {s : Size}

theorem painted_places (c : Canvas s) (color : Color) (b : Box) :
    Painted color { p | b.contains p } c (c.plotAll color b.places) :=
  (painted_plotAll c color b.places).congr (Set.ext fun _ => Box.mem_places_iff)

theorem hline_eq_plotAll (c : Canvas s) (color : Color) (x₁ x₂ y : Int) :
    c.hline color x₁ x₂ y = c.plotAll color (Box.ofCorners ⟨x₁, y⟩ ⟨x₂, y⟩).places := by
  refine ((painted_hline c color x₁ x₂ y).congr ?_).unique (painted_places ..)
  ext p
  simp only [Set.mem_ofPred_eq, Box.contains_iff, Box.ofCorners, Box.normalize]
  omega

theorem vline_eq_plotAll (c : Canvas s) (color : Color) (x y₁ y₂ : Int) :
    c.vline color x y₁ y₂ = c.plotAll color (Box.ofCorners ⟨x, y₁⟩ ⟨x, y₂⟩).places := by
  refine ((painted_vline c color x y₁ y₂).congr ?_).unique (painted_places ..)
  ext p
  simp only [Set.mem_ofPred_eq, Box.contains_iff, Box.ofCorners, Box.normalize]
  omega

theorem bar_eq_plotAll (c : Canvas s) (color : Color) (p q : Point) :
    c.bar color p q = c.plotAll color (Box.ofCorners p q).places :=
  (painted_bar c color p q).unique (painted_places ..)

end Canvas

namespace Strict

variable {s : Size} {c d : Canvas s} {color : Color} {b : Box} {checked : Checked (Canvas s)}

-- A way to colour a box, checked and as it runs, that does what plotting its points does.
structure Colors (c : Canvas s) (color : Color) (b : Box) (checked : Checked (Canvas s))
    (d : Canvas s) : Prop where
  faultless : checked = pure d
  plotted : plotAll color c b.places = pure d
  eq : d = c.plotAll color b.places
  get : ∀ p : Cell s, d.get p = if b.contains p.point then color else c.get p

theorem Colors.of_plotAll (hc : checked = pure d) (hd : d = c.plotAll color b.places) :
    Colors c color b checked d where
  faultless := hc
  plotted := by rw [hd, plotAll_eq]
  eq := hd
  get p := by
    have hp := Canvas.painted_places c color b
    rw [← hd] at hp
    split
    case isTrue h  => exact hp.inside p h
    case isFalse h => exact hp.outside p h

-- Rows, columns and bars colour the boxes between their ends, a clearance all there is.
theorem colors_runs (c : Canvas s) (color : Color) :
    (∀ x₁ y x₂ : Int, Colors c color (.ofCorners ⟨x₁, y⟩ ⟨x₂, y⟩)
      (hline c color x₁ x₂ y) (c.hline color x₁ x₂ y)) ∧
    (∀ x y₁ y₂ : Int, Colors c color (.ofCorners ⟨x, y₁⟩ ⟨x, y₂⟩)
      (vline c color x y₁ y₂) (c.vline color x y₁ y₂)) ∧
    (∀ x₁ y₁ x₂ y₂ : Int, Colors c color (.ofCorners ⟨x₁, y₁⟩ ⟨x₂, y₂⟩)
      (bar c color ⟨x₁, y₁⟩ ⟨x₂, y₂⟩) (c.bar color ⟨x₁, y₁⟩ ⟨x₂, y₂⟩)) ∧
    clear c color = pure (c.clear color) ∧ c.clear color = c.fill color := by
  refine ⟨fun x₁ y x₂ => ?_, fun x y₁ y₂ => ?_, fun x₁ y₁ x₂ y₂ => ?_, clear_eq c color,
    c.clear_eq_fill color⟩
  · exact .of_plotAll (hline_eq ..) (c.hline_eq_plotAll ..)
  · exact .of_plotAll (vline_eq ..) (c.vline_eq_plotAll ..)
  · exact .of_plotAll (bar_eq ..) (c.bar_eq_plotAll ..)

end Strict

end PenStream
