import Mathlib.Data.Set.Insert
import PenStream.Drawing.Execute

namespace PenStream

-- The points of a box that are on one of its sides.
def Box.border (b : Box) : Set Point :=
  { p | b.contains p ∧ (p.x = b.left ∨ p.x = b.right ∨ p.y = b.top ∨ p.y = b.bottom) }

-- The points of an ellipse, all around its centre.
def Ellipse.points (center : Point) (rx ry : Int) : Set Point :=
  { p | ∃ o ∈ quadrant rx.natAbs ry.natAbs, p ∈ reflections center o }

namespace Line

def chain : List Point → Set Point
  | p :: q :: rest => { r | r ∈ pixels p q } ∪ chain (q :: rest)
  | _              => ∅

end Line

namespace Shape

def points : Shape → Set Point
  | pixel p         => {p}
  | rectangle p q   => (Box.ofCorners p q).border
  | bar p q         => { r | (Box.ofCorners p q).contains r }
  | line p q        => { r | r ∈ Line.pixels p q }
  | ellipse p rx ry => Ellipse.points p rx ry
  | polyline ps     => Line.chain ps

end Shape

namespace Canvas

variable {s : Size} {color : Color} {area area' : Set Point} {c d e : Canvas s}

-- The one canvas with an area in one colour is the other.
structure Painted (color : Color) (area : Set Point) (c d : Canvas s) : Prop where
  inside : ∀ p : Cell s, p.point ∈ area → d.get p = color
  outside : ∀ p : Cell s, p.point ∉ area → d.get p = c.get p

namespace Painted

theorem of_get {within : Cell s → Prop} [DecidablePred within]
    (h : ∀ p, d.get p = if within p then color else c.get p)
    (hw : ∀ p, within p ↔ p.point ∈ area) : Painted color area c d where
  inside p hp := by rw [h, if_pos ((hw p).mpr hp)]
  outside p hp := by rw [h, if_neg fun hi => hp ((hw p).mp hi)]

theorem of_disjoint (h : ∀ p : Cell s, p.point ∉ area) : Painted color area c c where
  inside p hp := absurd hp (h p)
  outside _ _ := rfl

theorem empty : Painted color ∅ c c :=
  of_disjoint fun _ => Set.notMem_empty _

theorem union (h : Painted color area c d) (h' : Painted color area' d e) :
    Painted color (area ∪ area') c e where
  inside p hp := by
    by_cases hp' : p.point ∈ area'
    case pos => exact h'.inside p hp'
    case neg => rw [h'.outside p hp', h.inside p (hp.resolve_right hp')]
  outside p hp := by
    have ⟨ha, ha'⟩ := not_or.mp hp
    rw [h'.outside p ha', h.outside p ha]

theorem congr (h : Painted color area c d) (ha : area = area') : Painted color area' c d :=
  ha ▸ h

theorem unique (h : Painted color area c d) (h' : Painted color area c e) : d = e := by
  refine ext_get fun p => ?_
  by_cases hp : p.point ∈ area
  case pos => rw [h.inside p hp, h'.inside p hp]
  case neg => rw [h.outside p hp, h'.outside p hp]

end Painted

theorem painted_plot (c : Canvas s) (color : Color) (p : Point) :
    Painted color {p} c (c.plot color p) :=
  .of_get (get_plot c color p) fun _ => eq_comm

theorem painted_plotAll (c : Canvas s) (color : Color) (points : List Point) :
    Painted color { p | p ∈ points } c (c.plotAll color points) := by
  induction points generalizing c with
  | nil           => exact Painted.empty.congr (by simp)
  | cons p ps hi =>
    refine ((painted_plot c color p).union (hi _)).congr ?_
    ext q
    simp

theorem painted_line (c : Canvas s) (color : Color) (start stop : Point) :
    Painted color { p | p ∈ Line.pixels start stop } c (c.line color start stop) :=
  line_eq_plotAll c color start stop ▸ painted_plotAll c color _

theorem painted_polyline (c : Canvas s) (color : Color) (points : List Point) :
    Painted color (Line.chain points) c (c.polyline color points) := by
  induction points generalizing c with
  | nil          => exact .empty
  | cons p ps hi =>
    match ps with
    | []        => exact .empty
    | q :: rest => exact (painted_line c color p q).union (hi _)

theorem painted_foldl (c : Canvas s) (color : Color) (f : Point → List Point)
    (offsets : List Point) :
    Painted color { p | ∃ o ∈ offsets, p ∈ f o } c
      (offsets.foldl (fun c o => c.plotAll color (f o)) c) := by
  induction offsets generalizing c with
  | nil          => exact Painted.empty.congr (by simp)
  | cons o os hi =>
    refine ((painted_plotAll c color (f o)).union (hi _)).congr ?_
    ext p
    simp

theorem painted_ellipse (c : Canvas s) (color : Color) (center : Point) (rx ry : Int) :
    Painted color (Ellipse.points center rx ry) c (c.ellipse color center rx ry) :=
  ellipse_eq_foldl c color center rx ry ▸ painted_foldl c color _ _

theorem painted_hline (c : Canvas s) (color : Color) (x₁ x₂ y : Int) :
    Painted color { p | p.y = y ∧ min x₁ x₂ ≤ p.x ∧ p.x ≤ max x₁ x₂ } c
      (c.hline color x₁ x₂ y) := by
  unfold hline
  dsimp only
  split
  case isTrue h =>
    refine .of_get (fun _ => get_paintRow ..) fun p => ?_
    have := p.x.isLt
    simp only [Fin.ext_iff, Cell.point, Set.mem_ofPred_eq]
    omega
  case isFalse h =>
    refine .of_disjoint fun p hp => h ?_
    have := p.x.isLt
    have := p.y.isLt
    simp only [Cell.point, Set.mem_ofPred_eq] at hp
    omega

theorem painted_vline (c : Canvas s) (color : Color) (x y₁ y₂ : Int) :
    Painted color { p | p.x = x ∧ min y₁ y₂ ≤ p.y ∧ p.y ≤ max y₁ y₂ } c
      (c.vline color x y₁ y₂) := by
  unfold vline
  dsimp only
  split
  case isTrue h =>
    refine .of_get (fun _ => get_paintColumn ..) fun p => ?_
    have := p.y.isLt
    simp only [Fin.ext_iff, Cell.point, Set.mem_ofPred_eq]
    omega
  case isFalse h =>
    refine .of_disjoint fun p hp => h ?_
    have := p.x.isLt
    have := p.y.isLt
    simp only [Cell.point, Set.mem_ofPred_eq] at hp
    omega

theorem painted_outline (c : Canvas s) (color : Color) {b : Box} (hb : b.isValid) :
    Painted color b.border c (c.outline color b) := by
  have ⟨hx, hy⟩ := Box.isValid_iff.mp hb
  refine ((((painted_hline ..).union (painted_hline ..)).union (painted_vline ..)).union
    (painted_vline ..)).congr ?_
  ext p
  simp only [Box.border, Box.contains_iff, Set.mem_union, Set.mem_ofPred_eq]
  omega

theorem painted_bar (c : Canvas s) (color : Color) (p q : Point) :
    Painted color { r | (Box.ofCorners p q).contains r } c (c.bar color p q) := by
  have bounded (r : Cell s) : s.bounds.contains r.point := by
    have := r.x.isLt
    have := r.y.isLt
    simp only [Box.contains_iff, Size.bounds, Cell.point]
    omega
  have clipped (r : Cell s) : ((Box.ofCorners p q).clip s.bounds).contains r.point ↔
      (Box.ofCorners p q).contains r.point := by
    rw [Box.contains_clip, and_iff_left (bounded r)]
  unfold bar
  dsimp only
  split
  case isTrue h =>
    refine .of_get (fun _ => get_paintBlock ..) fun r => ?_
    obtain ⟨_, _, _⟩ := clip_columns h
    obtain ⟨_, _, _⟩ := clip_rows h
    rw [Set.mem_ofPred_eq, ← clipped, Box.contains_iff]
    simp only [Cell.point]
    omega
  case isFalse h =>
    refine .of_disjoint fun r hr => h ?_
    rw [Set.mem_ofPred_eq, ← clipped, Box.contains_iff] at hr
    exact Box.isValid_iff.mpr (by omega)

theorem painted_draw (c : Canvas s) (color : Color) (shape : Shape) :
    Painted color shape.points c (c.draw { line := color, fill := color } shape) := by
  cases shape
  case pixel p           => exact painted_plot c color p
  case rectangle p q     => exact painted_outline c color (Box.isValid_normalize _)
  case bar p q           => exact painted_bar c color p q
  case line p q          => exact painted_line c color p q
  case ellipse p rx ry   => exact painted_ellipse c color p rx ry
  case polyline ps       => exact painted_polyline c color ps

end Canvas

-- The shape that a command draws, with its colour; the others draw none.
def Command.shape? : Command → Option (Shape × ColorIndex)
  | line p q color                => some (.line p q, color)
  | lineTo p q color              => some (.line p q, color)
  | rectangle p q color           => some (.rectangle p q, color)
  | bar p q color                 => some (.bar p q, color)
  | circle center r color         => some (.circle center r, color)
  | ellipse center _ _ rx ry color => some (.ellipse center rx ry, color)
  | pixel p color                 => some (.pixel p, color)
  | polyline ps color             => some (.polyline ps, color)
  | _                             => none

theorem Canvas.painted_execute {s : Size} (c : Canvas s) (rule : FloodFill) {command : Command}
    {shape : Shape} {color : ColorIndex} (h : command.shape? = some (shape, color)) :
    Painted (Palette.color color) shape.points c (c.execute rule command).1 := by
  have hd := painted_draw c (Palette.color color) shape
  cases command <;> cases h <;> exact hd

end PenStream
