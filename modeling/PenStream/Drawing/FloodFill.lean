import PenStream.Canvas.Basic

namespace PenStream

structure FloodFill where
  -- How many places may wait before no more are added.
  maxPending : Nat := 100000
  -- By how much a channel may differ from that of the seed.
  tolerance : UInt8 := 1
deriving DecidableEq, Repr

structure FillTally where
  written : Nat := 0
  -- Whether neighbours were left out for want of room.
  truncated : Bool := false
deriving DecidableEq, Repr

-- The places that wait, the next one first, and how many they are.
structure Pending where
  points : List Point
  size : Nat
  size_eq : size = points.length

namespace Pending

def single (p : Point) : Pending :=
  ⟨[p], 1, rfl⟩

def pushNeighbours (s : Pending) (p : Point) : Pending where
  points := p.neighbours ++ s.points
  size := s.size + 4
  size_eq := by simp [s.size_eq, Nat.add_comm]

def tail (s : Pending) : Pending where
  points := s.points.tail
  size := s.size - 1
  size_eq := by simp [s.size_eq]

end Pending

structure Filling (s : Size) where
  canvas : Canvas s
  visited : Vector Bool s.area
  pending : Pending
  tally : FillTally

namespace Filling

variable {s : Size}

def start (c : Canvas s) (seed : Cell s) : Filling s where
  canvas := c
  visited := .replicate s.area false
  pending := .single seed.point
  tally := {}

-- The fill without the place that comes next.
def pop (f : Filling s) : Filling s :=
  { f with pending := f.pending.tail }

-- The work that is left at most: four places for each cell not visited, and those that wait.
def work (f : Filling s) : Nat :=
  4 * f.visited.count false + f.pending.points.length

-- Whether a cell is still to be coloured, for a seed of the colour `target`.
def accepts (rule : FloodFill) (target : Color) (f : Filling s) (p : Cell s) : Bool :=
  !f.visited.get p.index && Color.within rule.tolerance (f.canvas.get p) target

-- Colours a cell, and lets its neighbours wait if there is room.
def color (rule : FloodFill) (ink : Color) (f : Filling s) (p : Cell s) : Filling s :=
  let room := decide (f.pending.size < rule.maxPending)
  { canvas := f.canvas.set p ink
    visited := f.visited.set p.index true p.index_isLt
    pending := if room then f.pending.pushNeighbours p.point else f.pending
    tally := { written := f.tally.written + 1, truncated := f.tally.truncated || !room } }

-- Looks at a place: a cell that is accepted is coloured, anything else is passed over.
def look (rule : FloodFill) (target ink : Color) (f : Filling s) (p : Point) : Filling s :=
  match s.cell? p with
  | none      => f
  | some cell => if f.accepts rule target cell then f.color rule ink cell else f

def next (rule : FloodFill) (target ink : Color) (f : Filling s) : Filling s :=
  match f.pending.points with
  | []     => f
  | p :: _ => f.pop.look rule target ink p

-- The cell that the next turn colours, if any, and the fill after it; there is no turn when no
-- place waits.
def turn? (rule : FloodFill) (target ink : Color) (f : Filling s) :
    Option (Option (Cell s) × Filling s) :=
  match f.pending.points with
  | []     => none
  | p :: _ => some ((s.cell? p).filter (f.accepts rule target), f.next rule target ink)

theorem work_color_le {rule : FloodFill} {ink target : Color} {f : Filling s} {p : Cell s}
    (h : f.accepts rule target p) : (f.color rule ink p).work ≤ f.work := by
  have hp := p.index_isLt
  have hv : f.visited[p.index.val] = false := by
    simp only [accepts, Bool.and_eq_true, Bool.not_eq_true'] at h
    exact h.1
  have hc : 0 < f.visited.count false :=
    Vector.count_pos_iff.mpr (hv ▸ Vector.getElem_mem hp)
  have : (f.visited.set p.index true p.index_isLt).count false = f.visited.count false - 1 := by
    rw [Vector.count_set]
    simp [hv]
  simp only [work, color, this]
  split
  case isTrue  =>
    simp only [Pending.pushNeighbours, List.length_append, Point.length_neighbours]
    omega
  case isFalse => omega

theorem work_look_le (rule : FloodFill) (target ink : Color) (f : Filling s) (p : Point) :
    (f.look rule target ink p).work ≤ f.work := by
  unfold look
  split
  case h_1 => exact Nat.le_refl _
  case h_2 =>
    split
    case isTrue h => exact work_color_le h
    case isFalse  => exact Nat.le_refl _

theorem work_next_lt (rule : FloodFill) (target ink : Color) {f : Filling s}
    (h : ¬ f.pending.points.isEmpty) : (f.next rule target ink).work < f.work := by
  unfold next
  split
  case h_1 he          => simp [he] at h
  case h_2 p points he =>
    refine Nat.lt_of_le_of_lt (work_look_le ..) ?_
    simp [work, pop, Pending.tail, he]

def run (rule : FloodFill) (target ink : Color) (f : Filling s) : Filling s :=
  if f.pending.points.isEmpty then f else (f.next rule target ink).run rule target ink
termination_by f.work
decreasing_by exact work_next_lt _ _ _ ‹_›

end Filling

namespace FloodFill

variable {s : Size}

-- A fill from a seed when no place waits any more.
def done (rule : FloodFill) (c : Canvas s) (seed : Cell s) (color : Color) : Filling s :=
  (Filling.start c seed).run rule (c.get seed) color.solid

-- Fills from a seed. A seed outside the canvas fills nothing, and neither does a colour that the
-- seed has already.
def fill (rule : FloodFill) (c : Canvas s) (seed : Point) (color : Color) :
    Canvas s × FillTally :=
  match s.cell? seed with
  | none      => (c, {})
  | some cell =>
    if (c.get cell).sameRgb color then
      (c, {})
    else
      let done := rule.done c cell color
      (done.canvas, done.tally)

end FloodFill

end PenStream
