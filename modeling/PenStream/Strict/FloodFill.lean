import PenStream.Drawing.FloodFill
import PenStream.Strict.Canvas

namespace PenStream.Strict

variable {s : Size}

-- The place of a cell among all cells.
def indexOf (p : Cell s) : Checked Int := do
  let above ← size (p.y * s.width)
  let index ← size (above + p.x)
  require (index < s.area) .range
  return index

-- The bytes of a cell have to be among those of the canvas.
def reach (p : Cell s) : Checked Unit := do
  let stride ← size (s.width * Canvas.cellBytes)
  let above ← size (p.y * stride)
  let left ← size (p.x * Canvas.cellBytes)
  let first ← size (above + left)
  let last ← size (first + Canvas.cellBytes)
  require (last ≤ s.area * Canvas.cellBytes) .range

def pushNeighbours (pending : Pending) (p : Point) : Checked Pending := do
  let right ← int32 (p.x + 1)
  let left ← int32 (p.x - 1)
  let below ← int32 (p.y + 1)
  let above ← int32 (p.y - 1)
  return {
    points := ⟨p.x, above⟩ :: ⟨p.x, below⟩ :: ⟨left, p.y⟩ :: ⟨right, p.y⟩ :: pending.points
    size := pending.size + 4
    size_eq := congrArg (· + 4) pending.size_eq }

def color (rule : FloodFill) (ink : Color) (f : Filling s) (p : Cell s) : Checked (Filling s) := do
  let written ← size (f.tally.written + 1)
  let canvas := f.canvas.set p ink
  let visited := f.visited.set p.index true p.index_isLt
  if f.pending.size < rule.maxPending then
    let pending ← pushNeighbours f.pending p.point
    return { canvas, visited, pending, tally := { f.tally with written := written.toNat } }
  else
    let tally := { written := written.toNat, truncated := true }
    return { canvas, visited, pending := f.pending, tally }

def look (rule : FloodFill) (target ink : Color) (f : Filling s) (p : Point) :
    Checked (Filling s) :=
  match s.cell? p with
  | none      => pure f
  | some cell => do
    let _ ← indexOf cell
    if f.visited.get cell.index then
      return f
    else
      reach cell
      if Color.within rule.tolerance (f.canvas.get cell) target then
        color rule ink f cell
      else
        return f

-- Goes on until no place waits, with so many looks to spare.
def fillOn (rule : FloodFill) (target ink : Color) : (looks : Nat) → Filling s → Checked (Filling s)
  | 0,         f => if f.pending.points.isEmpty then pure f else throw .endless
  | looks + 1, f =>
    match f.pending.points with
    | []     => pure f
    | p :: _ => do
      let f ← look rule target ink f.pop p
      fillOn rule target ink looks f

def fill (rule : FloodFill) (c : Canvas s) (seed : Point) (color : Color) :
    Checked (Canvas s × FillTally) :=
  match s.cell? seed with
  | none      => pure (c, {})
  | some cell => do
    reach cell
    let target := c.get cell
    if target.sameRgb color then
      return (c, {})
    else
      let area ← size (s.width * s.height)
      let done ← fillOn rule target color.solid (4 * area.toNat + 1) (.start c cell)
      return (done.canvas, done.tally)

end PenStream.Strict
