import Mathlib.Algebra.Order.Group.Unbundled.Int
import PenStream.Geometry.Ellipse
import PenStream.Strict.Canvas

namespace PenStream.Strict

variable {s : Size}

def top (rx ry : Int) : Checked Arc := do
  let xx ← int64 (rx * rx)
  let yy ← int64 (ry * ry)
  let twice ← int64 (2 * xx)
  let _ ← int64 (2 * yy)
  let gainY ← int64 (-ry * twice)
  let y ← int32 (-ry)
  return { xx, yy, gainX := 0, gainY, error := 0, offset := ⟨0, y⟩ }

-- The move after which the least of three errors is left.
def choose (across down both : Int) : Checked Arc.Move := do
  let across ← int64 |across|
  let down ← int64 |down|
  let both ← int64 |both|
  return if both < min across down then .both else if across ≤ down then .across else .down

def arcStep (a : Arc) : Checked Arc := do
  let gain ← int64 (a.error + a.gainX)
  let across ← int64 (gain + a.yy)
  let drop ← int64 (a.error + a.gainY)
  let down ← int64 (drop + a.xx)
  let turn ← int64 (across + a.gainY)
  let both ← int64 (turn + a.xx)
  let move ← choose across down both
  let gainX ← int64 (a.gainX + move.offset.x * (2 * a.yy))
  let gainY ← int64 (a.gainY + move.offset.y * (2 * a.xx))
  let x ← int32 (a.offset.x + move.offset.x)
  let y ← int32 (a.offset.y + move.offset.y)
  let error := match move with
    | .across => across
    | .down   => down
    | .both   => both
  return { a with gainX, gainY, error, offset := ⟨x, y⟩ }

def plotAll (color : Color) : Canvas s → List Point → Checked (Canvas s)
  | c, []        => pure c
  | c, p :: rest => do
    let c ← plot c color p
    plotAll color c rest

def reflections (center offset : Point) : Checked (List Point) := do
  let right ← int32 (center.x + offset.x)
  let below ← int32 (center.y + offset.y)
  let above ← int32 (center.y - offset.y)
  let left ← int32 (center.x - offset.x)
  return [⟨right, below⟩, ⟨right, above⟩, ⟨left, above⟩, ⟨left, below⟩]

def plotReflections (c : Canvas s) (color : Color) (center offset : Point) :
    Checked (Canvas s) := do
  let points ← reflections center offset
  plotAll color c points

-- Goes on until the walk is level, with so many moves to spare.
def walkArc (color : Color) (center : Point) :
    (moves : Nat) → Canvas s → Arc → Checked (Canvas s × Point)
  | 0,         c, a => do
    let c ← plotReflections c color center a.offset
    if a.isLevel then return (c, a.offset) else throw .endless
  | moves + 1, c, a => do
    let c ← plotReflections c color center a.offset
    if a.isLevel then
      return (c, a.offset)
    else
      let a ← arcStep a
      walkArc color center moves c a

-- So many offsets to the right.
def walkTail (color : Color) (center : Point) :
    (count : Nat) → Canvas s → Point → Checked (Canvas s)
  | 0,         c, _ => pure c
  | count + 1, c, p => do
    let x ← int32 (p.x + 1)
    let c ← plotReflections c color center ⟨x, p.y⟩
    walkTail color center count c ⟨x, p.y⟩

def ellipse (c : Canvas s) (color : Color) (center : Point) (rx ry : Int) :
    Checked (Canvas s) := do
  let rx ← int32 |rx|
  let ry ← int32 |ry|
  let a ← top rx ry
  let (c, p) ← walkArc color center (rx + ry).toNat c a
  walkTail color center (rx - p.x).toNat c p

end PenStream.Strict
