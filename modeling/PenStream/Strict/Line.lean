import Mathlib.Algebra.Order.Group.Unbundled.Int
import PenStream.Geometry.Line
import PenStream.Strict.Canvas

namespace PenStream.Strict

variable {s : Size}

def forward (start stop count : Int) : Checked Dda := do
  let count := max count 1
  let difference ← int32 (stop - start)
  let whole ← divide difference count
  let rest ← remainder difference count
  if rest ≤ 0 then
    let bumped ← int32 (rest + count)
    let whole ← int32 (whole - 1)
    let carry ← int32 (bumped - count)
    return { count, whole, rest := bumped, carry, value := start }
  else
    let carry ← int32 (rest - count)
    return { count, whole, rest, carry, value := start }

def ddaStep (d : Dda) : Checked Dda := do
  let carry ← int32 (d.carry + d.rest)
  let value ← int32 (d.value + d.whole)
  if carry > 0 then
    let carry ← int32 (carry - d.count)
    let value ← int32 (value + 1)
    return { d with carry, value }
  else
    return { d with carry, value }

def ddaSteps : (count : Nat) → Dda → Checked Dda
  | 0,         d => pure d
  | count + 1, d => do
    let d ← ddaStep d
    ddaSteps count d

-- What leads from one value to another, so many steps on.
def ddaAfter (start stop count : Int) (k : Nat) : Checked Dda := do
  let d ← forward start stop count
  ddaSteps k d

def middle (pixel : Int) : Checked Int := do
  let unit ← int32 (pixel * Subpixel.scale)
  int32 (unit + Subpixel.scale / 2)

def distance (start stop : Int) : Checked Int := do
  let difference ← int32 (stop - start)
  int32 |difference|

def along (steep : Bool) (majorStart majorStop minorStart minorStop : Int) : Checked Line := do
  let count ← distance majorStart majorStop
  let first ← middle minorStart
  let last ← middle minorStop
  let minor ← forward first last count
  return {
    steep
    length := count.toNat
    direction := if majorStop > majorStart then 1 else -1
    major := majorStart
    minor }

def between (start stop : Point) : Checked Line := do
  let width ← distance start.x stop.x
  let height ← distance start.y stop.y
  if width < height then
    along true start.y stop.y start.x stop.x
  else
    along false start.x stop.x start.y stop.y

def lineStep (l : Line) : Checked Line := do
  let minor ← ddaStep l.minor
  let major ← int32 (l.major + l.direction)
  return { l with major, minor }

-- So many pixels of a line. After each of them, the last included, the line is taken on.
def linePixels (color : Color) : (count : Nat) → Canvas s → Line → Checked (Canvas s)
  | 0,         c, _ => pure c
  | count + 1, c, l => do
    let next ← lineStep l
    let c ← plot c color l.point
    linePixels color count c next

def line (c : Canvas s) (color : Color) (start stop : Point) : Checked (Canvas s) := do
  let l ← between start stop
  linePixels color (l.length + 1) c l

def polyline (color : Color) : Canvas s → List Point → Checked (Canvas s)
  | c, p :: q :: rest => do
    let c ← line c color p q
    polyline color c (q :: rest)
  | c, _              => pure c

end PenStream.Strict
