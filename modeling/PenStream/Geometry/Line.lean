import PenStream.Geometry.Dda
import PenStream.Point
import PenStream.Walk

namespace PenStream

namespace Subpixel

-- The units of a pixel.
abbrev scale : Int := 256

-- The middle of a pixel, in units; a unit count has 32 bits, and higher ones are lost.
def middle (pixel : Int) : Int :=
  (pixel * scale).bmod 0x100000000 + scale / 2

def pixel (unit : Int) : Int :=
  unit / scale

end Subpixel

-- A line under way, at one of its pixels.
structure Line where
  -- Whether the line goes along the vertical axis.
  steep : Bool
  -- How many steps the whole line has.
  length : Nat
  -- What a step adds on the axis along which the line goes.
  direction : Int
  major : Int
  minor : Dda

namespace Line

-- The line along one axis from its first pixel.
def along (steep : Bool) (majorStart majorStop minorStart minorStop : Int) : Line where
  steep
  length := (majorStop - majorStart).natAbs
  direction := if majorStop > majorStart then 1 else -1
  major := majorStart
  minor := .forward (Subpixel.middle minorStart) (Subpixel.middle minorStop)
    (majorStop - majorStart).natAbs

def between (start stop : Point) : Line :=
  if (stop.x - start.x).natAbs < (stop.y - start.y).natAbs then
    along true start.y stop.y start.x stop.x
  else
    along false start.x stop.x start.y stop.y

def point (l : Line) : Point :=
  if l.steep then ⟨Subpixel.pixel l.minor.value, l.major⟩
  else ⟨l.major, Subpixel.pixel l.minor.value⟩

def step (l : Line) : Line :=
  { l with major := l.major + l.direction, minor := l.minor.step }

-- The pixels from one point to another, both included.
def pixels (start stop : Point) : List Point :=
  let l := between start stop
  Walk.take step point (l.length + 1) l

-- Folds over the pixels of a line without a list of them.
@[specialize]
def foldPixels (f : β → Point → β) (b : β) (start stop : Point) : β :=
  let l := between start stop
  Walk.fold step (fun b l => f b l.point) (l.length + 1) b l

theorem foldPixels_eq (f : β → Point → β) (b : β) (start stop : Point) :
    foldPixels f b start stop = (pixels start stop).foldl f b :=
  Walk.fold_eq step point f _ b _

end Line

end PenStream
