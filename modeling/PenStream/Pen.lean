import PenStream.Point

namespace PenStream

-- A colour as a stream names it. The palette has a colour for every index.
abbrev ColorIndex := UInt8

structure Pen where
  fg : ColorIndex := 15
  bg : ColorIndex := 0
  fillStyle : UInt8 := 1
  fillColor : ColorIndex := 15
  cursor : Point := .origin
deriving DecidableEq, Repr

namespace Pen

inductive Change
  | keep
  | colors (fg bg : ColorIndex)
  | fill (style : UInt8) (color : ColorIndex)
  | cursor (point : Point)
  | reset
deriving DecidableEq, Repr

def apply (pen : Pen) : Change → Pen
  | .keep             => pen
  | .colors fg bg     => { pen with fg, bg }
  | .fill style color => { pen with fillStyle := style, fillColor := color }
  | .cursor point     => { pen with cursor := point }
  | .reset            => {}

@[simp]
theorem apply_keep (pen : Pen) : pen.apply .keep = pen :=
  rfl

-- After a reset nothing of the pen before it is left.
@[simp]
theorem apply_reset (pen : Pen) : pen.apply .reset = {} :=
  rfl

end Pen

end PenStream
