import PenStream.Command
import PenStream.Numeral

namespace PenStream

-- A parameter of two digits.
abbrev Coordinate := Fin 1296

-- A parameter of one digit: a colour, a style or a count.
abbrev Digit := Fin 36

namespace Digit

def toUInt8 (d : Digit) : UInt8 :=
  .ofNat d.val

end Digit

-- A point as an instruction can write it.
structure Position where
  x : Coordinate
  y : Coordinate
deriving DecidableEq

namespace Position

def toPoint (p : Position) : Point :=
  ⟨p.x.val, p.y.val⟩

end Position

inductive Instruction
  | color (fg bg : Digit)
  | line (start stop : Position)
  | rectangle (corner opposite : Position)
  | bar (corner opposite : Position)
  | circle (center : Position) (radius : Coordinate)
  | oval (center : Position) (startAngle endAngle rx ry : Coordinate)
  | pixel (position : Position)
  | move (position : Position)
  | lineTo (position : Position)
  | polyline (positions : List Position)
  | fillStyle (style color : Digit)
  | floodFill (seed : Position) (border : Digit)
  | reset
  | textWindow (corner opposite : Position)
deriving DecidableEq

namespace Instruction

def opcode : Instruction → Opcode
  | color ..      => .color
  | line ..       => .line
  | rectangle ..  => .rectangle
  | bar ..        => .bar
  | circle ..     => .circle
  | oval ..       => .oval
  | pixel ..      => .pixel
  | move ..       => .move
  | lineTo ..     => .lineTo
  | polyline ..   => .polyline
  | fillStyle ..  => .fillStyle
  | floodFill ..  => .floodFill
  | reset         => .reset
  | textWindow .. => .textWindow

-- The command that an instruction becomes when it is reached with the given pen.
def command (pen : Pen) : Instruction → Command
  | color fg bg            => .setColors fg.toUInt8 bg.toUInt8
  | line p q               => .line p.toPoint q.toPoint pen.fg
  | rectangle p q          => .rectangle p.toPoint q.toPoint pen.fg
  | bar p q                => .bar p.toPoint q.toPoint pen.fg
  | circle p r             => .circle p.toPoint r.val pen.fg
  | oval p sa ea rx ry     => .ellipse p.toPoint sa.val ea.val rx.val ry.val pen.fg
  | pixel p                => .pixel p.toPoint pen.fg
  | move p                 => .moveTo p.toPoint
  | lineTo p               => .lineTo pen.cursor p.toPoint pen.fg
  | polyline ps            => .polyline (ps.map Position.toPoint) pen.fg
  | fillStyle style c      => .setFill style.toUInt8 c.toUInt8
  | floodFill p border     => .floodFill p.toPoint border.toUInt8 pen.fillColor
  | reset                  => .reset
  | textWindow p q         => .defineWindow p.toPoint q.toPoint

@[simp]
theorem opcode_command (pen : Pen) (i : Instruction) : (i.command pen).opcode = i.opcode := by
  cases i <;> rfl

end Instruction

end PenStream
