import PenStream.Opcode
import PenStream.Pen

namespace PenStream

inductive Command
  | setColors (fg bg : ColorIndex)
  | line (start stop : Point) (color : ColorIndex)
  | rectangle (corner opposite : Point) (color : ColorIndex)
  | bar (corner opposite : Point) (color : ColorIndex)
  | circle (center : Point) (radius : Int) (color : ColorIndex)
  -- The angles are carried along; the whole ellipse is drawn.
  | ellipse (center : Point) (startAngle endAngle rx ry : Int) (color : ColorIndex)
  | pixel (point : Point) (color : ColorIndex)
  | moveTo (point : Point)
  | lineTo (start stop : Point) (color : ColorIndex)
  | polyline (points : List Point) (color : ColorIndex)
  | setFill (style : UInt8) (color : ColorIndex)
  -- The border colour is carried along; a fill stops where the colour of its seed ends.
  | floodFill (seed : Point) (border fillColor : ColorIndex)
  | reset
  | defineWindow (corner opposite : Point)
deriving DecidableEq, Repr

namespace Command

-- The opcode whose instructions become this command.
def opcode : Command → Opcode
  | setColors ..    => .color
  | line ..         => .line
  | rectangle ..    => .rectangle
  | bar ..          => .bar
  | circle ..       => .circle
  | ellipse ..      => .oval
  | pixel ..        => .pixel
  | moveTo ..       => .move
  | lineTo ..       => .lineTo
  | polyline ..     => .polyline
  | setFill ..      => .fillStyle
  | floodFill ..    => .floodFill
  | reset           => .reset
  | defineWindow .. => .textWindow

-- Single pixels are played back with a delay of their own.
def isPixel : Command → Bool
  | pixel .. => true
  | _        => false

def isSetting : Command → Bool
  | setColors .. | setFill .. | moveTo .. | defineWindow .. => true
  | _                                                       => false

-- What a command does to the pen with which the stream goes on.
def change : Command → Pen.Change
  | setColors fg bg    => .colors fg bg
  | setFill style color => .fill style color
  | moveTo p           => .cursor p
  | lineTo _ stop _    => .cursor stop
  | reset              => .reset
  | _                  => .keep

end Command

end PenStream
