import PenStream.Canvas.Basic
import PenStream.Command

namespace PenStream

namespace Listing

def record (name : String) (fields : List (String × String)) : String :=
  let shown := fields.map fun (key, value) => key ++ ": " ++ value
  name ++ " \x7b " ++ ", ".intercalate shown ++ " \x7d"

def span (p q : Point) : List (String × String) :=
  [("x0", toString p.x), ("y0", toString p.y), ("x1", toString q.x), ("y1", toString q.y)]

def number (n : UInt8) : String :=
  toString n.toNat

end Listing

open Listing

namespace Point

def listing (p : Point) : String :=
  record "Point" [("x", toString p.x), ("y", toString p.y)]

end Point

namespace Opcode

def listing (op : Opcode) : String :=
  record "Opcode" [("letter", "'" ++ op.letter.toString ++ "'"),
    ("name", "\"" ++ op.name ++ "\""), ("min_len", toString op.minLength)]

end Opcode

namespace Canvas

-- The size only; the pixels are not listed.
def listing {s : Size} (_ : Canvas s) : String :=
  "RenderingBuffer \x7b width: " ++ toString s.width ++ ", height: " ++ toString s.height ++
    ", .. \x7d"

end Canvas

namespace Command

def listing : Command → String
  | setColors fg bg    => record "SetColor" [("fg", number fg), ("bg", number bg)]
  | line p q color     => record "Line" (span p q ++ [("color", number color)])
  | rectangle p q color => record "Rect" (span p q ++ [("color", number color)])
  | bar p q color      => record "FillRect" (span p q ++ [("color", number color)])
  | circle c r color   =>
    record "Circle" [("cx", toString c.x), ("cy", toString c.y), ("r", toString r),
      ("color", number color)]
  | ellipse c sa ea rx ry color =>
    record "Ellipse" [("cx", toString c.x), ("cy", toString c.y), ("start_angle", toString sa),
      ("end_angle", toString ea), ("rx", toString rx), ("ry", toString ry),
      ("color", number color)]
  | pixel p color      =>
    record "Pixel" [("x", toString p.x), ("y", toString p.y), ("color", number color)]
  | moveTo p           => record "MoveTo" [("x", toString p.x), ("y", toString p.y)]
  | lineTo p q color   => record "LineTo" (span p q ++ [("color", number color)])
  | polyline ps color  =>
    record "Polyline" [("points", "[" ++ ", ".intercalate (ps.map Point.listing) ++ "]"),
      ("color", number color)]
  | setFill style color =>
    record "SetFillStyle" [("style", number style), ("color", number color)]
  | floodFill p border color =>
    record "FloodFill" [("x", toString p.x), ("y", toString p.y), ("border", number border),
      ("fill_color", number color)]
  | reset              => "Reset"
  | defineWindow p q   => record "DefineWindow" (span p q)

end Command

end PenStream
