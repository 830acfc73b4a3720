import PenStream.Command
import PenStream.Json.Basic

namespace PenStream

namespace Point

def toJson (p : Point) : Json :=
  .object [("x", .integer p.x), ("y", .integer p.y)]

def ofJson? (j : Json) : Option Point := do
  let fields ← j.record? .refused ["x", "y"]
  return ⟨← fields.get? "x" Json.int32?, ← fields.get? "y" Json.int32?⟩

end Point

namespace Command

open Json (int32? uint8?)

-- The name of a kind of commands in the field `type`.
def kind : Command → String
  | setColors ..    => "set_color"
  | line ..         => "line"
  | rectangle ..    => "rect"
  | bar ..          => "fill_rect"
  | circle ..       => "circle"
  | ellipse ..      => "ellipse"
  | pixel ..        => "pixel"
  | moveTo ..       => "move_to"
  | lineTo ..       => "line_to"
  | polyline ..     => "polyline"
  | setFill ..      => "set_fill_style"
  | floodFill ..    => "flood_fill"
  | reset           => "reset"
  | defineWindow .. => "define_window"

def spanFields (p q : Point) : Json.Fields :=
  [("x0", .integer p.x), ("y0", .integer p.y), ("x1", .integer q.x), ("y1", .integer q.y)]

-- The fields of a command beside its type.
def fields : Command → Json.Fields
  | setColors fg bg          => [("fg", .uint8 fg), ("bg", .uint8 bg)]
  | line p q color           => spanFields p q ++ [("color", .uint8 color)]
  | rectangle p q color      => spanFields p q ++ [("color", .uint8 color)]
  | bar p q color            => spanFields p q ++ [("color", .uint8 color)]
  | circle c r color         =>
    [("cx", .integer c.x), ("cy", .integer c.y), ("r", .integer r), ("color", .uint8 color)]
  | ellipse c sa ea rx ry color =>
    [("cx", .integer c.x), ("cy", .integer c.y), ("start_angle", .integer sa),
     ("end_angle", .integer ea), ("rx", .integer rx), ("ry", .integer ry), ("color", .uint8 color)]
  | pixel p color            => [("x", .integer p.x), ("y", .integer p.y), ("color", .uint8 color)]
  | moveTo p                 => [("x", .integer p.x), ("y", .integer p.y)]
  | lineTo p q color         => spanFields p q ++ [("color", .uint8 color)]
  | polyline ps color        => [("points", .array (ps.map Point.toJson)), ("color", .uint8 color)]
  | setFill style color      => [("style", .uint8 style), ("color", .uint8 color)]
  | floodFill p border color =>
    [("x", .integer p.x), ("y", .integer p.y), ("border", .uint8 border),
     ("fill_color", .uint8 color)]
  | reset                    => []
  | defineWindow p q         => spanFields p q

def toJson (c : Command) : Json :=
  .object (("type", .string c.kind) :: c.fields)

def spanOf? (fields : Json.Fields) : Option (Point × Point) :=
  return (⟨← fields.get? "x0" int32?, ← fields.get? "y0" int32?⟩,
    ⟨← fields.get? "x1" int32?, ← fields.get? "y1" int32?⟩)

def pointOf? (fields : Json.Fields) : Option Point :=
  return ⟨← fields.get? "x" int32?, ← fields.get? "y" int32?⟩

def centerOf? (fields : Json.Fields) : Option Point :=
  return ⟨← fields.get? "cx" int32?, ← fields.get? "cy" int32?⟩

def colorOf? (fields : Json.Fields) : Option ColorIndex :=
  fields.get? "color" uint8?

def ofFields? (fields : Json.Fields) : (kind : String) → Option Command
  | "set_color"      => return .setColors (← fields.get? "fg" uint8?) (← fields.get? "bg" uint8?)
  | "line"           => do
    let (p, q) ← spanOf? fields
    return .line p q (← colorOf? fields)
  | "rect"           => do
    let (p, q) ← spanOf? fields
    return .rectangle p q (← colorOf? fields)
  | "fill_rect"      => do
    let (p, q) ← spanOf? fields
    return .bar p q (← colorOf? fields)
  | "circle"         =>
    return .circle (← centerOf? fields) (← fields.get? "r" int32?) (← colorOf? fields)
  | "ellipse"        =>
    return .ellipse (← centerOf? fields) (← fields.get? "start_angle" int32?)
      (← fields.get? "end_angle" int32?) (← fields.get? "rx" int32?) (← fields.get? "ry" int32?)
      (← colorOf? fields)
  | "pixel"          => return .pixel (← pointOf? fields) (← colorOf? fields)
  | "move_to"        => return .moveTo (← pointOf? fields)
  | "line_to"        => do
    let (p, q) ← spanOf? fields
    return .lineTo p q (← colorOf? fields)
  | "polyline"       =>
    return .polyline (← fields.get? "points" (·.array? >>= List.mapM Point.ofJson?))
      (← colorOf? fields)
  | "set_fill_style" => return .setFill (← fields.get? "style" uint8?) (← colorOf? fields)
  | "flood_fill"     =>
    return .floodFill (← pointOf? fields) (← fields.get? "border" uint8?)
      (← fields.get? "fill_color" uint8?)
  | "reset"          => return .reset
  | "define_window"  => do
    let (p, q) ← spanOf? fields
    return .defineWindow p q
  | _                => none

def fieldNames? : (kind : String) → Option (List String)
  | "set_color"      => some ["fg", "bg"]
  | "line"           => some ["x0", "y0", "x1", "y1", "color"]
  | "rect"           => some ["x0", "y0", "x1", "y1", "color"]
  | "fill_rect"      => some ["x0", "y0", "x1", "y1", "color"]
  | "circle"         => some ["cx", "cy", "r", "color"]
  | "ellipse"        => some ["cx", "cy", "start_angle", "end_angle", "rx", "ry", "color"]
  | "pixel"          => some ["x", "y", "color"]
  | "move_to"        => some ["x", "y"]
  | "line_to"        => some ["x0", "y0", "x1", "y1", "color"]
  | "polyline"       => some ["points", "color"]
  | "set_fill_style" => some ["style", "color"]
  | "flood_fill"     => some ["x", "y", "border", "fill_color"]
  | "reset"          => some []
  | "define_window"  => some ["x0", "y0", "x1", "y1"]
  | _                => none

def ofJson? : Json → Option Command
  | .object fields                 => do
    ofFields? fields (← Json.Fields.get? fields "type" Json.string?)
  | .array (.string kind :: items) => do
    let names ← fieldNames? kind
    ofFields? (← (Json.array items).record? .refused names) kind
  | _                              => none

end Command

end PenStream
