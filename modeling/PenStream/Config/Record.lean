import PenStream.Config
import PenStream.Json.Basic

namespace PenStream

namespace Pacing

def toJson (p : Pacing) : Json :=
  .object [("pixel_delay_ms", .natural p.pixelDelay), ("step_delay_ms", .natural p.stepDelay)]

def ofJson? (surplus : Json.Surplus) (j : Json) : Option Pacing := do
  let fields ← j.record? surplus ["pixel_delay_ms", "step_delay_ms"]
  let default : Pacing := {}
  return {
    pixelDelay := ← fields.getD? "pixel_delay_ms" Json.natural64? default.pixelDelay
    stepDelay := ← fields.getD? "step_delay_ms" Json.natural64? default.stepDelay }

end Pacing

namespace FloodFill

def toJson (rule : FloodFill) : Json :=
  .object [("max_pending", .natural rule.maxPending), ("tolerance", .uint8 rule.tolerance)]

def ofJson? (surplus : Json.Surplus) (j : Json) : Option FloodFill := do
  let fields ← j.record? surplus ["max_pending", "tolerance"]
  let default : FloodFill := {}
  return {
    maxPending := ← fields.getD? "max_pending" Json.natural64? default.maxPending
    tolerance := ← fields.getD? "tolerance" Json.uint8? default.tolerance }

end FloodFill

namespace Config

def toJson (c : Config) : Json :=
  .object [("width", .natural c.width), ("height", .natural c.height),
    ("pacing", c.pacing.toJson), ("flood_fill", c.floodFill.toJson)]

def ofJson? (surplus : Json.Surplus) (j : Json) : Option Config := do
  let fields ← j.record? surplus ["width", "height", "pacing", "flood_fill"]
  let default : Config := {}
  return {
    width := ← fields.getD? "width" Json.natural32? default.width
    height := ← fields.getD? "height" Json.natural32? default.height
    pacing := ← fields.getD? "pacing" (Pacing.ofJson? surplus) default.pacing
    floodFill := ← fields.getD? "flood_fill" (FloodFill.ofJson? surplus) default.floodFill }

end Config

end PenStream
