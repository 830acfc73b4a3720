import PenStream.Geometry.Arc
import PenStream.Iteration

namespace PenStream.Ellipse

structure Tracer where
  arc : Arc
  rx : Int
  -- The offset given last; before the first, the top.
  offset : Point
  started : Bool := false
  -- Whether the offset given last was level with the centre.
  isLevel : Bool := false

namespace Tracer

def ofRadii (rx ry : Int) : Tracer where
  arc := .top rx ry
  rx
  offset := ⟨0, -ry⟩

def next? (t : Tracer) : Option (Point × Tracer) :=
  if t.isLevel then
    if t.offset.x ≥ t.rx then
      none
    else
      let offset := ⟨t.offset.x + 1, t.offset.y⟩
      some (offset, { t with offset })
  else
    let arc := if t.started then t.arc.step else t.arc
    some (arc.offset, { t with arc, offset := arc.offset, started := true, isLevel := arc.isLevel })

variable {t : Tracer}

theorem next?_of_walking (h : ¬t.isLevel) :
    t.next? =
      let arc := if t.started then t.arc.step else t.arc
      some (arc.offset,
        { t with arc, offset := arc.offset, started := true, isLevel := arc.isLevel }) :=
  if_neg h

theorem next?_of_level (h : t.isLevel) (hx : t.offset.x < t.rx) :
    t.next? = some (⟨t.offset.x + 1, t.offset.y⟩,
      { t with offset := ⟨t.offset.x + 1, t.offset.y⟩ }) :=
  (if_pos h).trans (if_neg (Int.not_le.mpr hx))

theorem next?_of_side (h : t.isLevel) (hx : t.rx ≤ t.offset.x) : t.next? = none :=
  (if_pos h).trans (if_pos hx)

end Tracer

end PenStream.Ellipse
