import PenStream.Canvas.Clip
import PenStream.Geometry.Ellipse
import PenStream.Geometry.Line

namespace PenStream

-- Outlines take the one colour, solid shapes the other.
structure Ink where
  line : Color := .clear
  fill : Color := .clear
deriving DecidableEq, Repr

inductive Shape
  | pixel (point : Point)
  | rectangle (corner opposite : Point)
  | bar (corner opposite : Point)
  | line (start stop : Point)
  -- The signs of the radii make no difference.
  | ellipse (center : Point) (rx ry : Int)
  | polyline (points : List Point)
deriving DecidableEq, Repr

def Shape.circle (center : Point) (radius : Int) : Shape :=
  .ellipse center radius radius

namespace Canvas

variable {s : Size}

def plotAll (c : Canvas s) (color : Color) (points : List Point) : Canvas s :=
  points.foldl (·.plot color ·) c

def line (c : Canvas s) (color : Color) (start stop : Point) : Canvas s :=
  Line.foldPixels (·.plot color ·) c start stop

def polyline (c : Canvas s) (color : Color) : List Point → Canvas s
  | p :: q :: rest => (c.line color p q).polyline color (q :: rest)
  | _              => c

def outline (c : Canvas s) (color : Color) (b : Box) : Canvas s :=
  let c := c.hline color b.left b.right b.top
  let c := c.hline color b.left b.right b.bottom
  let c := c.vline color b.left b.top b.bottom
  c.vline color b.right b.top b.bottom

def ellipse (c : Canvas s) (color : Color) (center : Point) (rx ry : Int) : Canvas s :=
  Ellipse.foldQuadrant (fun c offset => c.plotAll color (Ellipse.reflections center offset)) c
    rx.natAbs ry.natAbs

def draw (c : Canvas s) (ink : Ink) : Shape → Canvas s
  | .pixel p           => c.plot ink.line p
  | .rectangle p q     => c.outline ink.line (.ofCorners p q)
  | .bar p q           => c.bar ink.fill p q
  | .line p q          => c.line ink.line p q
  | .ellipse p rx ry   => c.ellipse ink.line p rx ry
  | .polyline ps       => c.polyline ink.line ps

theorem line_eq_plotAll (c : Canvas s) (color : Color) (start stop : Point) :
    c.line color start stop = c.plotAll color (Line.pixels start stop) :=
  Line.foldPixels_eq _ c start stop

theorem ellipse_eq_foldl (c : Canvas s) (color : Color) (center : Point) (rx ry : Int) :
    c.ellipse color center rx ry =
      (Ellipse.quadrant rx.natAbs ry.natAbs).foldl
        (fun c offset => c.plotAll color (Ellipse.reflections center offset)) c :=
  Ellipse.foldQuadrant_eq _ c _ _

end Canvas

end PenStream
