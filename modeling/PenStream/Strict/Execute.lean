import PenStream.Drawing.Execute
import PenStream.Strict.Ellipse
import PenStream.Strict.FloodFill
import PenStream.Strict.Line

namespace PenStream.Strict

variable {s : Size}

def outline (c : Canvas s) (color : Color) (b : Box) : Checked (Canvas s) := do
  let c ← hline c color b.left b.right b.top
  let c ← hline c color b.left b.right b.bottom
  let c ← vline c color b.left b.top b.bottom
  vline c color b.right b.top b.bottom

def draw (c : Canvas s) (ink : Ink) : Shape → Checked (Canvas s)
  | .pixel p         => plot c ink.line p
  | .rectangle p q   => outline c ink.line (.ofCorners p q)
  | .bar p q         => bar c ink.fill p q
  | .line p q        => line c ink.line p q
  | .ellipse p rx ry => ellipse c ink.line p rx ry
  | .polyline ps     => polyline ink.line c ps

def drawIn (c : Canvas s) (color : ColorIndex) (shape : Shape) : Checked (Canvas s × Effect) := do
  let c ← draw c { line := Palette.color color, fill := Palette.color color } shape
  return (c, .drawn)

def execute (c : Canvas s) (rule : FloodFill) : Command → Checked (Canvas s × Effect)
  | .setColors ..                   => pure (c, .setting)
  | .setFill ..                     => pure (c, .setting)
  | .moveTo ..                      => pure (c, .setting)
  | .defineWindow ..                => pure (c, .setting)
  | .line p q color                 => drawIn c color (.line p q)
  | .lineTo p q color               => drawIn c color (.line p q)
  | .rectangle p q color            => drawIn c color (.rectangle p q)
  | .bar p q color                  => drawIn c color (.bar p q)
  | .circle center r color          => drawIn c color (.circle center r)
  | .ellipse center _ _ rx ry color => drawIn c color (.ellipse center rx ry)
  | .pixel p color                  => drawIn c color (.pixel p)
  | .polyline ps color              => drawIn c color (.polyline ps)
  | .floodFill seed _ color         => do
    let (c, tally) ← fill rule c seed (Palette.color color)
    return (c, .filled tally)
  | .reset                          => do
    let c ← clear c Palette.background
    return (c, .cleared)

end PenStream.Strict
