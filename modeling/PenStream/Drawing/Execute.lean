import PenStream.Command
import PenStream.Drawing.FloodFill
import PenStream.Drawing.Shape
import PenStream.Palette

namespace PenStream

inductive Effect
  | setting
  | drawn
  | filled (tally : FillTally)
  | cleared
deriving DecidableEq, Repr

namespace Canvas

variable {s : Size}

def drawIn (c : Canvas s) (color : ColorIndex) (shape : Shape) : Canvas s × Effect :=
  (c.draw { line := Palette.color color, fill := Palette.color color } shape, .drawn)

def execute (c : Canvas s) (rule : FloodFill) : Command → Canvas s × Effect
  | .setColors ..                  => (c, .setting)
  | .setFill ..                    => (c, .setting)
  | .moveTo ..                     => (c, .setting)
  | .defineWindow ..               => (c, .setting)
  | .line p q color                => c.drawIn color (.line p q)
  | .lineTo p q color              => c.drawIn color (.line p q)
  | .rectangle p q color           => c.drawIn color (.rectangle p q)
  | .bar p q color                 => c.drawIn color (.bar p q)
  | .circle center r color         => c.drawIn color (.circle center r)
  | .ellipse center _ _ rx ry color => c.drawIn color (.ellipse center rx ry)
  | .pixel p color                 => c.drawIn color (.pixel p)
  | .polyline ps color             => c.drawIn color (.polyline ps)
  | .floodFill seed _ color        =>
    let (c, tally) := rule.fill c seed (Palette.color color)
    (c, .filled tally)
  | .reset                         => (c.clear Palette.background, .cleared)

def executeAll (c : Canvas s) (rule : FloodFill) (commands : List Command) : Canvas s :=
  commands.foldl (fun c command => (c.execute rule command).1) c

end Canvas

end PenStream
