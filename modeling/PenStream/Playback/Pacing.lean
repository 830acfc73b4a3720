import PenStream.Command

namespace PenStream

-- Delays in milliseconds.
structure Pacing where
  pixelDelay : Nat := 1
  stepDelay : Nat := 20
deriving DecidableEq, Repr

-- Single pixels have a delay of their own.
def Pacing.delay (p : Pacing) (c : Command) : Nat :=
  if c.isPixel then p.pixelDelay else p.stepDelay

end PenStream
