import PenStream.Drawing.FloodFill
import PenStream.Playback.Pacing
import PenStream.SetupError

namespace PenStream

structure Config where
  width : Nat := 640
  height : Nat := 350
  pacing : Pacing := {}
  floodFill : FloodFill := {}
deriving DecidableEq, Repr

-- A picture needs pixels, and a fill needs room for a place; the size is looked at first.
def Config.validate (c : Config) : Except SetupError Unit :=
  if c.width = 0 ∨ c.height = 0 then
    .error (.emptySize c.width c.height)
  else if c.floodFill.maxPending = 0 then
    .error .noPending
  else
    .ok ()

end PenStream
