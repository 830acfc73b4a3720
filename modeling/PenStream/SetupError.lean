namespace PenStream

inductive SetupError
  -- A canvas needs pixels, and no more of them on a side than coordinates reach.
  | dimensions (width height : Nat)
  -- The size in a configuration has no pixels.
  | emptySize (width height : Nat)
  -- A fill with no room for pending pixels.
  | noPending
deriving DecidableEq, Repr

namespace SetupError

-- A size as messages show it.
def sizeText (width height : Nat) : String :=
  toString width ++ "x" ++ toString height

def message : SetupError → String
  | dimensions w h => "invalid surface dimensions " ++ sizeText w h
  | emptySize w h  =>
    "invalid configuration: surface size must be non-zero, got " ++ sizeText w h
  | noPending      => "invalid configuration: flood_fill.max_pending must be at least 1"

end SetupError

end PenStream
