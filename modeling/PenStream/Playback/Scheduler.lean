import PenStream.Config
import PenStream.Playback.Session

namespace PenStream

structure Scheduler where
  generation : UInt64 := 0
  pacing : Pacing := {}
  rule : FloodFill := {}
deriving DecidableEq, Repr

namespace Scheduler

def ofConfig (config : Config) : Scheduler where
  pacing := config.pacing
  rule := config.floodFill

-- Begins a generation of which no session is.
def cancel (s : Scheduler) : Scheduler :=
  { s with generation := s.generation + 1 }

def isCurrent (s : Scheduler) (p : Session) : Bool :=
  p.generation = s.generation

-- Starts a session on a canvas in the background colour. The sessions before it are over even if
-- the size of the canvas is refused.
def start (s : Scheduler) (commands : Array Command) (width height : Nat) :
    Scheduler × Except SetupError Session :=
  let s := s.cancel
  (s, do
    let size ← Size.ofDimensions width height
    return {
      generation := s.generation
      commands
      size
      canvas := .uniform size Palette.background
      pacing := s.pacing
      rule := s.rule })

def play (s : Scheduler) (commands : Array Command) (width height : Nat) :
    Except SetupError (Session × Step) := do
  let (next, started) := s.start commands width height
  return (← started).finish next.generation

end Scheduler

end PenStream
