import PenStream.Drawing.Execute
import PenStream.Playback.Pacing

namespace PenStream

structure Session where
  generation : UInt64
  commands : Array Command
  executed : Nat := 0
  size : Size
  canvas : Canvas size
  pacing : Pacing
  rule : FloodFill
  executed_le : executed ≤ commands.size := by omega

inductive Step
  -- One command has been executed; so many percent of all are, and a pause is due.
  | drawn (progress delay : Nat)
  | finished (progress : Nat)
  | cancelled
deriving DecidableEq, Repr

namespace Session

-- The commands executed, in percent, rounded down.
def progress (p : Session) : Nat :=
  if p.commands.isEmpty then 100 else p.executed * 100 / p.commands.size

def isFinished (p : Session) : Bool :=
  p.commands.size ≤ p.executed

def remaining (p : Session) : Nat :=
  p.commands.size - p.executed

def advance (p : Session) (h : p.executed < p.commands.size) : Session :=
  { p with
    executed := p.executed + 1
    canvas := (p.canvas.execute p.rule p.commands[p.executed]).1
    executed_le := h }

-- Executes the next command, provided that the session is of the current generation.
def step (p : Session) (current : UInt64) : Session × Step :=
  if p.generation ≠ current then
    (p, .cancelled)
  else if h : p.executed < p.commands.size then
    let delay := p.pacing.delay p.commands[p.executed]
    let next := p.advance h
    (next, .drawn next.progress delay)
  else
    (p, .finished 100)

theorem remaining_of_drawn {p q : Session} {current : UInt64} {progress delay : Nat}
    (h : p.step current = (q, .drawn progress delay)) : q.remaining + 1 = p.remaining := by
  unfold step at h
  split at h
  case isTrue => simp at h
  split at h
  case isFalse => simp at h
  case isTrue hlt =>
    simp only [Prod.mk.injEq] at h
    rw [← h.1]
    simp only [remaining, advance]
    omega

-- Whoever drives a session: it knows the current generation, sees the progress and waits.
structure Watcher (m : Type → Type) where
  current : m UInt64
  progress : Nat → m Unit
  sleep : Nat → m Unit

-- Steps until the session is finished or cancelled. After each command the watcher sees the
-- progress and then waits, if a pause is due; either may cancel the session or start another.
def run [Monad m] (watcher : Watcher m) (p : Session) : m (Session × Step) := do
  let current ← watcher.current
  match _h : p.step current with
  | (next, .drawn progress delay) =>
    watcher.progress progress
    if delay ≠ 0 then
      watcher.sleep delay
    next.run watcher
  | last => return last
termination_by p.remaining
decreasing_by
  have := remaining_of_drawn ‹_›
  omega

-- A watcher in whose eyes nothing happens.
def Watcher.silent (current : UInt64) : Watcher Id where
  current := pure current
  progress _ := pure ()
  sleep _ := pure ()

-- Executes what is left without a pause.
def finish (p : Session) (current : UInt64) : Session × Step :=
  Id.run (p.run (.silent current))

end Session

end PenStream
