import PenStream.Playback.Session
import PenStream.Strict.Execute

namespace PenStream.Strict

def progress (p : Session) : Checked Nat :=
  if p.commands.isEmpty then
    pure 100
  else do
    require (p.commands.size ≠ 0) .zeroDivision
    return p.executed * 100 / p.commands.size

def advance (p : Session) (h : p.executed < p.commands.size) : Checked Session := do
  let (canvas, _) ← execute p.canvas p.rule p.commands[p.executed]
  return { p with executed := p.executed + 1, canvas, executed_le := h }

def step (p : Session) (current : UInt64) : Checked (Session × Step) :=
  if p.generation ≠ current then
    pure (p, .cancelled)
  else if h : p.executed < p.commands.size then do
    let next ← advance p h
    let percent ← progress next
    return (next, .drawn percent (p.pacing.delay p.commands[p.executed]))
  else
    pure (p, .finished 100)

-- So many steps at most.
def finishWithin (current : UInt64) : Nat → Session → Checked (Session × Step)
  | 0, _     => throw .endless
  | n + 1, p => do
    match ← step p current with
    | (next, .drawn ..) => finishWithin current n next
    | last              => return last

def finish (p : Session) (current : UInt64) : Checked (Session × Step) :=
  finishWithin current (p.remaining + 1) p

end PenStream.Strict
