import PenStream.Playback.Scheduler

namespace PenStream

inductive Event
  | started (i : Nat) (commands : Array Command) (size : Size)
  -- A start that came to nothing because of the size it was given.
  | refused
  | cancelled
  -- A session has been stepped, run or finished.
  | driven (i : Nat)

-- Whether it is a start or a cancellation.
def Event.begins : Event → Bool
  | driven _ => false
  | _        => true

-- What a clone of a scheduler has for itself; the generation it shares with all others.
structure Clone where
  pacing : Pacing
  rule : FloodFill

def Clone.scheduler (c : Clone) (generation : UInt64) : Scheduler :=
  { generation, pacing := c.pacing, rule := c.rule }

-- A scheduler, its clones and all sessions started through them.
structure Stage where
  generation : UInt64
  clones : List Clone
  sessions : List Session := []
  -- The sessions with a run going on. Nothing else can be done with them meanwhile.
  running : List Nat := []
  -- What has been done, the latest first.
  journal : List Event := []

namespace Stage

-- Before anything has been done with a scheduler.
def fresh (s : Scheduler) : Stage where
  generation := s.generation
  clones := [⟨s.pacing, s.rule⟩]

def clone (s : Stage) (c : Clone) : Stage :=
  { s with clones := c :: s.clones }

def start (s : Stage) (c : Clone) (commands : Array Command) (width height : Nat) : Stage :=
  match (c.scheduler s.generation).start commands width height with
  | (scheduler, .ok p)    =>
    { s with
      generation := scheduler.generation
      sessions := s.sessions ++ [p]
      journal := .started s.sessions.length p.commands p.size :: s.journal }
  | (scheduler, .error _) =>
    { s with generation := scheduler.generation, journal := .refused :: s.journal }

def cancel (s : Stage) (c : Clone) : Stage :=
  { s with
    generation := (c.scheduler s.generation).cancel.generation
    journal := .cancelled :: s.journal }

def isCurrent (s : Stage) (p : Session) : Bool :=
  ({ generation := s.generation } : Scheduler).isCurrent p

-- How many starts and cancellations there have been.
def beginnings (s : Stage) : Nat :=
  s.journal.countP Event.begins

def beginning? (s : Stage) : Option Event :=
  s.journal.find? Event.begins

-- A session, unless a run of it is going on.
def idle? (s : Stage) (i : Nat) : Option Session :=
  if i ∈ s.running then none else s.sessions[i]?

-- A session has been driven so far.
def put (s : Stage) (i : Nat) (p : Session) : Stage :=
  { s with sessions := s.sessions.set i p, journal := .driven i :: s.journal }

def step (s : Stage) (i : Nat) : Option (Stage × Step) := do
  let p ← s.idle? i
  let (p, last) := p.step s.generation
  return (s.put i p, last)

def finish (s : Stage) (i : Nat) : Option (Stage × Step) := do
  let p ← s.idle? i
  let (p, last) := p.finish s.generation
  return (s.put i p, last)

-- What a run calls back. It can do with the stage whatever it likes, and remember things.
structure Callbacks (σ : Type) where
  progress : Nat → StateM (Stage × σ) Unit
  sleep : Nat → StateM (Stage × σ) Unit

def Callbacks.watcher (k : Callbacks σ) : Session.Watcher (StateM (Stage × σ)) where
  current := do return (← get).1.generation
  progress := k.progress
  sleep := k.sleep

-- The stage as the callbacks of a run find it.
def lend (s : Stage) (i : Nat) : Stage :=
  { s with running := i :: s.running }

def run (s : Stage) (i : Nat) (k : Callbacks σ) (memory : σ) : Option (Stage × Step) := do
  let p ← s.idle? i
  let ((p, last), (t, _)) := (p.run k.watcher).run (s.lend i, memory)
  return ({ t with running := s.running }.put i p, last)

-- One stage comes from another by whatever can be done, in whatever order. The callbacks of a run
-- are held to the same, so that they may start sessions, cancel them and drive all others.
inductive Reaches : Stage → Stage → Prop
  | refl : Reaches s s
  | clone : Reaches s t → c ∈ t.clones → Reaches s (t.clone c)
  | start : Reaches s t → c ∈ t.clones → Reaches s (t.start c commands width height)
  | cancel : Reaches s t → c ∈ t.clones → Reaches s (t.cancel c)
  | step : Reaches s t → t.step i = some (u, last) → Reaches s u
  | finish : Reaches s t → t.finish i = some (u, last) → Reaches s u
  -- In the middle of a run.
  | lend : Reaches s t → (t.idle? i).isSome → Reaches s (t.lend i)
  | run {k : Callbacks σ} :
    Reaches s t → (∀ n v m, Reaches v ((k.progress n).run (v, m)).2.1) →
    (∀ n v m, Reaches v ((k.sleep n).run (v, m)).2.1) → t.run i k memory = some (u, last) →
    Reaches s u

end Stage

end PenStream
