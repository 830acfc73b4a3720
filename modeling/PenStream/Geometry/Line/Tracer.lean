import PenStream.Geometry.Line
import PenStream.Iteration

namespace PenStream.Line

structure Tracer where
  line : Line
  remaining : Nat

namespace Tracer

def between (start stop : Point) : Tracer :=
  let line := Line.between start stop
  { line, remaining := line.length + 1 }

-- The next pixel, after which the line is a step further; also after the last one.
def next? (t : Tracer) : Option (Point × Tracer) :=
  match t.remaining with
  | 0             => none
  | remaining + 1 => some (t.line.point, { line := t.line.step, remaining })

-- How many pixels there are at least, and at most if that is known.
def sizeHint (t : Tracer) : Nat × Option Nat :=
  (t.remaining, some t.remaining)

theorem yields_take (t : Tracer) :
    Iteration.Yields next? t (Walk.take Line.step Line.point t.remaining t.line) := by
  obtain ⟨line, remaining⟩ := t
  induction remaining generalizing line with
  | zero            => exact .done rfl
  | succ n hi =>
    rw [Walk.take_succ]
    exact .next rfl (hi line.step)

theorem yields_pixels (start stop : Point) :
    Iteration.Yields next? (between start stop) (pixels start stop) :=
  yields_take (between start stop)

theorem remaining_eq {t : Tracer} {ps : List Point} (h : Iteration.Yields next? t ps) :
    t.remaining = ps.length := by
  induction h with
  | @done t h =>
    unfold next? at h
    split at h
    case h_1 hz => exact hz
    case h_2    => contradiction
  | @next t u p ps h _ hi =>
    unfold next? at h
    split at h
    case h_1      => contradiction
    case h_2 n hn =>
      obtain ⟨rfl, rfl⟩ := Prod.mk.inj (Option.some_inj.mp h)
      rw [hn, List.length_cons, ← hi]

end Tracer

end PenStream.Line
