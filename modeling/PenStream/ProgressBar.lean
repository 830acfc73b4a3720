namespace PenStream

namespace ProgressBar

def width : Nat := 20

-- How many of the cells are full; more than a hundred percent is a hundred.
def filled (progress width : Nat) : Nat :=
  min progress 100 * width / 100

theorem filled_le (progress width : Nat) : filled progress width ≤ width := by
  have : min progress 100 * width ≤ 100 * width :=
    Nat.mul_le_mul_right _ (Nat.min_le_right ..)
  simp only [filled]
  omega

def render (progress width : Nat) : String :=
  let full := filled progress width
  "DRAW: " ++ "".pushn '█' full ++ "".pushn '░' (width - full) ++ " " ++
    toString (min progress 100) ++ "%"

-- What is written when the bar is drawn in its place.
def redraw (percent : Nat) : String :=
  "\r" ++ render percent width

end ProgressBar

-- A bar on a terminal, which remembers the percentage that it shows.
structure ProgressBar where
  shown : Option Nat := none

namespace ProgressBar

-- Shows a percentage; gives the text that has to be written for it.
def update (bar : ProgressBar) (progress : Nat) : ProgressBar × String :=
  if bar.shown = some progress then
    (bar, "")
  else
    ({ shown := some progress }, redraw progress)

def finish (_ : ProgressBar) : String :=
  "\n"

end ProgressBar

end PenStream
