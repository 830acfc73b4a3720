import PenStream.Point

namespace PenStream

-- A place on the walk along a quadrant.
structure Arc where
  -- The squares of the radii.
  xx : Int
  yy : Int
  -- What the error gains by a move on either axis, without the square that each move adds.
  gainX : Int
  gainY : Int
  error : Int
  offset : Point
deriving DecidableEq, Repr

namespace Arc

inductive Move
  | across
  | down
  | both
deriving DecidableEq, Repr

def Move.offset : Move → Point
  | across => ⟨1, 0⟩
  | down   => ⟨0, 1⟩
  | both   => ⟨1, 1⟩

def top (rx ry : Int) : Arc where
  xx := rx * rx
  yy := ry * ry
  gainX := 0
  gainY := -ry * (2 * (rx * rx))
  error := 0
  offset := ⟨0, -ry⟩

def errorAfter (a : Arc) : Move → Int
  | .across => a.error + a.gainX + a.yy
  | .down   => a.error + a.gainY + a.xx
  | .both   => a.error + a.gainX + a.yy + a.gainY + a.xx

-- The move after which the error is least; of equals across wins, and then down.
def move (a : Arc) : Move :=
  let across := (a.errorAfter .across).natAbs
  let down := (a.errorAfter .down).natAbs
  if (a.errorAfter .both).natAbs < min across down then .both
  else if across ≤ down then .across
  else .down

def step (a : Arc) : Arc :=
  let m := a.move
  { a with
    gainX := a.gainX + m.offset.x * (2 * a.yy)
    gainY := a.gainY + m.offset.y * (2 * a.xx)
    error := a.errorAfter m
    offset := ⟨a.offset.x + m.offset.x, a.offset.y + m.offset.y⟩ }

-- Whether the walk has come down to the height of the centre.
def isLevel (a : Arc) : Bool :=
  a.offset.y ≥ 0

end Arc

end PenStream
