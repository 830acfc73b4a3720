import PenStream.Canvas.Run

namespace PenStream

inductive AccessError
  -- No such row; it is counted in 32 bits, so that one above the canvas comes very late.
  | row (row height : Nat)
  -- The row has no such places.
  | column
  -- The bytes are not as many as those of a row.
  | length
deriving DecidableEq, Repr

namespace AccessError

def message? : AccessError → Option String
  | row r h => some ("row " ++ toString r ++ " out of bounds (height=" ++ toString h ++ ")")
  | column  => none
  | length  => none

end AccessError

namespace Canvas

variable {s : Size}

-- The row of a number that has to be one.
def row (s : Size) (y : Nat) : Except AccessError (Fin s.height) :=
  if h : y < s.height then .ok ⟨y, h⟩ else .error (.row y s.height)

-- A vertical coordinate as the number of a row.
def rowNumber (y : Int) : Nat :=
  (y % 0x100000000).toNat

-- The cell of a row in a column that has to be there.
def cell (y : Fin s.height) (x : Int) : Except AccessError (Cell s) :=
  if h : 0 ≤ x ∧ x < s.width then .ok ⟨⟨x.toNat, by omega⟩, y⟩ else .error .column

def read (c : Canvas s) (p : Point) : Except AccessError Color := do
  let y ← row s (rowNumber p.y)
  return c.get (← cell y p.x)

def write (c : Canvas s) (color : Color) (p : Point) : Except AccessError (Canvas s) := do
  let y ← row s (rowNumber p.y)
  return c.set (← cell y p.x) color

-- A run of `len` places of a row; an empty run has to start no later than the row ends.
def writeRow (c : Canvas s) (color : Color) (p : Point) (len : Nat) :
    Except AccessError (Canvas s) := do
  let y ← row s (rowNumber p.y)
  if h : 0 ≤ p.x ∧ p.x + len ≤ s.width then
    return c.paintRow color y p.x.toNat len (by omega)
  else
    throw .column

-- Lengths of columns are counted in 32 bits with sign, and a run of a negative length is empty.
def columnLength (len : Nat) : Nat :=
  if len < 0x80000000 then len else 0

def writeDown (c : Canvas s) (color : Color) (p : Point) :
    (len : Nat) → Except AccessError (Canvas s)
  | 0       => .ok c
  | len + 1 => do (← c.write color p).writeDown color ⟨p.x, p.y + 1⟩ len

-- A run of places of a column, one after another; an empty run touches none.
def writeColumn (c : Canvas s) (color : Color) (p : Point) (len : Nat) :
    Except AccessError (Canvas s) :=
  c.writeDown color p (columnLength len)

end Canvas

end PenStream
