import PenStream.Instruction

namespace PenStream

-- A place among the parameters: the characters ahead, and how many have been taken.
structure Cursor where
  ahead : List Char
  taken : Nat := 0

abbrev Reading := StateM Cursor

namespace Reading

-- A numeral of the given width, or of what there is of it.
def numeral (width : Nat) : Reading (Fin (Nat.pow Numeral.radix width)) := fun c =>
  let token := c.ahead.take width
  (⟨Numeral.read token, Numeral.read_lt_of_length_le (List.length_take_le ..)⟩,
    { ahead := c.ahead.drop width, taken := c.taken + token.length })

def coordinate : Reading Coordinate :=
  numeral 2

def digit : Reading Digit :=
  numeral 1

def position : Reading Position :=
  return ⟨← coordinate, ← coordinate⟩

-- Whether at least `n` characters are ahead.
def reaches : (n : Nat) → List Char → Bool
  | 0,     _       => true
  | _ + 1, []      => false
  | n + 1, _ :: cs => reaches n cs

theorem reaches_iff {n : Nat} {cs : List Char} : reaches n cs ↔ n ≤ cs.length := by
  induction n generalizing cs with
  | zero => simp [reaches]
  | succ n ih => cases cs <;> simp [reaches, ih]

-- Up to `count` positions, as long as all four digits of the next one are there.
def positions : (count : Nat) → Reading (List Position)
  | 0         => return []
  | count + 1 => do
    if reaches 4 (← get).ahead then
      return (← position) :: (← positions count)
    else
      return []

-- The coordinate that follows, or `otherwise` where there is none.
def coordinateOr (otherwise : Coordinate) : Reading Coordinate := do
  if reaches 2 (← get).ahead then coordinate else return otherwise

end Reading

namespace Opcode

open Reading in
-- What an opcode makes of its parameters. An oval without a second radius is a circle.
def parameters : Opcode → Reading Instruction
  | color      => return .color (← digit) (← digit)
  | line       => return .line (← position) (← position)
  | rectangle  => return .rectangle (← position) (← position)
  | bar        => return .bar (← position) (← position)
  | circle     => return .circle (← position) (← coordinate)
  | oval       => do
    let center ← position
    let startAngle ← coordinate
    let endAngle ← coordinate
    let rx ← coordinate
    return .oval center startAngle endAngle rx (← coordinateOr rx)
  | pixel      => return .pixel (← position)
  | move       => return .move (← position)
  | lineTo     => return .lineTo (← position)
  | polyline   => return .polyline (← positions (← digit).val)
  | fillStyle  => return .fillStyle (← digit) (← digit)
  | floodFill  => return .floodFill (← position) (← digit)
  | reset      => return .reset
  | textWindow => return .textWindow (← position) (← position)

-- The instruction that an opcode finds ahead and the place behind it, if enough is there.
def read? (op : Opcode) (c : Cursor) : Option (Instruction × Cursor) :=
  if Reading.reaches op.minLength c.ahead then some ((op.parameters).run c) else none

end Opcode

end PenStream
