import PenStream.Instruction.Reading
import PenStream.Strict.Word

namespace PenStream.Strict

-- Reading for which every numeral has to be there in full.
abbrev Reading := StateT Cursor Checked

namespace Reading

def numeral (width : Nat) : Reading (Fin (Nat.pow Numeral.radix width)) := fun c => do
  require (width ≤ c.ahead.length) .range
  return (PenStream.Reading.numeral width).run c

def coordinate : Reading Coordinate :=
  numeral 2

def digit : Reading Digit :=
  numeral 1

def position : Reading Position :=
  return ⟨← coordinate, ← coordinate⟩

def positions : (count : Nat) → Reading (List Position)
  | 0         => return []
  | count + 1 => do
    if PenStream.Reading.reaches 4 (← get).ahead then
      return (← position) :: (← positions count)
    else
      return []

def coordinateOr (otherwise : Coordinate) : Reading Coordinate := do
  if PenStream.Reading.reaches 2 (← get).ahead then coordinate else return otherwise

end Reading

open Strict.Reading in
def parameters : Opcode → Reading Instruction
  | .color      => return .color (← digit) (← digit)
  | .line       => return .line (← position) (← position)
  | .rectangle  => return .rectangle (← position) (← position)
  | .bar        => return .bar (← position) (← position)
  | .circle     => return .circle (← position) (← coordinate)
  | .oval       => do
    let center ← position
    let startAngle ← coordinate
    let endAngle ← coordinate
    let rx ← coordinate
    return .oval center startAngle endAngle rx (← coordinateOr rx)
  | .pixel      => return .pixel (← position)
  | .move       => return .move (← position)
  | .lineTo     => return .lineTo (← position)
  | .polyline   => return .polyline (← positions (← digit).val)
  | .fillStyle  => return .fillStyle (← digit) (← digit)
  | .floodFill  => return .floodFill (← position) (← digit)
  | .reset      => return .reset
  | .textWindow => return .textWindow (← position) (← position)

def read? (op : Opcode) (c : Cursor) : Checked (Option (Instruction × Cursor)) :=
  if PenStream.Reading.reaches op.minLength c.ahead then some <$> (parameters op).run c
  else pure none

end PenStream.Strict
