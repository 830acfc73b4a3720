import PenStream.Canvas.Access

namespace PenStream.Canvas

variable {s : Size}

abbrev cellBytes : Nat := 4

def stride (s : Size) : Nat :=
  s.width * cellBytes

-- The place of the first byte of the cell at `x` and `y`.
def offset (s : Size) (x y : Nat) : Nat :=
  y * stride s + x * cellBytes

def bytes (c : Canvas s) : List UInt8 :=
  c.pixels.toList.flatMap Color.bytes

-- The colours whose bytes these are; bytes too few for a colour are left out.
def colorsOfBytes : List UInt8 → List Color
  | r :: g :: b :: a :: rest => { r, g, b, a } :: colorsOfBytes rest
  | _                        => []

def rowColors (c : Canvas s) (y : Fin s.height) : List Color :=
  (List.finRange s.width).map fun x => c.get ⟨x, y⟩

def rowBytes (c : Canvas s) (y : Nat) : Except AccessError (List UInt8) := do
  let y ← row s y
  return (c.rowColors y).flatMap Color.bytes

def writeRowBytes (c : Canvas s) (y : Nat) (bytes : List UInt8) :
    Except AccessError (Canvas s) := do
  let y ← row s y
  if bytes.length = stride s then
    let colors := (List.finRange s.width).zip (colorsOfBytes bytes)
    return colors.foldl (fun c (x, color) => c.set ⟨x, y⟩ color) c
  else
    throw .length

end PenStream.Canvas
