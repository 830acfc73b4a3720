import PenStream.Canvas.Bytes
import PenStream.Strict.Word

namespace PenStream.Strict

variable {s : Size}

-- The row at a height, with its bytes among those of the canvas.
def row (s : Size) (y : Int) : Checked (Fin s.height) := do
  let y ← access (Canvas.row s (Canvas.rowNumber y))
  let stride ← size (s.width * Canvas.cellBytes)
  let first ← size (y * stride)
  let last ← size (first + stride)
  require (last ≤ s.area * Canvas.cellBytes) .range
  return y

-- The bytes of `len` cells from the column `x` on have to be among those of a row.
def span (s : Size) (x len : Int) : Checked Unit := do
  let first ← size (x * Canvas.cellBytes)
  let length ← size (len * Canvas.cellBytes)
  let last ← size (first + length)
  require (last ≤ Canvas.stride s) .range

def put (c : Canvas s) (color : Color) (p : Point) : Checked (Canvas s) := do
  let _ ← row s p.y
  span s p.x 1
  access (c.write color p)

def putRow (c : Canvas s) (color : Color) (p : Point) (len : Nat) : Checked (Canvas s) := do
  let _ ← row s p.y
  span s p.x len
  access (c.writeRow color p len)

def putDown (c : Canvas s) (color : Color) (p : Point) : (len : Nat) → Checked (Canvas s)
  | 0       => pure c
  | len + 1 => do putDown (← put c color p) color ⟨p.x, p.y + 1⟩ len

def putColumn (c : Canvas s) (color : Color) (p : Point) (len : Nat) : Checked (Canvas s) := do
  let _ ← int32 (p.y + len)
  putDown c color p len

-- Rows of the same length, one below the other.
def putBlock (c : Canvas s) (color : Color) (p : Point) (len : Nat) :
    (rows : Nat) → Checked (Canvas s)
  | 0        => pure c
  | rows + 1 => do putBlock (← putRow c color p len) color ⟨p.x, p.y + 1⟩ len rows

def bounds (s : Size) : Checked Box := do
  let right ← int32 (s.width - 1)
  let bottom ← int32 (s.height - 1)
  return ⟨0, 0, right, bottom⟩

-- How many numbers there are from one to another.
def extent (first last : Int) : Checked Int := do
  let difference ← int32 (last - first)
  int32 (difference + 1)

def plot (c : Canvas s) (color : Color) (p : Point) : Checked (Canvas s) := do
  let box ← bounds s
  if box.contains p then put c color p else return c

def hline (c : Canvas s) (color : Color) (x₁ x₂ y : Int) : Checked (Canvas s) := do
  let box ← bounds s
  let left := min x₁ x₂
  let right := max x₁ x₂
  if y > box.bottom ∨ y < box.top ∨ left > box.right ∨ right < box.left then
    return c
  else
    let left := max left box.left
    let len ← extent left (min right box.right)
    putRow c color ⟨left, y⟩ len.toNat

def vline (c : Canvas s) (color : Color) (x y₁ y₂ : Int) : Checked (Canvas s) := do
  let box ← bounds s
  let top := min y₁ y₂
  let bottom := max y₁ y₂
  if x > box.right ∨ x < box.left ∨ top > box.bottom ∨ bottom < box.top then
    return c
  else
    let top := max top box.top
    let len ← extent top (min bottom box.bottom)
    putColumn c color ⟨x, top⟩ len.toNat

def bar (c : Canvas s) (color : Color) (p q : Point) : Checked (Canvas s) := do
  let box := (Box.ofCorners p q).clip (← bounds s)
  if box.isValid then
    let len ← extent box.left box.right
    putBlock c color ⟨box.left, box.top⟩ len.toNat (box.bottom - box.top + 1).toNat
  else
    return c

def clear (c : Canvas s) (color : Color) : Checked (Canvas s) :=
  putBlock c color ⟨0, 0⟩ s.width s.height

end PenStream.Strict
