namespace PenStream

structure Color where
  r : UInt8 := 0
  g : UInt8 := 0
  b : UInt8 := 0
  a : UInt8 := 0
deriving DecidableEq, Repr, Inhabited

namespace Color

-- The colour of a canvas on which nothing has been drawn.
def clear : Color := {}

-- The solid colour of the low 24 bits, red the highest byte.
def ofRgb24 (n : Nat) : Color where
  r := .ofNat (n / 0x10000)
  g := .ofNat (n / 0x100)
  b := .ofNat n
  a := 255

def rgb24 (c : Color) : Nat :=
  c.r.toNat * 0x10000 + c.g.toNat * 0x100 + c.b.toNat

def solid (c : Color) : Color :=
  { c with a := 255 }

def isSolid (c : Color) : Bool :=
  c.a = 255

def sameRgb (c d : Color) : Bool :=
  c.r = d.r && c.g = d.g && c.b = d.b

def distance (u v : UInt8) : Nat :=
  (u.toNat - v.toNat) + (v.toNat - u.toNat)

-- Whether no channel differs by more than the tolerance; alpha is left out, for all that is drawn
-- is solid.
def within (tolerance : UInt8) (c d : Color) : Bool :=
  distance c.r d.r ≤ tolerance.toNat && distance c.g d.g ≤ tolerance.toNat &&
    distance c.b d.b ≤ tolerance.toNat

def bytes (c : Color) : List UInt8 :=
  [c.r, c.g, c.b, c.a]

end Color

end PenStream
