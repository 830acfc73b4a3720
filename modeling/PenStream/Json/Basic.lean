namespace PenStream

inductive Json
  | null
  | bool (value : Bool)
  | integer (value : Int)
  -- A number written with a fraction or an exponent, as it is written.
  | decimal (text : String)
  | string (text : String)
  | array (items : List Json)
  | object (fields : List (String × Json))
deriving Inhabited

namespace Json

abbrev Fields := List (String × Json)

def natural (n : Nat) : Json :=
  .integer n

def uint8 (n : UInt8) : Json :=
  natural n.toNat

def within? (lo hi : Int) : Json → Option Int
  | integer n => if lo ≤ n ∧ n ≤ hi then some n else none
  | _         => none

def int32? : Json → Option Int :=
  within? (-0x80000000) 0x7FFFFFFF

def below? (limit : Nat) (j : Json) : Option Nat :=
  (j.within? 0 (limit - 1)).map Int.toNat

def natural32? : Json → Option Nat :=
  below? 0x100000000

def natural64? : Json → Option Nat :=
  below? 0x10000000000000000

def uint8? (j : Json) : Option UInt8 :=
  (j.below? 0x100).map UInt8.ofNat

def string? : Json → Option String
  | string s => some s
  | _        => none

def array? : Json → Option (List Json)
  | array items => some items
  | _           => none

-- What becomes of the items of an array that lists more than the fields of a record.
inductive Surplus
  | refused
  | ignored
deriving DecidableEq, Repr

-- The fields of a record whose field names are `names`.
def record? (surplus : Surplus) (names : List String) : Json → Option Fields
  | object fields => some fields
  | array items   =>
    if surplus = .ignored ∨ items.length ≤ names.length then some (names.zip items) else none
  | _             => none

namespace Fields

def values (fields : Fields) (name : String) : List Json :=
  fields.filterMap fun (key, value) => if key = name then some value else none

-- The value under a name, read by `read?`; the name has to be there once.
def get? (fields : Fields) (name : String) (read? : Json → Option α) : Option α :=
  match fields.values name with
  | [value] => read? value
  | _       => none

-- As `get?`, but a missing field has a default.
def getD? (fields : Fields) (name : String) (read? : Json → Option α) (default : α) : Option α :=
  match fields.values name with
  | []      => some default
  | [value] => read? value
  | _       => none

end Fields

end Json

end PenStream
