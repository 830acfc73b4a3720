import PenStream.Json.Basic

namespace PenStream.Toml

-- How a table has come about. It is written in one place only, by a header, by dotted keys or
-- inline, and each of these closes it to the others.
inductive Form
  -- It is on the way to a table that a header names.
  | passed
  | dotted
  | header
  | inline
deriving DecidableEq, Repr

inductive Value
  | string (text : String)
  | integer (value : Int)
  -- As it is written.
  | float (text : String)
  | boolean (value : Bool)
  | dateTime (text : String)
  | array (items : List Value)
  | table (form : Form) (entries : List (String × Value))
  -- Tables that headers in double brackets have added one after another.
  | tables (items : List (List (String × Value)))

abbrev Entries := List (String × Value)

namespace Entries

-- Gives the key the value that `change` makes of its present one, if it has one.
def alter (key : String) (change : Option Value → Option Value) : Entries → Option Entries
  | []                => return [(key, ← change none)]
  | (k, v) :: entries =>
    if k = key then
      return (k, ← change (some v)) :: entries
    else
      return (k, v) :: (← alter key change entries)

def put (key : String) (value : Value) : Entries → Option Entries :=
  alter key fun
    | none   => some value
    | some _ => none

-- Sets a key at the end of a dotted path. The table that holds it has to have come about by dotted
-- keys; those before it may also be on the way to the table of a header, or tables in a row, of
-- which the last is meant.
def putAt : (path : List String) → (key : String) → Value → Entries → Option Entries
  | [],        key, value => put key value
  | k :: path, key, value =>
    alter k fun
      | none                          => (putAt path key value []).map (.table .dotted)
      | some (.table .dotted entries) => (putAt path key value entries).map (.table .dotted)
      | some (.table .passed entries) =>
        if path.isEmpty then none else (putAt path key value entries).map (.table .passed)
      | some (.tables items)          => do
        if path.isEmpty then none
        let last ← items.getLast?
        return .tables (items.dropLast ++ [← putAt path key value last])
      | some _                        => none

-- Changes the table under a path of headers; of tables in a row, the last is meant.
def within (change : Entries → Option Entries) : (path : List String) → Entries → Option Entries
  | []        => change
  | k :: path =>
    alter k fun
      | none                         => (within change path []).map (.table .passed)
      | some (.table .inline _)      => none
      | some (.table form entries)   => (within change path entries).map (.table form)
      | some (.tables items)         => do
        let last ← items.getLast?
        return .tables (items.dropLast ++ [← within change path last])
      | some _                       => none

def openTable (key : String) : Entries → Option Entries :=
  alter key fun
    | none                          => some (.table .header [])
    | some (.table .passed entries) => some (.table .header entries)
    | some _                        => none

-- Begins one more of the tables in a row.
def openNext (key : String) : Entries → Option Entries :=
  alter key fun
    | none                 => some (.tables [[]])
    | some (.tables items) => some (.tables (items ++ [[]]))
    | some _               => none

end Entries

mutual

-- The same data; a date and time is an object with its text.
def Value.toJson : Value → Json
  | .string text     => .string text
  | .integer n       => .integer n
  | .float text      => .decimal text
  | .boolean b       => .bool b
  | .dateTime text   => .object [("$datetime", .string text)]
  | .array items     => .array (listToJson items)
  | .table _ entries => .object (entriesToJson entries)
  | .tables items    => .array (tablesToJson items)

def listToJson : List Value → List Json
  | []            => []
  | item :: items => item.toJson :: listToJson items

def entriesToJson : List (String × Value) → List (String × Json)
  | []                => []
  | (k, v) :: entries => (k, v.toJson) :: entriesToJson entries

def tablesToJson : List (List (String × Value)) → List Json
  | []            => []
  | item :: items => .object (entriesToJson item) :: tablesToJson items

end

end PenStream.Toml
