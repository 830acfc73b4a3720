import PenStream.Toml.Scalar

namespace PenStream.Toml

open Reader

abbrev Setting := List String × Value

def putSetting (entries : Entries) (s : Setting) : Option Entries := do
  let last ← s.1.getLast?
  entries.putAt s.1.dropLast last s.2

def setting (value : Reader Value) : Reader Setting := do
  let path ← key
  blanks
  char '='
  blanks
  return (path, ← value)

-- Values between brackets, over several lines if need be; a last comma is allowed.
def array (value : Reader Value) : Reader Value := do
  char '['
  gap
  let items ← (do
    let items ← separated value (gap *> char ',' *> gap)
    gap
    discard (optional (char ',' *> gap))
    return items) <|> return []
  char ']'
  return .array items

-- Settings between braces, on one line.
def inlineTable (value : Reader Value) : Reader Value := do
  char '\x7b'
  blanks
  let settings ← separated (setting value) (blanks *> char ',' *> blanks) <|> return []
  blanks
  char '\x7d'
  match settings.foldlM putSetting [] with
  | some entries => return .table .inline entries
  | none         => failure

-- A value in which at most `depth` arrays and tables are nested.
def valueWithin : (depth : Nat) → Reader Value
  | 0         => scalar
  | depth + 1 => array (valueWithin depth) <|> inlineTable (valueWithin depth) <|> scalar

def value : Reader Value :=
  valueWithin maxDepth

inductive Line
  | blank
  | setting (s : Setting)
  | header (path : List String)
  | nextHeader (path : List String)

def bracketed (opening closing : String) : Reader (List String) := do
  string opening
  blanks
  let path ← key
  blanks
  string closing
  return path

def line : Reader Line := do
  blanks
  let l ← (do return .nextHeader (← bracketed "[[" "]]")) <|>
    (do return .header (← bracketed "[" "]")) <|>
    (do return .setting (← setting value)) <|>
    return .blank
  lineEnd
  return l

-- A document under way: its entries so far, and the table to which settings belong.
structure Draft where
  entries : Entries := []
  current : List String := []

def Draft.add (d : Draft) : Line → Option Draft
  | .blank           => some d
  | .setting s       => do
    return { d with entries := ← d.entries.within (putSetting · s) d.current }
  | .header path     => do
    let last ← path.getLast?
    return { entries := ← d.entries.within (·.openTable last) path.dropLast, current := path }
  | .nextHeader path => do
    let last ← path.getLast?
    return { entries := ← d.entries.within (·.openNext last) path.dropLast, current := path }

-- The lines of a text, of which no more than `n` end before it does.
def linesUpTo : (n : Nat) → Draft → List Char → Option Draft
  | _,     d, []      => some d
  | 0,     _, _ :: _  => none
  | n + 1, d, c :: cs => do
    let (l, rest) ← StateT.run line (c :: cs)
    linesUpTo n (← d.add l) rest

-- The entries of a document; a mark of the byte order may come before it.
def parse? (text : String) : Option Entries :=
  let cs := match text.toList with
    | '\uFEFF' :: cs => cs
    | cs             => cs
  (linesUpTo cs.length {} cs).map Draft.entries

end PenStream.Toml
