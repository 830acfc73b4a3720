import PenStream.Tool.Arguments

namespace PenStream.Tool

structure RenderOptions where
  input : String
  output : String := "out.png"
  width : Option Nat := none
  height : Option Nat := none
  config : Option String := none
  animate : Bool := false
  raw : Bool := false
deriving DecidableEq, Repr

structure DecodeOptions where
  input : String
  json : Bool := false
  raw : Bool := false
deriving DecidableEq, Repr

inductive Request
  | render (options : RenderOptions)
  | decode (options : DecodeOptions)
  | opcodes
deriving DecidableEq, Repr

namespace Request

-- A whole number with an optional sign that fits into 32 bits.
def size? (s : String) : Option Nat :=
  match s.toList with
  | '+' :: digits => number? digits
  | '-' :: digits => (number? digits).filter (· = 0)
  | digits        => number? digits
where
  number? (digits : List Char) : Option Nat :=
    if digits.isEmpty || !digits.all Char.isDigit then none
    else
      let n := digits.foldl (fun n d => 10 * n + (d.toNat - '0'.toNat)) 0
      if n < 0x100000000 then some n else none

def isSize (s : String) : Bool :=
  (size? s).isSome

def isPath (s : String) : Bool :=
  s ≠ ""

def verbose : OptionSpec :=
  { long := "verbose", short := some 'v' }

def raw : OptionSpec :=
  { long := "raw" }

def topSpec : CommandSpec where
  options := [verbose]
  hasCommands := true
  hasVersion := true

def renderSpec : CommandSpec where
  options :=
    [verbose, raw, { long := "output", short := some 'o', accepts := some isPath },
     { long := "width", accepts := some isSize }, { long := "height", accepts := some isSize },
     { long := "config", short := some 'c', accepts := some isPath },
     { long := "animate", short := some 'a' }]
  words := 1

def decodeSpec : CommandSpec where
  options := [verbose, raw, { long := "json" }]
  words := 1

def opcodesSpec : CommandSpec where
  options := [verbose]

def input (g : Given) : Except Stop String :=
  match g.words with
  | [path] => return path
  | _      => throw .usage

def readRender (args : List String) : Except Stop RenderOptions := do
  let g ← renderSpec.read args
  let path ← input g
  return {
    input := path
    output := (g.value? "output").getD "out.png"
    width := (g.value? "width").bind size?
    height := (g.value? "height").bind size?
    config := g.value? "config"
    animate := g.has "animate"
    raw := g.has "raw" }

def readDecode (args : List String) : Except Stop DecodeOptions := do
  let g ← decodeSpec.read args
  let path ← input g
  return { input := path, json := g.has "json", raw := g.has "raw" }

-- The request that the arguments make, unless they are at fault or ask for help.
def read (args : List String) : Except Stop Request := do
  let g ← topSpec.read args
  match g.command with
  | some ("render", args)  => return .render (← readRender args)
  | some ("decode", args)  => return .decode (← readDecode args)
  | some ("opcodes", args) => do
    discard (opcodesSpec.read args)
    return .opcodes
  | some ("help", [])      => throw .help
  | some ("help", [name])  =>
    if name ∈ ["render", "decode", "opcodes", "help"] then throw .help else throw .usage
  | _                      => throw .usage

end Request

end PenStream.Tool
