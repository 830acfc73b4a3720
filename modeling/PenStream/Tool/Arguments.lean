namespace PenStream.Tool

inductive Stop
  | usage
  | help
  | version
deriving DecidableEq, Repr

structure OptionSpec where
  long : String
  short : Option Char := none
  -- Which values are accepted; an option that takes no value has no such rule.
  accepts : Option (String → Bool) := none

structure CommandSpec where
  options : List OptionSpec
  -- How many words may follow.
  words : Nat := 0
  -- Whether the first word begins another command, to which the rest belongs.
  hasCommands : Bool := false
  hasVersion : Bool := false

-- What has been given. An option without a value is given with an empty one.
structure Given where
  options : List (String × String) := []
  words : List String := []
  -- The name of the command that begins, and its arguments.
  command : Option (String × List String) := none

namespace Given

def has (g : Given) (option : String) : Bool :=
  g.options.any (·.1 = option)

def value? (g : Given) (option : String) : Option String :=
  g.options.lookup option

-- An option may be given once.
def addOption (g : Given) (option value : String) : Except Stop Given :=
  if g.has option then .error .usage
  else .ok { g with options := (option, value) :: g.options }

-- A word is never empty.
def addWord (spec : CommandSpec) (g : Given) (word : String) : Except Stop Given :=
  if g.words.length < spec.words ∧ word ≠ "" then .ok { g with words := g.words ++ [word] }
  else .error .usage

end Given

-- Whether an argument is an option rather than a word.
def isOption (arg : List Char) : Bool :=
  match arg with
  | ['-']    => false
  | '-' :: _ => true
  | _        => false

namespace CommandSpec

-- An option with its value, which has to be accepted.
def setValue (g : Given) (option : OptionSpec) (accepts : String → Bool) (value : List Char) :
    Except Stop Given :=
  if accepts (.ofList value) then g.addOption option.long (.ofList value) else .error .usage

-- The value of an option that is the next argument.
def takeValue (g : Given) (option : OptionSpec) (accepts : String → Bool) :
    List (List Char) → Except Stop (Given × List (List Char))
  | []            => .error .usage
  | value :: rest => do
    if isOption value then throw .usage
    return (← setValue g option accepts value, rest)

-- The name and, behind a sign of equality, the value of an option with two hyphens.
def splitValue (arg : List Char) : String × Option (List Char) :=
  (.ofList (arg.takeWhile (· ≠ '=')),
    match arg.dropWhile (· ≠ '=') with
    | []         => none
    | _ :: value => some value)

-- An option with two hyphens, without these.
def long (spec : CommandSpec) (g : Given) (arg : List Char) (rest : List (List Char)) :
    Except Stop (Given × List (List Char)) :=
  let (name, value?) := splitValue arg
  match spec.options.find? (·.long = name), value? with
  | some option, value? =>
    match option.accepts, value? with
    | none,         none       => return (← g.addOption name "", rest)
    | none,         some _     => throw .usage
    | some accepts, none       => takeValue g option accepts rest
    | some accepts, some value => return (← setValue g option accepts value, rest)
  | none, none =>
    if name = "help" then throw .help
    else if name = "version" ∧ spec.hasVersion then throw .version
    else throw .usage
  | none, some _ => throw .usage

-- Options of one letter each, without their hyphen; what follows one with a value is the value.
def shorts (spec : CommandSpec) (g : Given) (rest : List (List Char)) :
    List Char → Except Stop (Given × List (List Char))
  | []      => return (g, rest)
  | c :: cs =>
    match spec.options.find? (·.short = some c) with
    | some option =>
      match option.accepts, cs with
      | none,         cs           => do spec.shorts (← g.addOption option.long "") rest cs
      | some accepts, []           => takeValue g option accepts rest
      | some accepts, '=' :: value => return (← setValue g option accepts value, rest)
      | some accepts, value        => return (← setValue g option accepts value, rest)
    | none        =>
      if c = 'h' then throw .help
      else if c = 'V' ∧ spec.hasVersion then throw .version
      else throw .usage

-- Reads arguments, of which there are no more than `n`.
def readUpTo (spec : CommandSpec) : (n : Nat) → Given → List (List Char) → Except Stop Given
  | 0,     g, _           => return g
  | _ + 1, g, []          => return g
  | n + 1, g, arg :: rest =>
    match arg with
    | ['-', '-']        => rest.foldlM (fun g word => g.addWord spec (.ofList word)) g
    | '-' :: '-' :: arg => do
      let (g, rest) ← spec.long g arg rest
      spec.readUpTo n g rest
    | '-' :: c :: cs    => do
      let (g, rest) ← spec.shorts g rest (c :: cs)
      spec.readUpTo n g rest
    | word              =>
      if spec.hasCommands then
        return { g with command := some (.ofList word, rest.map String.ofList) }
      else do
        spec.readUpTo n (← g.addWord spec (.ofList word)) rest

def read (spec : CommandSpec) (args : List String) : Except Stop Given :=
  spec.readUpTo args.length {} (args.map String.toList)

end CommandSpec

end PenStream.Tool
