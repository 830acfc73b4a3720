namespace PenStream.Toml

abbrev Reader := StateT (List Char) Option

namespace Reader

def any : Reader Char
  | []      => none
  | c :: cs => some (c, cs)

def satisfying (p : Char → Bool) : Reader Char := do
  let c ← any
  if p c then return c else failure

def char (c : Char) : Reader Unit :=
  discard (satisfying (· = c))

def string (s : String) : Reader Unit :=
  s.toList.forM char

-- The characters of a kind that come next, if any.
def takeWhile (p : Char → Bool) : Reader (List Char) := fun cs =>
  some (cs.takeWhile p, cs.dropWhile p)

-- As `takeWhile`, but at least one.
def takeSome (p : Char → Bool) : Reader (List Char) := do
  return (← satisfying p) :: (← takeWhile p)

def atEnd : Reader Unit := fun cs =>
  if cs.isEmpty then some ((), cs) else none

def manyInto (read : Reader α) : (limit : List Char) → List α → List Char → List α × List Char
  | [],         found, cs => (found.reverse, cs)
  | _ :: limit, found, cs =>
    match StateT.run read cs with
    | none           => (found.reverse, cs)
    | some (a, rest) => manyInto read limit (a :: found) rest

-- What a reader reads time and again; each time it has to take a character, so it reads no more
-- often than there are characters.
def many (read : Reader α) : Reader (List α) := fun cs =>
  some (manyInto read cs [] cs)

-- What a reader reads, at least once, with something between.
def separated (read : Reader α) (between : Reader Unit) : Reader (List α) := do
  return (← read) :: (← many (between *> read))

end Reader

end PenStream.Toml
