import PenStream.Toml.Reader

namespace PenStream.Toml

open Reader

def isBlank (c : Char) : Bool :=
  c = ' ' || c = '\t'

-- What may stand in a comment.
def isPlain (c : Char) : Bool :=
  c = '\t' || (0x20 ≤ c.toNat && c.toNat ≠ 0x7F)

def blanks : Reader Unit :=
  discard (takeWhile isBlank)

def newLine : Reader Unit :=
  char '\n' <|> string "\r\n"

def comment : Reader Unit := do
  char '#'
  discard (takeWhile isPlain)

-- The end of a line, after which the text may end too.
def lineEnd : Reader Unit := do
  blanks
  discard (optional comment)
  newLine <|> atEnd

-- Blanks, comments and ends of lines, as many as there are.
def gap : Reader Unit :=
  discard (many (discard (takeSome isBlank) <|> newLine <|> (comment *> newLine)))

def isHexDigit (c : Char) : Bool :=
  c.isDigit || ('a' ≤ c && c ≤ 'f') || ('A' ≤ c && c ≤ 'F')

def hexValue (c : Char) : Nat :=
  if c.isDigit then c.toNat - '0'.toNat
  else if 'a' ≤ c then c.toNat - 'a'.toNat + 10
  else c.toNat - 'A'.toNat + 10

-- The character whose code has the given number of hexadecimal digits.
def codePoint (digits : Nat) : Reader Char := do
  let ds ← (List.replicate digits ()).mapM fun _ => satisfying isHexDigit
  let n := ds.foldl (fun n d => 16 * n + hexValue d) 0
  if n.isValidChar then return Char.ofNat n else failure

def escaped : Reader Char := do
  char '\\'
  match ← any with
  | 'b'  => return '\x08'
  | 't'  => return '\t'
  | 'n'  => return '\n'
  | 'f'  => return '\x0c'
  | 'r'  => return '\r'
  | '"'  => return '"'
  | '\\' => return '\\'
  | 'u'  => codePoint 4
  | 'U'  => codePoint 8
  | _    => failure

def basicChar : Reader Char :=
  satisfying (fun c => isPlain c && c ≠ '"' && c ≠ '\\') <|> escaped

def basicString : Reader String := do
  char '"'
  let cs ← many basicChar
  char '"'
  return .ofList cs

-- A text in single quotes, as it stands.
def literalString : Reader String := do
  char '\''
  let cs ← takeWhile fun c => isPlain c && c ≠ '\''
  char '\''
  return .ofList cs

-- Quotes that do not end a text on several lines, for they are fewer than three.
def fewQuotes (quote : Char) : Reader (List Char) := do
  let quotes ← takeSome (· = quote)
  if quotes.length < 3 then return quotes else failure

-- The end of a text on several lines: three quotes, and up to two before them that belong to it.
def lastQuotes (quote : Char) : Reader (List Char) := do
  let quotes ← takeSome (· = quote)
  if 3 ≤ quotes.length ∧ quotes.length ≤ 5 then return quotes.drop 3 else failure

def lineFeed : Reader (List Char) := do
  newLine
  return ['\n']

-- A line that goes on at the next character that is not blank.
def continuedLine : Reader (List Char) := do
  char '\\'
  blanks
  newLine
  discard (many (discard (takeSome isBlank) <|> newLine))
  return []

-- A text on several lines between three quotes, from pieces. A first line that is empty is not in
-- it.
def multiline (quote : Char) (piece : Reader (List Char)) : Reader String := do
  string (.ofList [quote, quote, quote])
  discard (optional newLine)
  let pieces ← many (piece <|> lineFeed <|> fewQuotes quote)
  return .ofList (pieces.flatten ++ (← lastQuotes quote))

def multilineBasic : Reader String :=
  multiline '"' (continuedLine <|> (do return [← basicChar]))

def multilineLiteral : Reader String :=
  multiline '\'' (takeSome fun c => isPlain c && c ≠ '\'')

def quotedText : Reader String :=
  multilineBasic <|> basicString <|> multilineLiteral <|> literalString

-- How many arrays and tables may be nested, and how many parts a dotted key may have.
def maxDepth : Nat := 79

def isKeyChar (c : Char) : Bool :=
  c.isAlphanum || c = '-' || c = '_'

def simpleKey : Reader String :=
  basicString <|> literalString <|> (do return .ofList (← takeSome isKeyChar))

def key : Reader (List String) := do
  let parts ← separated simpleKey (blanks *> char '.' *> blanks)
  if parts.length ≤ maxDepth then return parts else failure

end PenStream.Toml
