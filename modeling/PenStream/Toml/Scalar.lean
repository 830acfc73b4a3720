import PenStream.Toml.Text
import PenStream.Toml.Value

namespace PenStream.Toml

open Reader

-- Digits of a kind, where single underscores may stand between two; without the underscores.
def digitRun (isDigit : Char → Bool) : Reader (List Char) := do
  let first ← satisfying isDigit
  let rest ← many ((char '_' *> satisfying isDigit) <|> satisfying isDigit)
  return first :: rest

def sign : Reader (List Char) :=
  (do return [← satisfying fun c => c = '+' || c = '-']) <|> return []

-- A decimal number, whose first digit is zero only if it is the only one.
def decimalDigits : Reader (List Char) := do
  let digits ← digitRun Char.isDigit
  if digits.head? = some '0' ∧ digits.length ≠ 1 then failure else return digits

def valueOf (base : Nat) (digits : List Char) : Nat :=
  digits.foldl (fun n d => base * n + hexValue d) 0

def isOctalDigit (c : Char) : Bool :=
  '0' ≤ c && c ≤ '7'

def isBinaryDigit (c : Char) : Bool :=
  c = '0' || c = '1'

def unsigned : Reader Int :=
  (do string "0x"; return valueOf 16 (← digitRun isHexDigit)) <|>
  (do string "0o"; return valueOf 8 (← digitRun isOctalDigit)) <|>
  (do string "0b"; return valueOf 2 (← digitRun isBinaryDigit))

def signed : Reader Int := do
  let mark ← sign
  let n : Int := valueOf 10 (← decimalDigits)
  return if mark = ['-'] then -n else n

def integer : Reader Value := do
  let n ← unsigned <|> signed
  if -0x8000000000000000 ≤ n ∧ n < 0x8000000000000000 then return .integer n else failure

-- Whether `digits` times the power of ten rounds to something too large for 64 bits.
def isTooLarge (digits : List Char) (exponent : Int) : Bool :=
  let n := valueOf 10 digits
  let bound := (Nat.pow 2 54 - 1) * Nat.pow 2 970
  if n = 0 then false
  else if exponent ≥ 400 then true
  else if exponent ≥ 0 then n * Nat.pow 10 exponent.toNat ≥ bound
  else if exponent.natAbs ≥ digits.length then false
  else n ≥ bound * Nat.pow 10 exponent.natAbs

def fraction : Reader (List Char) := do
  char '.'
  digitRun Char.isDigit

def exponentPart : Reader (List Char × List Char) := do
  discard (satisfying fun c => c = 'e' || c = 'E')
  return (← sign, ← digitRun Char.isDigit)

def finiteFloat : Reader Value := do
  let mark ← sign
  let whole ← decimalDigits
  let part ← optional fraction
  let power ← optional exponentPart
  if part.isNone ∧ power.isNone then failure
  let places := part.getD []
  let (powerMark, powerDigits) := power.getD ([], ['0'])
  let magnitude : Int := valueOf 10 powerDigits
  let exponent := (if powerMark = ['-'] then -magnitude else magnitude) - places.length
  if mark ≠ ['-'] ∧ isTooLarge (whole ++ places) exponent then failure
  return .float (.ofList (mark ++ whole ++ '.' :: places ++ 'e' :: powerMark ++ powerDigits))

def specialFloat : Reader Value := do
  let mark ← sign
  let name ← (do string "inf"; return "inf") <|> (do string "nan"; return "nan")
  return .float (.ofList mark ++ name)

-- A number of exactly so many digits within bounds.
def numberIn (digits lo hi : Nat) : Reader Nat := do
  let ds ← (List.replicate digits ()).mapM fun _ => satisfying Char.isDigit
  let n := valueOf 10 ds
  if lo ≤ n ∧ n ≤ hi then return n else failure

def isLeapYear (year : Nat) : Bool :=
  year % 4 = 0 && (year % 100 ≠ 0 || year % 400 = 0)

def daysIn (year month : Nat) : Nat :=
  match month with
  | 2               => if isLeapYear year then 29 else 28
  | 4 | 6 | 9 | 11  => 30
  | _               => 31

def date : Reader Unit := do
  let year ← numberIn 4 0 9999
  char '-'
  let month ← numberIn 2 1 12
  char '-'
  discard (numberIn 2 1 (daysIn year month))

-- A time of day, in which a minute may have a leap second.
def time : Reader Unit := do
  discard (numberIn 2 0 23)
  char ':'
  discard (numberIn 2 0 59)
  char ':'
  discard (numberIn 2 0 60)
  discard (optional (char '.' *> takeSome Char.isDigit))

def zone : Reader Unit :=
  discard (satisfying fun c => c = 'Z' || c = 'z') <|> do
    discard (satisfying fun c => c = '+' || c = '-')
    discard (numberIn 2 0 23)
    char ':'
    discard (numberIn 2 0 59)

def dateWithTime : Reader Unit := do
  date
  discard (optional (do
    discard (satisfying fun c => c = 'T' || c = 't' || c = ' ')
    time
    optional zone))

def dateTime : Reader Value := fun cs => do
  let (_, rest) ← StateT.run (dateWithTime <|> time) cs
  return (.dateTime (.ofList (cs.take (cs.length - rest.length))), rest)

def boolean : Reader Value :=
  (do string "true"; return .boolean true) <|> (do string "false"; return .boolean false)

def scalar : Reader Value :=
  (do return .string (← quotedText)) <|> dateTime <|> finiteFloat <|> specialFloat <|> integer <|>
    boolean

end PenStream.Toml
