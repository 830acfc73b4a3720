import PenStream.Command.Record
import PenStream.Decoder
import PenStream.Listing
import PenStream.Numeral
import PenStream.Palette

namespace PenStream.Tool

def padRight (width : Nat) (s : String) : String :=
  s.pushn ' ' (width - s.length)

def padLeft (width : Nat) (s : String) : String :=
  "".pushn ' ' (width - s.length) ++ s

def commandLine (index : Nat) (c : Command) : String :=
  padLeft 5 (toString index) ++ "  " ++ c.opcode.letter.toString ++ "  " ++ c.listing ++ "\n"

def commandLines (commands : List Command) : String :=
  String.join (commands.zipIdx.map fun (c, i) => commandLine i c)

def tallyJson (t : Tally) : Json :=
  .object [("lines", .natural t.lines), ("skipped_lines", .natural t.skippedLines),
    ("emitted", .natural t.emitted), ("dropped", .natural t.dropped),
    ("unknown", .natural t.unknown)]

def report (d : Decoder) : Json :=
  .object [("commands", .array (d.commands.toList.map Command.toJson)),
    ("stats", tallyJson d.tally)]

def opcodeRow (letter name length layout : String) : String :=
  padRight 4 letter ++ " " ++ padRight 12 name ++ " " ++ padLeft 4 length ++ "  " ++ layout ++ "\n"

def opcodeTable : String :=
  opcodeRow "OP" "NAME" "MIN" "PARAMETERS" ++
    String.join (Opcode.all.map fun op =>
      opcodeRow op.letter.toString op.name (toString op.minLength) op.layout)

def colorRow (index name value : String) : String :=
  padRight 6 index ++ " " ++ padRight 14 name ++ " " ++ value ++ "\n"

def hexColor (n : Nat) : String :=
  let digits := (Nat.toDigits 16 n).map Char.toUpper
  "#" ++ .ofList (List.replicate (6 - digits.length) '0' ++ digits)

def colorTable : String :=
  colorRow "COLOR" "NAME" "RGB" ++
    String.join (Palette.entries.zipIdx.map fun ((name, color), i) =>
      colorRow (Numeral.digitChar i).toString name (hexColor color.rgb24))

inductive Level
  | info
  | warn
deriving DecidableEq, Repr

def Level.text : Level → String
  | info => "INFO"
  | warn => "WARN"

-- The control characters below U+0080 with which a terminal could be steered.
def steering : List Char :=
  ['\x07', '\x08', '\x0c', '\x1b', '\x7f']

-- A character as it stands in the log, where none may steer a terminal.
def logChar (c : Char) : String :=
  let digits := String.ofList (Nat.toDigits 16 c.toNat)
  if c ∈ steering then "\\x" ++ (if c.toNat < 0x10 then "0" else "") ++ digits
  else if 0x80 ≤ c.toNat ∧ c.toNat ≤ 0x9F then "\\u\x7b" ++ digits ++ "\x7d"
  else c.toString

-- A line of the log, without the time at which it is written.
def logLine (level : Level) (message : String) : String :=
  level.text ++ " rip_render: " ++ String.join (message.toList.map logChar)

def skippedMessage (t : Tally) : String :=
  toString t.dropped ++ " truncated and " ++ toString t.unknown ++ " unknown commands skipped"

def decodedMessage (t : Tally) : String :=
  toString t.emitted ++ " commands from " ++ toString t.lines ++ " lines (" ++
    toString t.skippedLines ++ " skipped), " ++ toString t.dropped ++ " dropped, " ++
    toString t.unknown ++ " unknown"

def renderedMessage (count width height : Nat) (output : String) : String :=
  "Rendered " ++ toString count ++ " commands at " ++ toString width ++ "x" ++ toString height ++
    " to " ++ output

def versionText : String :=
  "rip-render 0.1.0\n"

def helpText : String :=
  "Decode and render RIPscrip-style command text\n\n" ++
  "Usage: rip-render [OPTIONS] <COMMAND>\n\n" ++
  "Commands:\n" ++
  "  render   Render command text to a PNG image\n" ++
  "  decode   Print the decoded command list\n" ++
  "  opcodes  List supported opcodes\n"

end PenStream.Tool
