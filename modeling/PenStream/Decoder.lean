import PenStream.Segment
import PenStream.Text.Blank
import PenStream.Text.Line

namespace PenStream

structure Tally where
  lines : Nat := 0
  skippedLines : Nat := 0
  emitted : Nat := 0
  -- Instructions that their line cut short.
  dropped : Nat := 0
  unknown : Nat := 0
deriving DecidableEq, Repr

structure Decoder where
  pen : Pen := {}
  commands : Array Command := #[]
  tally : Tally := {}

namespace Decoder

-- Nothing is on a trimmed line that is empty or starts as a remark does.
def isSkipped : List Char → Bool
  | []              => true
  | '#' :: _        => true
  | '/' :: '/' :: _ => true
  | _               => false

def segment (d : Decoder) : Segment → Decoder
  | .plain _ | .trailing _ => d
  | .unknown ..            => { d with tally.unknown := d.tally.unknown + 1 }
  | .short ..              => { d with tally.dropped := d.tally.dropped + 1 }
  | .complete _ _ _ i      =>
    let command := i.command d.pen
    { pen := d.pen.apply command.change
      commands := d.commands.push command
      tally := { d.tally with emitted := d.tally.emitted + 1 } }

-- One line; the parameters of an instruction never go on to the next.
def line (d : Decoder) (cs : List Char) : Decoder :=
  let d := { d with tally.lines := d.tally.lines + 1 }
  let cs := Text.trim cs
  if isSkipped cs then
    { d with tally.skippedLines := d.tally.skippedLines + 1 }
  else
    (Segment.scan cs).foldl segment d

def feed (d : Decoder) (cs : List Char) : Decoder :=
  (Text.lines cs).foldl line d

end Decoder

def decode (text : String) : Decoder :=
  ({} : Decoder).feed text.toList

end PenStream
