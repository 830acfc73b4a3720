import PenStream.Decoder

namespace PenStream

namespace Pen

-- The pen that an instruction leaves behind.
def follow (pen : Pen) : Instruction → Pen
  | .color fg bg          => { pen with fg := fg.toUInt8, bg := bg.toUInt8 }
  | .fillStyle style color => { pen with fillStyle := style.toUInt8, fillColor := color.toUInt8 }
  | .move p               => { pen with cursor := p.toPoint }
  | .lineTo p             => { pen with cursor := p.toPoint }
  | .reset                => {}
  | _                     => pen

-- The pen that a list of instructions leaves behind.
def followAll (pen : Pen) (is : List Instruction) : Pen :=
  is.foldl follow pen

theorem apply_change_command (pen : Pen) (i : Instruction) :
    pen.apply (i.command pen).change = pen.follow i := by
  cases i <;> rfl

end Pen

namespace Instruction

-- The commands of a list of instructions, each with the pen that those before it have left.
def commands (pen : Pen) : List Instruction → List Command
  | []      => []
  | i :: is => i.command pen :: commands (pen.follow i) is

theorem commands_append (pen : Pen) (is js : List Instruction) :
    commands pen (is ++ js) = commands pen is ++ commands (pen.followAll is) js := by
  induction is generalizing pen with
  | nil => rfl
  | cons i is hi => exact congrArg _ (hi (pen.follow i))

theorem commands_eq_mapIdx (pen : Pen) (is : List Instruction) :
    commands pen is = is.mapIdx fun k i => i.command (pen.followAll (is.take k)) := by
  induction is generalizing pen with
  | nil          => rfl
  | cons i is hi => rw [commands, hi, List.mapIdx_cons]; rfl

end Instruction

namespace Segment

def instruction? : Segment → Option Instruction
  | complete _ _ _ i => some i
  | _                => none

def isShort : Segment → Bool
  | short .. => true
  | _        => false

def isUnknown : Segment → Bool
  | unknown .. => true
  | _          => false

def instructions (ss : List Segment) : List Instruction :=
  ss.filterMap instruction?

theorem instructions_append (ss ts : List Segment) :
    instructions (ss ++ ts) = instructions ss ++ instructions ts :=
  List.filterMap_append

-- The segments of a line as it stands in a text, with blanks around it; a remark has none.
def ofLine (cs : List Char) : List Segment :=
  if Decoder.isSkipped (Text.trim cs) then [] else scan (Text.trim cs)

theorem ofLine_nil : ofLine [] = [] :=
  rfl

-- The segments of a text.
def ofText (cs : List Char) : List Segment :=
  (Text.lines cs).flatMap ofLine

end Segment

namespace Text

theorem linesFrom_append (line cs ds : List Char) :
    linesFrom line (cs ++ '\n' :: ds) = linesFrom line (cs ++ ['\n']) ++ lines ds := by
  induction cs generalizing line with
  | nil => simp [linesFrom, lines]
  | cons c cs hi =>
    simp only [List.cons_append, linesFrom]
    split
    case isTrue  => rw [hi, List.cons_append]
    case isFalse => exact hi _

-- A feed at the end of a text adds an empty line at most.
theorem flatMap_linesFrom_feed (line cs : List Char) :
    (linesFrom line (cs ++ ['\n'])).flatMap Segment.ofLine =
      (linesFrom line cs).flatMap Segment.ofLine := by
  induction cs generalizing line with
  | nil => cases line <;> simp [linesFrom, Segment.ofLine_nil]
  | cons c cs hi =>
    simp only [List.cons_append, linesFrom]
    split
    case isTrue  => rw [List.flatMap_cons, List.flatMap_cons, hi]
    case isFalse => exact hi _

-- A line without a feed of its own is the first of a text.
theorem linesFrom_of_notMem (line : List Char) {cs : List Char} (h : '\n' ∉ cs) (ds : List Char) :
    linesFrom line (cs ++ ds) = linesFrom (cs.reverse ++ line) ds := by
  induction cs generalizing line with
  | nil => rfl
  | cons c cs hi =>
    have ⟨hc, hcs⟩ := not_or.mp (mt List.mem_cons.mpr h)
    rw [List.cons_append, linesFrom, if_neg (Ne.symm hc), hi _ hcs]
    simp

end Text

namespace Segment

-- Texts on lines of their own do not touch each other.
theorem ofText_append (cs ds : List Char) : ofText (cs ++ '\n' :: ds) = ofText cs ++ ofText ds := by
  simp only [ofText, Text.lines]
  rw [Text.linesFrom_append, List.flatMap_append, Text.flatMap_linesFrom_feed]
  rfl

theorem ofText_of_notMem {cs : List Char} (h : '\n' ∉ cs) : ofText cs = ofLine cs := by
  have hl := Text.linesFrom_of_notMem [] h []
  rw [List.append_nil, List.append_nil] at hl
  rw [ofText, Text.lines, hl, Text.linesFrom]
  cases cs <;> simp [ofLine_nil]

end Segment

namespace Decoder

theorem isSkipped_iff {cs : List Char} :
    isSkipped cs ↔ cs = [] ∨ ['#'] <+: cs ∨ ['/', '/'] <+: cs := by
  unfold isSkipped
  split
  case h_1 => simp
  case h_2 => simp
  case h_3 => simp
  case h_4 hn hr hs =>
    refine iff_of_false Bool.false_ne_true ?_
    rintro (h | ⟨rest, h⟩ | ⟨rest, h⟩)
    · exact hn h
    · exact hr rest h.symm
    · exact hs rest h.symm

-- What a decoder has become on its way through some segments.
structure Met (d : Decoder) (ss : List Segment) (e : Decoder) : Prop where
  pen : e.pen = d.pen.followAll (Segment.instructions ss)
  commands : e.commands.toList =
    d.commands.toList ++ Instruction.commands d.pen (Segment.instructions ss)
  dropped : e.tally.dropped = d.tally.dropped + ss.countP Segment.isShort
  unknown : e.tally.unknown = d.tally.unknown + ss.countP Segment.isUnknown

namespace Met

variable {d e f : Decoder} {ss ts : List Segment}

theorem trans (h : Met d ss e) (h' : Met e ts f) : Met d (ss ++ ts) f where
  pen := by
    rw [h'.pen, h.pen, Segment.instructions_append, Pen.followAll, Pen.followAll, Pen.followAll,
      List.foldl_append]
  commands := by
    rw [h'.commands, h.commands, h.pen, Segment.instructions_append, Instruction.commands_append,
      List.append_assoc]
  dropped := by rw [h'.dropped, h.dropped, List.countP_append, Nat.add_assoc]
  unknown := by rw [h'.unknown, h.unknown, List.countP_append, Nat.add_assoc]

-- Lines are counted apart from what is on them.
theorem of_lines (hp : e.pen = d.pen) (hc : e.commands = d.commands)
    (hd : e.tally.dropped = d.tally.dropped) (hu : e.tally.unknown = d.tally.unknown) :
    Met d [] e where
  pen := hp
  commands := by rw [hc]; exact (List.append_nil _).symm
  dropped := hd
  unknown := hu

theorem segment (d : Decoder) (s : Segment) : Met d [s] (d.segment s) := by
  cases s
  case complete introducer op parameters i =>
    exact {
      pen := d.pen.apply_change_command i
      commands := Array.toList_push
      dropped := rfl
      unknown := rfl }
  all_goals exact ⟨rfl, (List.append_nil _).symm, rfl, rfl⟩

-- What is met piece by piece is met one piece after the other.
theorem foldl {α : Type} {pieces : α → List Segment} {next : Decoder → α → Decoder}
    (step : ∀ d a, Met d (pieces a) (next d a)) (d : Decoder) (as : List α) :
    Met d (as.flatMap pieces) (as.foldl next d) := by
  induction as generalizing d with
  | nil          => exact of_lines rfl rfl rfl rfl
  | cons a as hi => exact (step d a).trans (hi _)

theorem foldl_segment (d : Decoder) (ss : List Segment) :
    Met d ss (ss.foldl Decoder.segment d) := by
  have h := foldl segment d ss
  rwa [List.flatMap_singleton'] at h

theorem line (d : Decoder) (cs : List Char) : Met d (Segment.ofLine cs) (d.line cs) := by
  unfold Decoder.line Segment.ofLine
  dsimp only
  split
  case isTrue  => exact of_lines rfl rfl rfl rfl
  case isFalse =>
    have h : Met d [] { d with tally.lines := d.tally.lines + 1 } := of_lines rfl rfl rfl rfl
    exact h.trans (foldl_segment ..)

theorem feed (d : Decoder) (cs : List Char) : Met d (Segment.ofText cs) (d.feed cs) :=
  foldl line d (Text.lines cs)

end Met

end Decoder

-- What decoding yields, from the segments of the text alone.
theorem toList_commands_decode (text : String) :
    (decode text).commands.toList =
      Instruction.commands {} (Segment.instructions (Segment.ofText text.toList)) :=
  (Decoder.Met.feed {} text.toList).commands

end PenStream
