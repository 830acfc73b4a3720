import Mathlib.Data.List.Forall2
import PenStream.Proofs.Stream.Factors
import PenStream.Proofs.Stream.Reset

namespace PenStream

namespace Tally

-- The counts of one tally on top of those of another.
instance : Add Tally where
  add t u := {
    lines := t.lines + u.lines
    skippedLines := t.skippedLines + u.skippedLines
    emitted := t.emitted + u.emitted
    dropped := t.dropped + u.dropped
    unknown := t.unknown + u.unknown }

theorem add_def (t u : Tally) :
    t + u = ⟨t.lines + u.lines, t.skippedLines + u.skippedLines, t.emitted + u.emitted,
      t.dropped + u.dropped, t.unknown + u.unknown⟩ :=
  rfl

theorem add_assoc (t u v : Tally) : t + u + v = t + (u + v) := by
  simp only [add_def, Nat.add_assoc]

def ofLines (lines : List (List Char)) : Tally :=
  let segments := lines.flatMap Segment.ofLine
  { lines := lines.length
    skippedLines := lines.countP fun cs => Decoder.isSkipped (Text.trim cs)
    emitted := segments.countP Segment.isComplete
    dropped := segments.countP Segment.isShort
    unknown := segments.countP Segment.isUnknown }

theorem ofLines_cons (cs : List Char) (lines : List (List Char)) :
    ofLines (cs :: lines) = ofLines [cs] + ofLines lines := by
  simp [ofLines, add_def, List.countP_cons, Nat.add_comm]

def ofText (cs : List Char) : Tally :=
  ofLines (Text.lines cs)

end Tally

namespace Decoder

theorem tally_line (d : Decoder) (cs : List Char) : (d.line cs).tally = d.tally + .ofLines [cs] := by
  unfold line
  dsimp only
  split
  case isTrue h  => simp [Tally.add_def, Tally.ofLines, Segment.ofLine, h]
  case isFalse h =>
    rw [tally_foldl_segment]
    simp [Tally.add_def, Tally.ofLines, Segment.ofLine, h]

theorem tally_foldl_line (d : Decoder) (lines : List (List Char)) :
    (lines.foldl line d).tally = d.tally + .ofLines lines := by
  induction lines generalizing d with
  | nil              => rfl
  | cons cs lines hi =>
    rw [List.foldl_cons, hi, tally_line, Tally.ofLines_cons cs lines, Tally.add_assoc]

theorem tally_feed (d : Decoder) (cs : List Char) : (d.feed cs).tally = d.tally + .ofText cs :=
  tally_foldl_line d (Text.lines cs)

end Decoder

namespace Command

-- Commands that are the same but for the colour of a shape or a fill, and for the start of a line
-- that is drawn to its end.
inductive Alike : Command → Command → Prop
  | setColors (fg bg) : Alike (setColors fg bg) (setColors fg bg)
  | line (p q) {a b} : Alike (line p q a) (line p q b)
  | rectangle (p q) {a b} : Alike (rectangle p q a) (rectangle p q b)
  | bar (p q) {a b} : Alike (bar p q a) (bar p q b)
  | circle (p r) {a b} : Alike (circle p r a) (circle p r b)
  | ellipse (p sa ea rx ry) {a b} : Alike (ellipse p sa ea rx ry a) (ellipse p sa ea rx ry b)
  | pixel (p) {a b} : Alike (pixel p a) (pixel p b)
  | moveTo (p) : Alike (moveTo p) (moveTo p)
  | lineTo (q) {p p' a b} : Alike (lineTo p q a) (lineTo p' q b)
  | polyline (ps) {a b} : Alike (polyline ps a) (polyline ps b)
  | setFill (style color) : Alike (setFill style color) (setFill style color)
  | floodFill (p border) {a b} : Alike (floodFill p border a) (floodFill p border b)
  | reset : Alike reset reset
  | defineWindow (p q) : Alike (defineWindow p q) (defineWindow p q)

theorem alike_command (pen pen' : Pen) (i : Instruction) :
    Alike (i.command pen) (i.command pen') := by
  cases i <;> constructor

theorem alike_commands (pen pen' : Pen) (is : List Instruction) :
    List.Forall₂ Alike (Instruction.commands pen is) (Instruction.commands pen' is) := by
  induction is generalizing pen pen' with
  | nil          => exact .nil
  | cons i is hi => exact .cons (alike_command pen pen' i) (hi ..)

end Command

namespace Instruction

variable {pen : Pen} {is : List Instruction} {k : Nat}

theorem eq_reset_of_command {i : Instruction} (h : i.command pen = .reset) : i = .reset := by
  cases i
  case reset => rfl
  all_goals nomatch h

-- Where a reset is among the commands, there is one among the instructions.
theorem getElem?_of_commands (h : (commands pen is)[k]? = some .reset) : is[k]? = some .reset := by
  rw [commands_eq_mapIdx, List.getElem?_mapIdx, Option.map_eq_some_iff] at h
  obtain ⟨i, hi, hc⟩ := h
  rw [hi, eq_reset_of_command hc]

theorem length_commands (pen : Pen) (is : List Instruction) :
    (commands pen is).length = is.length := by
  rw [commands_eq_mapIdx, List.length_mapIdx]

-- From a reset on, nothing depends on the pen with which the instructions began.
theorem of_reset (h : is[k]? = some .reset) (pen : Pen) :
    (commands pen is).drop k = .reset :: commands {} (is.drop (k + 1)) ∧
      pen.followAll is = Pen.followAll {} (is.drop (k + 1)) := by
  obtain ⟨hk, hr⟩ := List.getElem?_eq_some_iff.mp h
  have hs : is = is.take k ++ .reset :: is.drop (k + 1) := by
    rw [← hr, List.getElem_cons_drop, List.take_append_drop]
  have hl : (commands pen (is.take k)).length = k := by
    rw [length_commands, List.length_take_of_le (Nat.le_of_lt hk)]
  generalize is.take k = before at hs hl
  generalize is.drop (k + 1) = after at hs ⊢
  subst hs
  constructor
  · rw [commands_reset, List.drop_left' hl]
  · rw [Pen.followAll, List.foldl_append]
    rfl

end Instruction

-- Whatever pens two decoders hold, the same text makes them count the same and append commands that
-- are alike, one for one; from a reset on these are the same, and so are the pens at the end.
theorem feed_alike (text : String) (d e : Decoder) :
    let d' := d.feed text.toList
    let e' := e.feed text.toList
    ∃ (as bs : List Command) (t : Tally),
      d'.commands.toList = d.commands.toList ++ as ∧
      e'.commands.toList = e.commands.toList ++ bs ∧
      List.Forall₂ Command.Alike as bs ∧
      d'.tally = d.tally + t ∧ e'.tally = e.tally + t ∧
      ∀ k : Nat, as[k]? = some .reset → as.drop k = bs.drop k ∧ d'.pen = e'.pen := by
  intro d' e'
  have hd : d.Met (Segment.ofText text.toList) d' := .feed d text.toList
  have he : e.Met (Segment.ofText text.toList) e' := .feed e text.toList
  refine ⟨_, _, .ofText text.toList, hd.commands, he.commands, Command.alike_commands ..,
    d.tally_feed _, e.tally_feed _, fun k h => ?_⟩
  have hr := Instruction.getElem?_of_commands h
  have ⟨hc, hp⟩ := Instruction.of_reset hr d.pen
  have ⟨hc', hp'⟩ := Instruction.of_reset hr e.pen
  exact ⟨hc.trans hc'.symm, by rw [hd.pen, he.pen, hp, hp']⟩

-- A line drawn to the same point by two pens, and a fill after a reset, among all that is counted.
theorem feed_alike_until_reset :
    let text := "|l0A0A|Q|*|F05053\n# |X0000\n|L00"
    let d : Decoder := { pen := { fg := 4, fillColor := 2, cursor := ⟨7, 7⟩ } }
    let e : Decoder := { commands := #[.reset], tally := { lines := 1, emitted := 1 } }
    let d' := d.feed text.toList
    let e' := e.feed text.toList
    let as : List Command := [.lineTo ⟨7, 7⟩ ⟨10, 10⟩ 4, .reset, .floodFill ⟨5, 5⟩ 3 15]
    let bs : List Command := [.lineTo ⟨0, 0⟩ ⟨10, 10⟩ 15, .reset, .floodFill ⟨5, 5⟩ 3 15]
    d'.commands.toList = as ∧ e'.commands.toList = .reset :: bs ∧
      List.Forall₂ Command.Alike as bs ∧
      d'.tally = { lines := 3, skippedLines := 1, emitted := 3, dropped := 1, unknown := 1 } ∧
      e'.tally = e.tally + d'.tally ∧
      as[1]? = some .reset ∧ as.drop 1 = bs.drop 1 ∧ d'.pen = e'.pen := by
  intro text d e d' e' as bs
  have hd : d'.commands.toList = as := by decide +kernel
  have he : e'.commands.toList = .reset :: bs := by decide +kernel
  have ht : d'.tally = { lines := 3, skippedLines := 1, emitted := 3, dropped := 1, unknown := 1 } :=
    by decide +kernel
  obtain ⟨as', bs', t, ha, hb, hab, htd, hte, hr⟩ := feed_alike text d e
  obtain rfl : as' = as := ha.symm.trans hd
  obtain rfl : bs' = bs := List.cons.inj (hb.symm.trans he) |>.right
  have hz : d.tally + t = t := by simp [d, Tally.add_def]
  have ⟨hc, hp⟩ := hr 1 rfl
  exact ⟨hd, he, hab, ht, by rw [htd, hz]; exact hte, rfl, hc, hp⟩

end PenStream
