import PenStream.Proofs.Stream.Replay
import PenStream.Proofs.Stream.Windows

namespace PenStream

namespace Opcode

variable {op : Opcode} {c : Cursor} {i : Instruction}

-- What an opcode has read is in front of what is behind its cursor.
theorem exists_parameters_of_read? {window : List Char}
    (h : op.read? { ahead := window } = some (i, c)) :
    ∃ parameters rest, window = parameters ++ rest ∧
      c = { ahead := rest, taken := parameters.length } := by
  have ⟨hn, hc⟩ := place_of_read? h
  let n := op.consumed window
  refine ⟨window.take n, window.drop n, (List.take_append_drop ..).symm, ?_⟩
  rw [List.length_take_of_le hn, hc, Cursor.advance, Nat.zero_add]

theorem ofLetter?_eq_none_iff {letter : Char} :
    ofLetter? letter = none ↔ ∀ op : Opcode, op.letter ≠ letter := by
  constructor
  · rintro h op rfl
    rw [ofLetter?_letter] at h
    contradiction
  · intro h
    exact Option.eq_none_iff_forall_ne_some.mpr fun op ho => h op (letter_of_ofLetter? ho)

end Opcode

namespace Segment

def isComplete : Segment → Bool
  | complete .. => true
  | _           => false

-- The line is taken apart from left to right. What is between an introducer and what follows it is
-- passed over only together, and a letter that is cut short goes without its parameters.
inductive Factors : List Char → List Segment → Prop
  | nil : Factors [] []
  | plain {c cs ss} (hc : ¬isIntroducer c) (h : Factors cs ss) :
    Factors (c :: cs) (plain c :: ss)
  | trailing {i} (hi : isIntroducer i) : Factors [i] [trailing i]
  | unknown {i c cs ss} (hi : isIntroducer i) (hc : ∀ op : Opcode, op.letter ≠ c)
    (h : Factors cs ss) : Factors (i :: c :: cs) (unknown i c :: ss)
  | short {i op cs ss} (hi : isIntroducer i) (hl : cs.length < Opcode.minLength op)
    (h : Factors cs ss) : Factors (i :: op.letter :: cs) (short i op :: ss)
  | complete {i op parameters cs ss instruction} (hi : isIntroducer i)
    (hr : Opcode.read? op { ahead := parameters ++ cs } =
      some (instruction, { ahead := cs, taken := parameters.length }))
    (h : Factors cs ss) :
    Factors (i :: op.letter :: (parameters ++ cs)) (complete i op parameters instruction :: ss)

theorem factors_scan (cs : List Char) : Factors cs (scan cs) := by
  fun_induction scan cs
  case case1 => exact .nil
  case case2 hi => exact .trailing hi
  case case3 hi _ _ ho ih => exact .unknown hi (Opcode.ofLetter?_eq_none_iff.mp ho) ih
  case case4 hi _ _ op ho hr ih =>
    rw [← Opcode.letter_of_ofLetter? ho]
    exact .short hi (Opcode.read?_eq_none_iff.mp hr) ih
  case case5 hi _ window op ho i c hr ih =>
    obtain ⟨parameters, rest, rfl, rfl⟩ := Opcode.exists_parameters_of_read? hr
    rw [← Opcode.letter_of_ofLetter? ho, List.take_left, List.drop_left]
    rw [List.drop_left] at ih
    exact .complete hi hr ih
  case case6 hc ih => exact .plain hc ih

namespace Factors

variable {cs : List Char} {ss ts : List Segment}

-- The segments in order are the line.
theorem flatMap_chars (h : Factors cs ss) : ss.flatMap chars = cs := by
  induction h with
  | nil               => rfl
  | plain _ _ hi      => rw [List.flatMap_cons, hi]; rfl
  | trailing          => rfl
  | unknown _ _ _ hi  => rw [List.flatMap_cons, hi]; rfl
  | short _ _ _ hi    => rw [List.flatMap_cons, hi]; rfl
  | complete _ _ _ hi => rw [List.flatMap_cons, hi]; rfl

theorem eq_scan (h : Factors cs ss) : ss = scan cs := by
  induction h with
  | nil                => rw [scan]
  | plain hc _ ih      =>
    rw [scan.eq_def]
    dsimp only
    rw [if_neg hc, ih]
  | trailing hi        => rw [scan, if_pos hi]
  | unknown hi hc _ ih =>
    rw [scan, if_pos hi]
    simp only [Opcode.ofLetter?_eq_none_iff.mpr hc, ih]
  | short hi hl _ ih   => rw [scan_short hi hl, ih]
  | complete hi hr _ ih =>
    rw [scan_complete hi hr, List.take_left, List.drop_left, ih]

end Factors

end Segment

namespace Decoder

-- What segments add to the tally.
theorem tally_foldl_segment (d : Decoder) (ss : List Segment) :
    (ss.foldl segment d).tally =
      { d.tally with
        emitted := d.tally.emitted + ss.countP Segment.isComplete
        dropped := d.tally.dropped + ss.countP Segment.isShort
        unknown := d.tally.unknown + ss.countP Segment.isUnknown } := by
  induction ss generalizing d with
  | nil          => rfl
  | cons s ss hi =>
    rw [List.foldl_cons, hi]
    cases s <;> simp [segment, List.countP_cons, Segment.isComplete, Segment.isShort,
      Segment.isUnknown, Nat.add_assoc, Nat.add_comm 1]

-- As many commands as are counted.
def Counted (d : Decoder) : Prop :=
  d.tally.emitted = d.commands.size

namespace Counted

variable {d : Decoder}

theorem segment (h : d.Counted) (s : Segment) : (d.segment s).Counted := by
  cases s
  case complete => exact (congrArg (· + 1) h).trans (Array.size_push _).symm
  all_goals exact h

theorem line (h : d.Counted) (cs : List Char) : (d.line cs).Counted := by
  unfold Decoder.line
  dsimp only
  split
  case isTrue  => exact h
  case isFalse => exact List.foldlRecOn _ _ (motive := Counted) h fun _ hd s _ => hd.segment s

theorem feed (h : d.Counted) (cs : List Char) : (d.feed cs).Counted :=
  List.foldlRecOn _ _ (motive := Counted) h fun _ hd cs _ => hd.line cs

theorem receive (h : d.Counted) (input : Input) : (d.receive input).Counted := by
  cases input with
  | line cs => exact h.line cs
  | text cs => exact h.feed cs

end Counted

end Decoder

-- A line that is not skipped is the concatenation of segments, in one way only; they are counted
-- each by its kind, and what is complete becomes a command. Whatever a decoder has been given, it
-- has as many commands as it has counted.
theorem line_factors :
    (∀ (d : Decoder) (cs : List Char), ¬Decoder.isSkipped (Text.trim cs) →
      ∃ segments, Segment.Factors (Text.trim cs) segments ∧
        (∀ others, Segment.Factors (Text.trim cs) others → others = segments) ∧
        segments.flatMap Segment.chars = Text.trim cs ∧
        (d.line cs).commands.toList = d.commands.toList ++
          Instruction.commands d.pen (Segment.instructions segments) ∧
        (d.line cs).tally = { d.tally with
          lines := d.tally.lines + 1
          emitted := d.tally.emitted + segments.countP Segment.isComplete
          dropped := d.tally.dropped + segments.countP Segment.isShort
          unknown := d.tally.unknown + segments.countP Segment.isUnknown }) ∧
    ∀ inputs : List Input,
      let d : Decoder := inputs.foldl Decoder.receive {}
      d.tally.emitted = d.commands.size := by
  refine ⟨fun d cs h => ?_, fun inputs => ?_⟩
  · have hf := Segment.factors_scan (Text.trim cs)
    have hl : d.line cs = (Segment.scan (Text.trim cs)).foldl Decoder.segment
        { d with tally.lines := d.tally.lines + 1 } := if_neg h
    refine ⟨_, hf, fun _ => Segment.Factors.eq_scan, hf.flatMap_chars, ?_, ?_⟩
    · rw [hl]
      exact (Decoder.Met.foldl_segment _ _).commands
    · rw [hl, Decoder.tally_foldl_segment]
  · exact List.foldlRecOn _ _ (motive := Decoder.Counted) rfl fun _ hd input _ => hd.receive input

-- Introducers as an unknown letter, among the parameters of a pixel and at the end of the line.
theorem line_factors_of_all_kinds :
    let line := "\tx||c|X00|c4F!L0|".toList
    let segments : List Segment :=
      [.plain 'x', .unknown '|' '|', .plain 'c',
       .complete '|' .pixel ['0', '0', '|', 'c'] (.pixel ⟨0, 12⟩), .plain '4', .plain 'F',
       .short '!' .line, .plain '0', .trailing '|']
    let d := ({} : Decoder).line line
    ¬Decoder.isSkipped (Text.trim line) ∧ Segment.Factors (Text.trim line) segments ∧
      d.commands.toList = [.pixel ⟨0, 12⟩ 15] ∧
      d.tally = { lines := 1, emitted := 1, dropped := 1, unknown := 1 } := by
  intro line segments d
  have hs : ¬Decoder.isSkipped (Text.trim line) := by decide
  have ⟨ss, hf, _, _, hc, ht⟩ := line_factors.left {} line hs
  have he : ss = segments := hf.eq_scan.trans (by decide +kernel)
  exact ⟨hs, he ▸ hf, by rw [hc, he]; decide, by rw [ht, he]; decide⟩

end PenStream
