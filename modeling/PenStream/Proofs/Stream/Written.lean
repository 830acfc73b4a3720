import Mathlib.Data.List.DropRight
import PenStream.Proofs.Stream.Segments
import PenStream.Proofs.Stream.Spelling
import PenStream.Proofs.Stream.Windows

namespace PenStream

namespace Text

-- A character that neither introduces an instruction nor ends a line.
def Inert (c : Char) : Prop :=
  ¬isIntroducer c ∧ c ≠ '\n'

end Text

namespace Instruction

-- A line that is written for a list of instructions: each has its introducer, its letter and its
-- parameters, and inert text behind them.
inductive OnLine : List Instruction → List Char → Prop
  | nil : OnLine [] []
  | cons {i is introducer parameters text rest} (hi : isIntroducer introducer)
    (hp : Parameter.Spelled i.parameters parameters) (ht : ∀ c ∈ text, Text.Inert c)
    (hr : OnLine is rest) :
    OnLine (i :: is) (introducer :: i.opcode.letter :: (parameters ++ (text ++ rest)))

-- A text whose lines, taken together, are written for a list of instructions.
inductive Written : List Instruction → List Char → Prop
  | line {is cs} (h : OnLine is cs) : Written is cs
  | feed {is js cs ds} (h : OnLine is cs) (hw : Written js ds) :
    Written (is ++ js) (cs ++ '\n' :: ds)

end Instruction

namespace Text

section Trim

variable (p : Char → Bool)

theorem rdropWhile_cons (c : Char) (cs : List Char) :
    (c :: cs).rdropWhile p =
      if cs.rdropWhile p = [] ∧ p c then [] else c :: cs.rdropWhile p := by
  simp only [List.rdropWhile, List.reverse_cons, List.dropWhile_append, List.reverse_eq_nil_iff]
  by_cases he : List.dropWhile p cs.reverse = []
  case neg => simp [he]
  case pos => by_cases hc : p c <;> simp [he, hc]

variable {p}

theorem rdropWhile_append_of_neg {cs : List Char} (h : ∀ c ∈ cs, ¬p c) (ds : List Char) :
    (cs ++ ds).rdropWhile p = cs ++ ds.rdropWhile p := by
  induction cs with
  | nil => rfl
  | cons c cs hi =>
    have ⟨hc, hcs⟩ := List.forall_mem_cons.mp h
    rw [List.cons_append, rdropWhile_cons, if_neg (fun h => hc h.right), hi hcs, List.cons_append]

-- Of two pieces, what is dropped leaves a part of the first in front of what it leaves of the
-- other.
theorem exists_rdropWhile_append (cs ds : List Char) :
    ∃ es, es ⊆ cs ∧ (cs ++ ds).rdropWhile p = es ++ ds.rdropWhile p := by
  induction cs with
  | nil => exact ⟨[], List.Subset.refl _, rfl⟩
  | cons c cs hi =>
    have ⟨es, hs, he⟩ := hi
    rw [List.cons_append, rdropWhile_cons, he]
    split
    case isTrue h  => exact ⟨[], List.nil_subset _, (List.append_eq_nil_iff.mp h.left).right.symm⟩
    case isFalse h => exact ⟨c :: es, List.cons_subset_cons c hs, rfl⟩

end Trim

theorem not_isBlank_of_isIntroducer {c : Char} (h : isIntroducer c) : ¬isBlank c := by
  have hc : c = '|' ∨ c = '!' := by simpa [isIntroducer] using h
  rcases hc with rfl | rfl <;> decide

theorem not_isBlank_letter (op : Opcode) : ¬isBlank op.letter := by
  cases op <;> decide

theorem not_isBlank_digit :
    ∀ d < Numeral.radix,
      ¬isBlank (Numeral.digitChar d) ∧ ¬isBlank (Numeral.digitChar d).toLower := by
  decide

theorem ne_feed_digit :
    ∀ d < Numeral.radix, Numeral.digitChar d ≠ '\n' ∧ (Numeral.digitChar d).toLower ≠ '\n' := by
  decide

theorem trim_of_not_isBlank {c : Char} (h : ¬isBlank c) (cs : List Char) :
    trim (c :: cs) = (c :: cs).rdropWhile isBlank := by
  rw [trim, List.dropWhile_cons_of_neg h]
  rfl

end Text

namespace Segment

-- Segments of which none is cut short or unknown, with the instructions among them.
structure Whole (ss : List Segment) (is : List Instruction) : Prop where
  instructions : instructions ss = is
  short : ss.countP isShort = 0
  unknown : ss.countP isUnknown = 0

namespace Whole

variable {ss ts : List Segment} {is js : List Instruction}

theorem nil : Whole [] [] :=
  ⟨rfl, rfl, rfl⟩

theorem append (h : Whole ss is) (h' : Whole ts js) : Whole (ss ++ ts) (is ++ js) where
  instructions := by rw [instructions_append, h.instructions, h'.instructions]
  short := by rw [List.countP_append, h.short, h'.short]
  unknown := by rw [List.countP_append, h.unknown, h'.unknown]

theorem complete (introducer : Char) (op : Opcode) (parameters : List Char) (i : Instruction) :
    Whole [.complete introducer op parameters i] [i] :=
  ⟨rfl, rfl, rfl⟩

theorem plain (cs : List Char) : Whole (cs.map .plain) [] := by
  induction cs with
  | nil          => exact nil
  | cons c cs hi => exact (⟨rfl, rfl, rfl⟩ : Whole [.plain c] []).append hi

end Whole

theorem scan_of_inert {text : List Char} (h : ∀ c ∈ text, Text.Inert c) (rest : List Char) :
    scan (text ++ rest) = text.map .plain ++ scan rest := by
  induction text with
  | nil => rfl
  | cons c text hi =>
    have ⟨hc, ht⟩ := List.forall_mem_cons.mp h
    rw [List.cons_append, scan.eq_def]
    simp only [hc.left, Bool.false_eq_true, if_false, hi ht]
    rfl

theorem scan_instruction {introducer : Char} (hi : isIntroducer introducer) {i : Instruction}
    (hc : i.Counted) {parameters : List Char} (hp : Parameter.Spelled i.parameters parameters)
    (rest : List Char) :
    scan (introducer :: i.opcode.letter :: (parameters ++ rest)) =
      .complete introducer i.opcode parameters i :: scan rest := by
  rw [scan_complete hi (Instruction.read?_opcode hp hc rest), List.take_left, List.drop_left]

end Segment

namespace Instruction

open Segment (Whole)

variable {is : List Instruction} {cs : List Char}

namespace OnLine

theorem feed_notMem (h : OnLine is cs) : '\n' ∉ cs := by
  induction h with
  | nil => exact List.not_mem_nil
  | @cons i is introducer parameters text rest hi hp ht hr hn =>
    have hs : introducer ≠ '\n' := by rintro rfl; exact absurd hi (by decide)
    have hl : i.opcode.letter ≠ '\n' := by cases i.opcode <;> decide
    have hd : '\n' ∉ parameters := fun hm => by
      have ⟨d, hd, hc⟩ := hp.exists_digit _ hm
      exact hc.elim (fun h => (Text.ne_feed_digit d hd).left h.symm)
        (fun h => (Text.ne_feed_digit d hd).right h.symm)
    have ht : '\n' ∉ text := fun hm => (ht _ hm).right rfl
    simp [hs.symm, hl.symm, hd, ht, hn]

-- Blanks at the end of a line can only be text behind its last instruction.
theorem rdropWhile (h : OnLine is cs) : OnLine is (cs.rdropWhile Text.isBlank) := by
  induction h with
  | nil => exact .nil
  | @cons i is introducer parameters text rest hi hp ht hr hn =>
    have hb : ∀ c ∈ introducer :: i.opcode.letter :: parameters, ¬Text.isBlank c := by
      refine List.forall_mem_cons.mpr ⟨Text.not_isBlank_of_isIntroducer hi,
        List.forall_mem_cons.mpr ⟨Text.not_isBlank_letter _, fun c hm => ?_⟩⟩
      have ⟨d, hd, hc⟩ := hp.exists_digit c hm
      rcases hc with rfl | rfl
      · exact (Text.not_isBlank_digit d hd).left
      · exact (Text.not_isBlank_digit d hd).right
    have ⟨text', hs, he⟩ := Text.exists_rdropWhile_append (p := Text.isBlank) text rest
    have hd := Text.rdropWhile_append_of_neg hb (text ++ rest)
    rw [he] at hd
    exact (congrArg (OnLine _) hd).mpr (cons hi hp (fun c hc => ht c (hs hc)) hn)

theorem trim (h : OnLine is cs) : OnLine is (Text.trim cs) := by
  cases h
  case nil              => exact .nil
  case cons hi hp ht hr =>
    rw [Text.trim_of_not_isBlank (Text.not_isBlank_of_isIntroducer hi)]
    exact (cons hi hp ht hr).rdropWhile

theorem scan (h : OnLine is cs) (hc : ∀ i ∈ is, i.Counted) : Whole (Segment.scan cs) is := by
  induction h with
  | nil => rw [Segment.scan]; exact .nil
  | cons hi hp ht hr hn =>
    obtain ⟨hc, hcs⟩ := List.forall_mem_cons.mp hc
    rw [Segment.scan_instruction hi hc hp, Segment.scan_of_inert ht]
    exact (Whole.complete ..).append ((Whole.plain _).append (hn hcs))

-- A line with an instruction starts with its introducer, so that it is no remark.
theorem not_isSkipped {i : Instruction} (h : OnLine (i :: is) cs) : ¬Decoder.isSkipped cs := by
  cases h with
  | @cons _ _ introducer _ _ _ hi =>
    have hc : introducer = '|' ∨ introducer = '!' := by simpa [isIntroducer] using hi
    rcases hc with rfl | rfl <;> exact Bool.false_ne_true

theorem ofLine (h : OnLine is cs) (hc : ∀ i ∈ is, i.Counted) : Whole (Segment.ofLine cs) is := by
  unfold Segment.ofLine
  split
  case isFalse   => exact h.trim.scan hc
  case isTrue hs =>
    cases is with
    | nil       => exact .nil
    | cons i is => exact absurd hs h.trim.not_isSkipped

end OnLine

theorem Written.ofText (h : Written is cs) (hc : ∀ i ∈ is, i.Counted) :
    Whole (Segment.ofText cs) is := by
  induction h with
  | line h =>
    rw [Segment.ofText_of_notMem h.feed_notMem]
    exact h.ofLine hc
  | feed h _ hi =>
    have ⟨hc, hcs⟩ := List.forall_mem_append.mp hc
    rw [Segment.ofText_append, Segment.ofText_of_notMem h.feed_notMem]
    exact (h.ofLine hc).append (hi hcs)

theorem exists_written (is : List Instruction) (hc : ∀ i ∈ is, i.Counted) :
    ∃ cs, Written is cs := by
  suffices h : ∃ cs, OnLine is cs from h.imp fun _ => .line
  induction is with
  | nil => exact ⟨[], .nil⟩
  | cons i is hi =>
    have ⟨hc, hcs⟩ := List.forall_mem_cons.mp hc
    have ⟨parameters, hp⟩ := Parameter.exists_spelled (fits_parameters hc)
    have ⟨rest, hr⟩ := hi hcs
    have ht : ∀ c ∈ [], Text.Inert c := fun _ h => absurd h List.not_mem_nil
    exact ⟨_, .cons (show isIntroducer '|' from rfl) hp ht hr⟩

end Instruction

end PenStream
