import PenStream.Proofs.Stream.Factors
import PenStream.Proofs.Stream.Parameters

namespace PenStream

namespace Text

-- The other introducer.
def exchanged : Char → Char
  | '|' => '!'
  | '!' => '|'
  | c   => c

-- The text with the other introducer at the chosen places, where there is one.
def exchange (chosen : Nat → Bool) (cs : List Char) : List Char :=
  cs.mapIdx fun k c => if chosen k then exchanged c else c

-- A bar for either introducer.
def unify (c : Char) : Char :=
  if isIntroducer c then '|' else c

section Unify

variable {c : Char}

theorem unify_of_isIntroducer (h : isIntroducer c) : unify c = '|' :=
  if_pos h

theorem unify_of_not_isIntroducer (h : ¬isIntroducer c) : unify c = c :=
  if_neg h

-- What has one answer for both introducers does not see the difference.
theorem apply_unify {α : Type} {f : Char → α} (h : f '!' = f '|') (c : Char) :
    f (unify c) = f c := by
  by_cases hi : isIntroducer c
  case neg => rw [unify_of_not_isIntroducer hi]
  case pos =>
    rw [unify_of_isIntroducer hi]
    have hc : c = '|' ∨ c = '!' := by simpa [isIntroducer] using hi
    rcases hc with rfl | rfl
    · rfl
    · exact h.symm

theorem isIntroducer_unify (c : Char) : isIntroducer (unify c) = isIntroducer c :=
  apply_unify rfl c

theorem isBlank_unify (c : Char) : isBlank (unify c) = isBlank c :=
  apply_unify (by decide) c

theorem digitValue_unify (c : Char) : Numeral.digitValue (unify c) = Numeral.digitValue c :=
  apply_unify (by decide) c

theorem unify_eq_iff {p : Char} (hp : ¬isIntroducer p) : unify c = p ↔ c = p := by
  have hb : '!' ≠ p ∧ '|' ≠ p := by
    constructor <;> rintro rfl <;> exact hp rfl
  exact Iff.of_eq (apply_unify (f := (· = p)) (by simp [hb]) c)

theorem unify_exchanged (c : Char) : unify (exchanged c) = unify c := by
  unfold exchanged
  split <;> rfl

theorem map_unify_exchange (chosen : Nat → Bool) (cs : List Char) :
    (exchange chosen cs).map unify = cs.map unify := by
  refine List.ext_getElem (by simp [exchange]) fun k _ _ => ?_
  simp only [exchange, List.getElem_mapIdx, List.getElem_map]
  split
  case isTrue  => exact unify_exchanged _
  case isFalse => rfl

end Unify

theorem linesFrom_map_unify (line cs : List Char) :
    linesFrom (line.map unify) (cs.map unify) = (linesFrom line cs).map (List.map unify) := by
  induction cs generalizing line with
  | nil          => cases line <;> simp [linesFrom]
  | cons c cs hi =>
    simp only [List.map_cons, linesFrom, unify_eq_iff (p := '\n') (by decide)]
    split
    case isTrue  => rw [List.map_cons, ← hi, List.map_reverse, List.map_nil]
    case isFalse => exact hi (c :: line)

theorem lines_map_unify (cs : List Char) : lines (cs.map unify) = (lines cs).map (List.map unify) :=
  linesFrom_map_unify [] cs

theorem trim_map_unify (cs : List Char) : trim (cs.map unify) = (trim cs).map unify := by
  have h : isBlank ∘ unify = isBlank := funext isBlank_unify
  simp only [trim, List.dropWhile_map, ← List.map_reverse, h]

theorem prefix_map_unify_iff {ps cs : List Char} (h : ∀ p ∈ ps, ¬isIntroducer p) :
    ps <+: cs.map unify ↔ ps <+: cs := by
  induction ps generalizing cs with
  | nil          => exact iff_of_true List.nil_prefix List.nil_prefix
  | cons p ps hi =>
    have ⟨hp, hps⟩ := List.forall_mem_cons.mp h
    cases cs with
    | nil       => rfl
    | cons c cs =>
      rw [List.map_cons, List.cons_prefix_cons, List.cons_prefix_cons, hi hps, eq_comm,
        unify_eq_iff hp, eq_comm]

theorem isSkipped_map_unify (cs : List Char) :
    Decoder.isSkipped (cs.map unify) = Decoder.isSkipped cs := by
  rw [Bool.eq_iff_iff, Decoder.isSkipped_iff, Decoder.isSkipped_iff, List.map_eq_nil_iff,
    prefix_map_unify_iff (by simp [isIntroducer]),
    prefix_map_unify_iff (by simp [isIntroducer])]

theorem read_map_unify (cs : List Char) : Numeral.read (cs.map unify) = Numeral.read cs := by
  simp only [Numeral.read, List.foldl_map, digitValue_unify]

end Text

namespace Cursor

def unify (c : Cursor) : Cursor :=
  { c with ahead := c.ahead.map Text.unify }

end Cursor

namespace Reading

variable {α β : Type}

theorem reaches_map_unify (n : Nat) (cs : List Char) :
    reaches n (cs.map Text.unify) = reaches n cs := by
  rw [Bool.eq_iff_iff, reaches_iff, reaches_iff, List.length_map]

-- A reading that comes to the same where every introducer is a bar.
def Blind (r : Reading α) : Prop :=
  ∀ c : Cursor, r.run c.unify = ((r.run c).1, (r.run c).2.unify)

namespace Blind

theorem pure (a : α) : Blind (pure a) :=
  fun _ => rfl

theorem bind {r : Reading α} {f : α → Reading β} (h : Blind r) (h' : ∀ a, Blind (f a)) :
    Blind (r >>= f) := fun c => by
  rw [StateT.run_bind, h c]
  exact h' (r.run c).1 (r.run c).2

theorem numeral (width : Nat) : Blind (numeral width) := fun c => by
  refine Prod.ext (Fin.ext ?_) ?_
  · change Numeral.read ((c.ahead.map Text.unify).take width) = _
    rw [← List.map_take, Text.read_map_unify]
    rfl
  · change Cursor.mk ((c.ahead.map Text.unify).drop width)
      (c.taken + ((c.ahead.map Text.unify).take width).length) = _
    rw [← List.map_drop, ← List.map_take, List.length_map]
    rfl

theorem branch {r r' : Reading α} (k : Nat) (h : Blind r) (h' : Blind r') :
    Blind (do if reaches k (← get).ahead then r else r') := fun c => by
  rw [run_branch, run_branch, Cursor.unify, reaches_map_unify]
  split
  case isTrue  => exact h c
  case isFalse => exact h' c

end Blind

theorem FromNumerals.blind {n : Nat} {r : Reading α} {s : Strict.Reading α}
    (h : FromNumerals n r s) : Blind r := by
  induction h with
  | pure a          => exact .pure a
  | bind _ _ hi hi' => exact hi.bind hi'
  | numeral width   => exact .numeral width

theorem blind_positions (count : Nat) : Blind (positions count) := by
  induction count with
  | zero          => exact .pure []
  | succ count hi =>
    exact .branch 4 (FromNumerals.position.blind.bind fun _ => hi.bind fun _ => .pure _) (.pure [])

theorem blind_coordinateOr (otherwise : Coordinate) : Blind (coordinateOr otherwise) :=
  .branch 2 FromNumerals.coordinate.blind (.pure otherwise)

end Reading

namespace Opcode

open Reading (Blind FromNumerals)

theorem blind_oval : Blind oval.parameters :=
  have hc := FromNumerals.coordinate.blind
  FromNumerals.position.blind.bind fun _ => hc.bind fun _ => hc.bind fun _ => hc.bind fun rx =>
    (Reading.blind_coordinateOr rx).bind fun _ => .pure _

theorem blind_polyline : Blind polyline.parameters :=
  FromNumerals.digit.blind.bind fun _ => (Reading.blind_positions _).bind fun _ => .pure _

theorem blind_parameters (op : Opcode) : Blind op.parameters := by
  cases op
  case oval     => exact blind_oval
  case polyline => exact blind_polyline
  all_goals exact (parameters_fromNumerals (by nofun) (by nofun)).blind

theorem read?_unify (op : Opcode) (c : Cursor) :
    op.read? c.unify = (op.read? c).map fun (i, c') => (i, c'.unify) := by
  unfold read?
  rw [Cursor.unify, Reading.reaches_map_unify]
  split
  case isTrue  => exact congrArg some (op.blind_parameters c)
  case isFalse => rfl

theorem not_isIntroducer_letter (op : Opcode) : ¬isIntroducer op.letter := by
  cases op <;> decide

end Opcode

namespace Segment

def unify : Segment → Segment
  | plain c             => plain (Text.unify c)
  | trailing i          => trailing (Text.unify i)
  | unknown i c         => unknown (Text.unify i) (Text.unify c)
  | short i op          => short (Text.unify i) op
  | complete i op ps is => complete (Text.unify i) op (ps.map Text.unify) is

theorem Factors.unify {cs : List Char} {ss : List Segment} (h : Factors cs ss) :
    Factors (cs.map Text.unify) (ss.map Segment.unify) := by
  have introducer {i : Char} (hi : isIntroducer i) : isIntroducer (Text.unify i) :=
    (Text.isIntroducer_unify i).trans hi
  induction h with
  | nil => exact .nil
  | plain hc _ ih => exact .plain (by rwa [Text.isIntroducer_unify]) ih
  | trailing hi => exact .trailing (introducer hi)
  | unknown hi hc _ ih =>
    refine .unknown (introducer hi) (fun op ho => hc op ?_) ih
    exact ((Text.unify_eq_iff op.not_isIntroducer_letter).mp ho.symm).symm
  | @short _ op _ _ hi hl _ ih =>
    rw [List.map_cons, List.map_cons, Text.unify_of_not_isIntroducer op.not_isIntroducer_letter]
    exact .short (introducer hi) (by rwa [List.length_map]) ih
  | @complete _ op ps cs _ _ hi hr _ ih =>
    have hu := op.read?_unify { ahead := ps ++ cs }
    rw [hr, Cursor.unify, List.map_append] at hu
    rw [List.map_cons, List.map_cons, Text.unify_of_not_isIntroducer op.not_isIntroducer_letter,
      List.map_append]
    exact .complete (introducer hi) (by rw [hu, List.length_map]; rfl) ih

theorem scan_map_unify (cs : List Char) :
    scan (cs.map Text.unify) = (scan cs).map Segment.unify :=
  (factors_scan cs).unify.eq_scan.symm

end Segment

namespace Decoder

theorem segment_unify (d : Decoder) (s : Segment) : d.segment s.unify = d.segment s := by
  cases s <;> rfl

theorem line_map_unify (d : Decoder) (cs : List Char) :
    d.line (cs.map Text.unify) = d.line cs := by
  unfold line
  simp only [Text.trim_map_unify, Text.isSkipped_map_unify, Segment.scan_map_unify,
    List.foldl_map, segment_unify]

theorem feed_map_unify (d : Decoder) (cs : List Char) :
    d.feed (cs.map Text.unify) = d.feed cs := by
  unfold feed
  simp only [Text.lines_map_unify, List.foldl_map, line_map_unify]

end Decoder

-- Whichever introducers of a text are exchanged for the other, decoding comes to the same, with a
-- fresh decoder as with any other.
theorem decode_exchange (chosen : Nat → Bool) (text : String) :
    decode (.ofList (Text.exchange chosen text.toList)) = decode text ∧
    ∀ d : Decoder, d.feed (Text.exchange chosen text.toList) = d.feed text.toList := by
  have h (d : Decoder) : d.feed (Text.exchange chosen text.toList) = d.feed text.toList :=
    calc d.feed (Text.exchange chosen text.toList)
      _ = d.feed ((Text.exchange chosen text.toList).map Text.unify) := (d.feed_map_unify _).symm
      _ = d.feed (text.toList.map Text.unify) := by rw [Text.map_unify_exchange]
      _ = d.feed text.toList := d.feed_map_unify _
  refine ⟨?_, h⟩
  rw [decode, String.toList_ofList, h {}]
  rfl

end PenStream
