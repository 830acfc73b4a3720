import PenStream.Proofs.Stream.Alike
import PenStream.Proofs.Stream.Chunks
import PenStream.Proofs.Stream.Unfenced

namespace PenStream

namespace Text

-- The characters of a line, without the feed that ends it.
structure Line where
  chars : List Char
  feed_notMem : '\n' ∉ chars

-- Lines one after the other, each with its feed.
def join (ls : List Line) : List Char :=
  ls.flatMap fun l => l.chars ++ ['\n']

theorem join_cons (l : Line) (ls : List Line) : join (l :: ls) = l.chars ++ '\n' :: join ls := by
  rw [join, List.flatMap_cons, List.append_assoc]
  rfl

theorem lines_join (ls : List Line) : lines (join ls) = ls.map Line.chars := by
  induction ls with
  | nil          => rfl
  | cons l ls hi =>
    rw [join_cons, lines, linesFrom_of_notMem [] l.feed_notMem, linesFrom, if_pos rfl,
      List.append_nil, List.reverse_reverse, List.map_cons, ← hi]
    rfl

theorem stopsAtLine_append_iff {cs ds : List Char} :
    StopsAtLine (cs ++ '\n' :: ds) ↔ StopsAtLine ds := by
  cases ds with
  | nil       => simp [StopsAtLine]
  | cons d ds => simp [StopsAtLine, List.getLast?_append, List.getLast?_cons]

theorem stopsAtLine_join (ls : List Line) : StopsAtLine (join ls) := by
  induction ls with
  | nil          => exact .inl rfl
  | cons l ls hi => rwa [join_cons, stopsAtLine_append_iff]

theorem exists_join {cs : List Char} (h : StopsAtLine cs) : ∃ ls, join ls = cs := by
  induction cs using line_induction with
  | line cs hn       =>
    rcases h with rfl | h
    · exact ⟨[], rfl⟩
    · exact absurd (List.mem_of_getLast? h) hn
  | feed cs ds hn hi =>
    obtain ⟨ls, rfl⟩ := hi (stopsAtLine_append_iff.mp h)
    exact ⟨⟨cs, hn⟩ :: ls, join_cons ..⟩

-- The text with a carriage return before each feed.
def crlf (cs : List Char) : List Char :=
  cs.flatMap fun c => if c = '\n' then ['\r', '\n'] else [c]

theorem crlf_of_notMem {cs : List Char} (h : '\n' ∉ cs) : crlf cs = cs := by
  induction cs with
  | nil          => rfl
  | cons c cs hi =>
    have ⟨hc, hcs⟩ := not_or.mp (mt List.mem_cons.mpr h)
    rw [crlf, List.flatMap_cons, if_neg (Ne.symm hc), ← crlf, hi hcs]
    rfl

section Trim

variable {blanks : List Char} (h : ∀ c ∈ blanks, isBlank c) (cs : List Char)
include h

theorem trim_append_left : trim (blanks ++ cs) = trim cs := by
  induction blanks with
  | nil             => rfl
  | cons b blanks hi =>
    have ⟨hb, hbs⟩ := List.forall_mem_cons.mp h
    rw [List.cons_append, trim_cons hb, hi hbs]

theorem trim_append_right : trim (cs ++ blanks) = trim cs := by
  induction blanks generalizing cs with
  | nil             => rw [List.append_nil]
  | cons b blanks hi =>
    have ⟨hb, hbs⟩ := List.forall_mem_cons.mp h
    rw [List.append_cons, hi hbs, trim_concat hb]

end Trim

namespace Line

-- The same line with other blanks at its ends.
def Realigned (l l' : Line) : Prop :=
  ∃ core before after before' after' : List Char,
    (∀ c ∈ before ++ after ++ (before' ++ after'), isBlank c) ∧
      l.chars = before ++ core ++ after ∧ l'.chars = before' ++ core ++ after'

-- The line holds no instruction, because it is blank or a remark.
def Idle (l : Line) : Prop :=
  (∀ c ∈ l.chars, isBlank c) ∨ ['#'] <+: trim l.chars ∨ ['/', '/'] <+: trim l.chars

-- The line that ends with a carriage return.
def returned (l : Line) : Line where
  chars := l.chars ++ ['\r']
  feed_notMem := by simp [l.feed_notMem]

variable {l l' : Line}

theorem realigned_returned (l : Line) : l.Realigned l.returned :=
  ⟨l.chars, [], [], [], ['\r'], List.all_eq_true.mp (by decide), by simp, rfl⟩

theorem Realigned.trim_eq (h : l.Realigned l') : trim l'.chars = trim l.chars := by
  obtain ⟨core, before, after, before', after', hb, hl, hl'⟩ := h
  simp only [List.forall_mem_append] at hb
  obtain ⟨⟨hb, ha⟩, hb', ha'⟩ := hb
  rw [hl, hl', trim_append_right ha', trim_append_left hb', trim_append_right ha,
    trim_append_left hb]

theorem isSkipped_iff : Decoder.isSkipped (trim l.chars) ↔ l.Idle := by
  rw [Decoder.isSkipped_iff, trim_eq_nil_iff]
  rfl

end Line

theorem crlf_join (ls : List Line) : crlf (join ls) = join (ls.map Line.returned) := by
  induction ls with
  | nil          => rfl
  | cons l ls hi =>
    have hl : crlf l.chars = l.chars := crlf_of_notMem l.feed_notMem
    rw [join_cons, crlf, List.flatMap_append, ← crlf, hl, List.map_cons, join_cons, ← hi,
      Line.returned, List.append_assoc]
    rfl

-- So many idle lines among some others, at the start, in between and at the end.
inductive Interspersed : Nat → List Line → List Line → Prop
  | nil : Interspersed 0 [] []
  | same (l) {n ls ls'} (h : Interspersed n ls ls') : Interspersed n (l :: ls) (l :: ls')
  | idle {l n ls ls'} (hl : l.Idle) (h : Interspersed n ls ls') :
    Interspersed (n + 1) ls (l :: ls')

theorem segments_join_cons (l : Line) (ls : List Line) :
    Segment.ofText (join (l :: ls)) = Segment.ofLine l.chars ++ Segment.ofText (join ls) := by
  rw [join_cons, Segment.ofText_append, Segment.ofText_of_notMem l.feed_notMem]

theorem tally_join_cons (l : Line) (ls : List Line) :
    Tally.ofText (join (l :: ls)) = Tally.ofLines [l.chars] + Tally.ofText (join ls) := by
  rw [Tally.ofText, lines_join, List.map_cons, Tally.ofLines_cons, ← lines_join]
  rfl

namespace Line.Idle

variable {l : Line} (h : l.Idle)
include h

theorem segments : Segment.ofLine l.chars = [] :=
  if_pos (isSkipped_iff.mpr h)

theorem tally : Tally.ofLines [l.chars] = { lines := 1, skippedLines := 1 } := by
  simp [Tally.ofLines, isSkipped_iff.mpr h, h.segments]

end Line.Idle

namespace Interspersed

variable {n : Nat} {ls ls' : List Line}

theorem segments (h : Interspersed n ls ls') :
    Segment.ofText (join ls') = Segment.ofText (join ls) := by
  induction h with
  | nil          => rfl
  | same l _ hi  => rw [segments_join_cons, segments_join_cons, hi]
  | idle hl _ hi => rw [segments_join_cons, hl.segments, List.nil_append, hi]

theorem tally (h : Interspersed n ls ls') :
    Tally.ofText (join ls') = Tally.ofText (join ls) + { lines := n, skippedLines := n } := by
  induction h with
  | nil          => rfl
  | same l _ hi  => rw [tally_join_cons, tally_join_cons, hi, Tally.add_assoc]
  | idle hl _ hi =>
    rw [tally_join_cons, hl.tally, hi]
    simp only [Tally.add_def, Tally.mk.injEq]
    omega

end Interspersed

end Text

namespace Decoder

theorem line_congr (d : Decoder) {cs ds : List Char} (h : Text.trim cs = Text.trim ds) :
    d.line cs = d.line ds := by
  unfold line
  rw [h]

theorem feed_join (d : Decoder) (ls : List Text.Line) :
    d.feed (Text.join ls) = ls.foldl (fun d l => d.line l.chars) d := by
  rw [feed, Text.lines_join, List.foldl_map]

theorem feed_realigned (d : Decoder) {ls ls' : List Text.Line}
    (h : List.Forall₂ Text.Line.Realigned ls ls') :
    d.feed (Text.join ls') = d.feed (Text.join ls) := by
  rw [feed_join, feed_join]
  induction h generalizing d with
  | nil         => rfl
  | cons h _ hi => rw [List.foldl_cons, List.foldl_cons, d.line_congr h.trim_eq, hi]

theorem feed_interspersed (d : Decoder) {n : Nat} {ls ls' : List Text.Line}
    (h : Text.Interspersed n ls ls') :
    (d.feed (Text.join ls')).commands = (d.feed (Text.join ls)).commands ∧
      (d.feed (Text.join ls')).pen = (d.feed (Text.join ls)).pen ∧
      (d.feed (Text.join ls')).tally =
        (d.feed (Text.join ls)).tally + { lines := n, skippedLines := n } := by
  have hm := Met.feed d (Text.join ls)
  have hm' := Met.feed d (Text.join ls')
  rw [h.segments] at hm'
  refine ⟨?_, ?_, ?_⟩
  · rw [← Array.toList_inj, hm'.commands, hm.commands]
  · rw [hm'.pen, hm.pen]
  · rw [tally_feed, tally_feed, h.tally, Tally.add_assoc]

end Decoder

-- The texts in question are those of lines that each have their feed. Carriage returns before the
-- feeds and other blanks at the ends of lines make no difference to a decoder, fresh or not; lines
-- that are blank or remarks are counted, wherever they are, and that is all.
theorem layout_insensitive (d : Decoder) :
    (∀ cs, Text.StopsAtLine cs ↔ ∃ ls, Text.join ls = cs) ∧
    (∀ cs, Text.StopsAtLine cs → d.feed (Text.crlf cs) = d.feed cs) ∧
    (∀ ls ls', List.Forall₂ Text.Line.Realigned ls ls' →
      d.feed (Text.join ls') = d.feed (Text.join ls)) ∧
    ∀ n ls ls', Text.Interspersed n ls ls' →
      (d.feed (Text.join ls')).commands = (d.feed (Text.join ls)).commands ∧
      (d.feed (Text.join ls')).pen = (d.feed (Text.join ls)).pen ∧
      (d.feed (Text.join ls')).tally =
        (d.feed (Text.join ls)).tally + { lines := n, skippedLines := n } := by
  refine ⟨fun cs => ⟨Text.exists_join, ?_⟩, fun cs h => ?_, fun ls ls' => d.feed_realigned,
    fun n ls ls' => d.feed_interspersed⟩
  · rintro ⟨ls, rfl⟩
    exact Text.stopsAtLine_join ls
  · obtain ⟨ls, rfl⟩ := Text.exists_join h
    rw [Text.crlf_join]
    refine d.feed_realigned (List.forall₂_map_right_iff.mpr ?_)
    exact List.forall₂_same.mpr fun l _ => l.realigned_returned

-- An instruction that is cut short and a polyline that ends with its line, with blanks on either
-- side; a blank line, remarks and a line without a character in between.
theorem layout_insensitive_remarks :
    let short : Text.Line := ⟨"|c4F|L00".toList, by decide⟩
    let path : Text.Line := ⟨"|P20A0A1".toList, by decide⟩
    let path' : Text.Line := ⟨"\t|P20A0A1 \u2003".toList, by decide⟩
    let remark : Text.Line := ⟨" // |X0000".toList, by decide⟩
    let blank : Text.Line := ⟨"\u3000\r".toList, by decide⟩
    let decoded (ls : List Text.Line) := ({} : Decoder).feed (Text.join ls)
    let d := decoded [short, path]
    let e := decoded [remark, short, blank, path, remark]
    Text.StopsAtLine (Text.join [short, path]) ∧
      ({} : Decoder).feed (Text.crlf (Text.join [short, path])) = d ∧
      List.Forall₂ Text.Line.Realigned [short, path] [short, path'] ∧ decoded [short, path'] = d ∧
      Text.Interspersed 3 [short, path] [remark, short, blank, path, remark] ∧
      e.commands = d.commands ∧ e.tally = d.tally + { lines := 3, skippedLines := 3 } ∧
      d.commands = #[.setColors 4 15, .polyline [⟨10, 10⟩] 4] ∧
      d.tally = { lines := 2, emitted := 2, dropped := 1 } := by
  intro short path path' remark blank decoded d e
  obtain ⟨-, hc, hr, hi⟩ := layout_insensitive {}
  have hs : Text.StopsAtLine (Text.join [short, path]) := by decide
  have hf : List.Forall₂ Text.Line.Realigned [short, path] [short, path'] :=
    .cons ⟨short.chars, [], [], [], [], List.all_eq_true.mp (by decide), by decide, by decide⟩ <|
      .cons ⟨path.chars, [], [], ['\t'], [' ', '\u2003'], List.all_eq_true.mp (by decide),
        by decide, by decide⟩ .nil
  have ht : remark.Idle := .inr (.inr (by decide))
  have hb : blank.Idle := .inl (List.all_eq_true.mp (by decide))
  have hn : Text.Interspersed 3 [short, path] [remark, short, blank, path, remark] :=
    .idle ht <| .same short <| .idle hb <| .same path <| .idle ht .nil
  have ⟨hec, _, het⟩ := hi _ _ _ hn
  exact ⟨hs, hc _ hs, hf, hr _ _ hf, hn, hec, het, by decide +kernel, by decide +kernel⟩

end PenStream
