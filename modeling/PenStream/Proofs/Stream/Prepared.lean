import Mathlib.Data.List.Infix
import PenStream.Proofs.Stream.Reset

namespace PenStream

namespace Text

-- A text is one line, or a line and the text behind its feed.
@[elab_as_elim]
theorem line_induction {motive : List Char → Prop}
    (line : ∀ cs, '\n' ∉ cs → motive cs)
    (feed : ∀ cs ds, '\n' ∉ cs → motive ds → motive (cs ++ '\n' :: ds)) (cs : List Char) :
    motive cs := by
  by_cases h : '\n' ∈ cs
  case neg => exact line cs h
  case pos =>
    have ⟨as, bs, hs, ha⟩ := List.eq_append_cons_of_mem h
    have hl : bs.length < cs.length := by simp [hs]; omega
    exact hs ▸ feed as bs ha (line_induction line feed bs)
termination_by cs.length

section Trim

variable {c : Char} (h : isBlank c) (cs : List Char)
include h

theorem trim_cons : trim (c :: cs) = trim cs := by
  rw [trim, List.dropWhile_cons_of_pos h]
  rfl

theorem trim_concat : trim (cs ++ [c]) = trim cs := by
  change List.rdropWhile isBlank _ = List.rdropWhile isBlank _
  rw [List.dropWhile_append]
  split
  case isTrue he => rw [List.isEmpty_iff.mp he, List.dropWhile_cons_of_pos h]; rfl
  case isFalse   => exact List.rdropWhile_concat_pos _ _ _ h

end Trim

-- A fence, and a text in between two of them, the first with a language tag.
def fence : List Char :=
  ['\x60', '\x60', '\x60']

def fenced (tag body : List Char) : List Char :=
  fence ++ (tag ++ '\n' :: (body ++ '\n' :: fence))

theorem dropFences_nil : dropFences [] = [] :=
  dropFences.eq_3

theorem dropFences_fence (cs : List Char) :
    dropFences (fence ++ cs) = dropFences (dropTag cs) :=
  dropFences.eq_1 cs

theorem dropFences_cons {c : Char} {cs : List Char} (h : ¬fence <+: c :: cs) :
    dropFences (c :: cs) = c :: dropFences cs := by
  rw [dropFences]
  rintro rest rfl rfl
  exact h ⟨rest, rfl⟩

-- What follows a text and does not start with a backquote adds no fence to it.
theorem fence_prefix_of_append {cs ds : List Char} (hd : ∀ c ∈ ds.head?, c ∉ fence)
    (h : fence <+: cs ++ ds) : fence <+: cs := by
  rcases List.prefix_or_prefix_of_prefix h (List.prefix_append cs ds) with hp | ⟨es, he⟩
  · exact hp
  · -- The text is the first part of the fence, so that what follows starts with the other.
    rw [← he, List.prefix_append_right_inj] at h
    cases es with
    | nil       => rw [← he, List.append_nil]
    | cons e es =>
      have ⟨fs, hf⟩ := h
      have hm : e ∈ fence := he ▸ List.mem_append_right cs List.mem_cons_self
      exact absurd hm (hd e (by simp [← hf]))

theorem dropFences_append {cs ds : List Char} (h : ¬fence <:+: cs)
    (hd : ∀ c ∈ ds.head?, c ∉ fence) : dropFences (cs ++ ds) = cs ++ dropFences ds := by
  induction cs with
  | nil => rfl
  | cons c cs hi =>
    have ⟨hc, hcs⟩ := not_or.mp (mt List.infix_cons_iff.mpr h)
    have hn : ¬fence <+: c :: (cs ++ ds) := fun hp => hc (fence_prefix_of_append hd hp)
    rw [List.cons_append, dropFences_cons hn, hi hcs, List.cons_append]

theorem dropFences_of_not_infix {cs : List Char} (h : ¬fence <:+: cs) : dropFences cs = cs := by
  have hd := @dropFences_append cs [] h (by simp)
  rwa [dropFences_nil, List.append_nil] at hd

theorem dropTag_append {tag : List Char} (h : ∀ c ∈ tag, c.isLower) (cs : List Char) :
    dropTag (tag ++ '\n' :: cs) = cs := by
  rw [dropTag, List.dropWhile_append_of_pos h, List.dropWhile_cons_of_neg (by decide)]
  rfl

theorem dropFences_fenced {tag body : List Char} (ht : ∀ c ∈ tag, c.isLower)
    (hb : ¬fence <:+: body) : dropFences (fenced tag body) = body ++ ['\n'] := by
  have hf : dropFences ('\n' :: fence) = ['\n'] := by
    rw [dropFences_cons (by decide), ← List.append_nil fence, dropFences_fence]
    exact congrArg _ dropFences_nil
  rw [fenced, dropFences_fence, dropTag_append ht, dropFences_append hb (by simp [fence]), hf]

end Text

namespace Segment

open Text (isBlank)

section Blank

variable {c : Char} (h : isBlank c)
include h

theorem ofLine_cons (cs : List Char) : ofLine (c :: cs) = ofLine cs := by
  rw [ofLine, Text.trim_cons h]
  rfl

theorem ofLine_concat (cs : List Char) : ofLine (cs ++ [c]) = ofLine cs := by
  rw [ofLine, Text.trim_concat h]
  rfl

-- Before the first line of a text, a blank is at its start or makes an empty line.
theorem ofText_cons (cs : List Char) : ofText (c :: cs) = ofText cs := by
  by_cases hc : c = '\n'
  case pos => exact hc ▸ ofText_append [] cs
  case neg =>
    have hn {line : List Char} (hl : '\n' ∉ line) : ofText (c :: line) = ofText line := by
      have hl' : '\n' ∉ c :: line := List.not_mem_cons_of_ne_of_not_mem (Ne.symm hc) hl
      rw [ofText_of_notMem hl', ofText_of_notMem hl, ofLine_cons h]
    by_cases hf : '\n' ∈ cs
    case neg => exact hn hf
    case pos =>
      obtain ⟨line, rest, rfl, hl⟩ := List.eq_append_cons_of_mem hf
      rw [← List.cons_append, ofText_append, ofText_append, hn hl]

theorem ofText_concat (cs : List Char) : ofText (cs ++ [c]) = ofText cs := by
  by_cases hc : c = '\n'
  case pos =>
    rw [hc, ofText_append]
    exact List.append_nil _
  case neg =>
    induction cs using Text.line_induction with
    | line cs hl =>
      have hl' : '\n' ∉ cs ++ [c] := by simp [hl, Ne.symm hc]
      rw [ofText_of_notMem hl', ofText_of_notMem hl, ofLine_concat h]
    | feed cs ds _ hi =>
      rw [List.append_assoc, List.cons_append, ofText_append, ofText_append, hi]

end Blank

theorem ofText_dropWhile (cs : List Char) : ofText (cs.dropWhile isBlank) = ofText cs := by
  induction cs with
  | nil => rfl
  | cons c cs hi =>
    by_cases hc : isBlank c
    case pos => rw [List.dropWhile_cons_of_pos hc, hi, ofText_cons hc]
    case neg => rw [List.dropWhile_cons_of_neg hc]

theorem ofText_rdropWhile (cs : List Char) : ofText (cs.rdropWhile isBlank) = ofText cs := by
  induction cs using List.reverseRecOn with
  | nil => rfl
  | append_singleton cs c hi =>
    by_cases hc : isBlank c
    case pos => rw [List.rdropWhile_concat_pos _ _ _ hc, hi, ofText_concat hc]
    case neg => rw [List.rdropWhile_concat_neg _ _ _ hc]

theorem ofText_trim (cs : List Char) : ofText (Text.trim cs) = ofText cs :=
  (ofText_rdropWhile _).trans (ofText_dropWhile cs)

-- Without its fences a text has the same instructions as after being prepared, but for a reset in
-- front.
theorem instructions_prepare (cs : List Char) :
    instructions (ofText (Text.prepare cs)) = instructions (ofText (Text.dropFences cs)) ∨
    instructions (ofText (Text.prepare cs)) =
      .reset :: instructions (ofText (Text.dropFences cs)) := by
  unfold Text.prepare
  dsimp only
  split
  case isTrue  => exact .inl (congrArg _ (ofText_trim _))
  case isFalse =>
    rw [ofText_append, instructions_append, Instruction.instructions_resetMark, ofText_trim]
    exact .inr rfl

end Segment

-- Decoded and played to the end, at any size and under any rule for fills, two texts leave the same
-- bytes.
def SamePicture (a b : String) : Prop :=
  ∀ (s : Scheduler) (z : Size), ∃ p q,
    s.play (decode a).commands z.width z.height = .ok (p, .finished 100) ∧
    s.play (decode b).commands z.width z.height = .ok (q, .finished 100) ∧
    p.size = z ∧ q.size = z ∧ p.canvas.bytes = q.canvas.bytes

theorem SamePicture.of_executeAll {a b : String}
    (h : ∀ (z : Size) (rule : FloodFill),
      (Canvas.uniform z Palette.background).executeAll rule (decode a).commands.toList =
        (Canvas.uniform z Palette.background).executeAll rule (decode b).commands.toList) :
    SamePicture a b := fun s z => by
  have ⟨p, hp, hps, hpc⟩ := s.play_of_size (decode a).commands z
  have ⟨q, hq, hqs, hqc⟩ := s.play_of_size (decode b).commands z
  refine ⟨p, q, hp, hq, hps, hqs, ?_⟩
  rw [hpc, hqc, h, hps, hqs]

-- A prepared text shows what is left of the text without its fences.
theorem samePicture_prepare {cs : List Char} {left : String}
    (h : Segment.ofText (Text.dropFences cs) = Segment.ofText left.toList) :
    SamePicture (.ofList (Text.prepare cs)) left := by
  refine .of_executeAll fun z rule => ?_
  simp only [toList_commands_decode, String.toList_ofList, ← h]
  rcases Segment.instructions_prepare cs with hp | hp
  · rw [hp]
  · -- The canvas is as after the reset, and so is the pen.
    rw [hp]
    exact Canvas.executeAll_reset _ rule [] _

-- Preparing keeps the picture of a text without fences, also when it comes in a pair of them.
theorem prepare_keeps_picture (text : String) (h : ¬Text.fence <:+: text.toList) :
    SamePicture (.ofList (Text.prepare text.toList)) text ∧
    ∀ tag : List Char, (∀ c ∈ tag, c.isLower) →
      SamePicture (.ofList (Text.prepare (Text.fenced tag text.toList))) text := by
  refine ⟨samePicture_prepare ?_, fun tag ht => samePicture_prepare ?_⟩
  · rw [Text.dropFences_of_not_infix h]
  · rw [Text.dropFences_fenced ht h, Segment.ofText_concat (by decide)]

-- A line to draw between backquotes and a remark, with blanks at either end.
theorem prepare_keeps_picture_remark :
    let text := " \x60\x60|c0F|L00001010\r\n# \x60\x60\n\n"
    let prepared := "|*\n\x60\x60|c0F|L00001010\r\n# \x60\x60".toList
    let tag := "ripscrip".toList
    ¬Text.fence <:+: text.toList ∧ (∀ c ∈ tag, c.isLower) ∧
      Text.prepare text.toList = prepared ∧
      Text.prepare (Text.fenced tag text.toList) = prepared ∧
      SamePicture (.ofList (Text.prepare text.toList)) text ∧
      SamePicture (.ofList (Text.prepare (Text.fenced tag text.toList))) text := by
  intro text prepared tag
  have h : ¬Text.fence <:+: text.toList := by decide
  have ht : ∀ c ∈ tag, c.isLower := List.all_eq_true.mp (by decide)
  have ⟨hp, hf⟩ := prepare_keeps_picture text h
  refine ⟨h, ht, ?_, ?_, hp, hf tag ht⟩
  · rw [Text.prepare, Text.dropFences_of_not_infix h]
    decide
  · rw [Text.prepare, Text.dropFences_fenced ht h]
    decide

end PenStream
