import PenStream.Proofs.Stream.Segments

namespace PenStream

namespace Text

-- Nothing, or lines to the feed of the last.
def StopsAtLine (cs : List Char) : Prop :=
  cs = [] ∨ cs.getLast? = some '\n'

instance (cs : List Char) : Decidable (StopsAtLine cs) :=
  inferInstanceAs (Decidable (_ ∨ _))

-- The text behind begins with a line of its own.
theorem lines_append {cs : List Char} (h : StopsAtLine cs) (ds : List Char) :
    lines (cs ++ ds) = lines cs ++ lines ds := by
  rcases h with rfl | h
  · rfl
  · obtain ⟨cs, rfl⟩ := List.getLast?_eq_some_iff.mp h
    rw [List.append_assoc]
    exact linesFrom_append [] cs ds

end Text

namespace Decoder

theorem feed_append (d : Decoder) {cs : List Char} (h : Text.StopsAtLine cs) (ds : List Char) :
    d.feed (cs ++ ds) = (d.feed cs).feed ds := by
  rw [feed, Text.lines_append h, List.foldl_append]
  rfl

-- The last chunk may stop anywhere.
theorem feed_flatten (d : Decoder) {chunks : List (List Char)}
    (h : ∀ chunk ∈ chunks.dropLast, Text.StopsAtLine chunk) :
    d.feed chunks.flatten = chunks.foldl feed d := by
  induction chunks generalizing d with
  | nil => rfl
  | cons chunk rest hi =>
    cases rest with
    | nil            => rw [List.flatten_singleton]; rfl
    | cons next rest =>
      have ⟨hc, hr⟩ := List.forall_mem_cons.mp h
      rw [List.flatten_cons, feed_append d hc, hi _ hr]
      rfl

end Decoder

-- A decoder that is given a text in chunks, cut where lines end, comes to be what it is when it is
-- given all of it at once, in whatever state it begins.
theorem feed_chunks :
    (∀ (d : Decoder) (a b : String), Text.StopsAtLine a.toList →
      (d.feed a.toList).feed b.toList = d.feed (a ++ b).toList) ∧
    ∀ (text : String) (chunks : List String), String.join chunks = text →
      (∀ chunk ∈ chunks.dropLast, Text.StopsAtLine chunk.toList) →
      chunks.foldl (fun d chunk => d.feed chunk.toList) {} = decode text := by
  refine ⟨fun d a b h => ?_, fun text chunks ht h => ?_⟩
  · rw [String.toList_append, d.feed_append h]
  · have hc : ∀ cs ∈ (chunks.map String.toList).dropLast, Text.StopsAtLine cs := by
      simpa [← List.map_dropLast] using h
    rw [← ht, decode, String.toList_join, List.flatMap_def, Decoder.feed_flatten {} hc,
      List.foldl_map]

-- The pen of the first chunk draws in the last, which stops in the middle of an instruction.
theorem feed_chunks_cut :
    let first := "|c40\r\n|m0505\n"
    let last := "|l0A0A|L00"
    let chunks := [first, "", "# |X0000\n\n", last]
    Text.StopsAtLine first.toList ∧
      (∀ chunk ∈ chunks.dropLast, Text.StopsAtLine chunk.toList) ∧
      ((decode last).feed first.toList).feed last.toList =
        (decode last).feed (first ++ last).toList ∧
      chunks.foldl (fun d chunk => d.feed chunk.toList) {} = decode (String.join chunks) ∧
      (decode (String.join chunks)).tally =
        { lines := 5, skippedLines := 2, emitted := 3, dropped := 1 } := by
  intro first last chunks
  have hf : Text.StopsAtLine first.toList := by decide
  have hc : ∀ chunk ∈ chunks.dropLast, Text.StopsAtLine chunk.toList := by decide
  exact ⟨hf, hc, feed_chunks.left _ _ _ hf, feed_chunks.right _ _ rfl hc, by decide +kernel⟩

end PenStream
