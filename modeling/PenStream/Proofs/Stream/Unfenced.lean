import PenStream.Proofs.Stream.Prepared

namespace PenStream.Text

section Trim

variable {p : Char → Bool}

theorem rdropWhile_append_of_ne_nil {ds : List Char} (h : ds.rdropWhile p ≠ []) (cs : List Char) :
    (cs ++ ds).rdropWhile p = cs ++ ds.rdropWhile p := by
  induction cs with
  | nil          => rfl
  | cons c cs hi =>
    rw [List.cons_append, rdropWhile_cons, if_neg fun he => ?_, hi, List.cons_append]
    rw [hi, List.append_eq_nil_iff] at he
    exact h he.left.right

theorem dropWhile_rdropWhile (cs : List Char) :
    (cs.rdropWhile p).dropWhile p = (cs.dropWhile p).rdropWhile p := by
  induction cs with
  | nil          => rfl
  | cons c cs hi =>
    rw [rdropWhile_cons]
    by_cases hc : p c
    case pos =>
      rw [List.dropWhile_cons_of_pos hc, ← hi]
      split
      case isTrue h => rw [h.left]
      case isFalse  => rw [List.dropWhile_cons_of_pos hc]
    case neg =>
      rw [if_neg fun h => hc h.right, List.dropWhile_cons_of_neg hc, List.dropWhile_cons_of_neg hc,
        rdropWhile_cons, if_neg fun h => hc h.right]

end Trim

-- A trimmed text does not end with a blank.
theorem rdropWhile_trim (cs : List Char) : (trim cs).rdropWhile isBlank = trim cs :=
  List.rdropWhile_idempotent ..

theorem trim_trim (cs : List Char) : trim (trim cs) = trim cs :=
  calc trim (trim cs)
    _ = ((trim cs).rdropWhile isBlank).dropWhile isBlank := (dropWhile_rdropWhile _).symm
    _ = (trim cs).dropWhile isBlank                      := by rw [rdropWhile_trim]
    _ = ((cs.dropWhile isBlank).dropWhile isBlank).rdropWhile isBlank := dropWhile_rdropWhile _
    _ = (cs.dropWhile isBlank).rdropWhile isBlank        := by rw [List.dropWhile_idempotent]

theorem trim_eq_nil_iff {cs : List Char} : trim cs = [] ↔ ∀ c ∈ cs, isBlank c := by
  induction cs with
  | nil          => exact iff_of_true rfl nofun
  | cons c cs hi =>
    rw [List.forall_mem_cons]
    by_cases hc : isBlank c
    case pos => rw [trim_cons hc, hi, and_iff_right hc]
    case neg =>
      rw [trim_of_not_isBlank hc, rdropWhile_cons, if_neg fun h => hc h.right]
      exact iff_of_false (List.cons_ne_nil _ _) fun h => hc h.left

theorem isInfix_trim (cs : List Char) : trim cs <:+: cs :=
  (List.rdropWhile_prefix ..).isInfix.trans (List.dropWhile_suffix ..).isInfix

-- As many backquotes as a fence has at most are not in front of the rest unless they have been in
-- front of the text.
theorem prefix_of_prefix_dropFences {n : Nat} (hn : n ≤ 3) {cs : List Char}
    (h : List.replicate n '\x60' <+: dropFences cs) : List.replicate n '\x60' <+: cs := by
  induction n generalizing cs with
  | zero      => exact List.nil_prefix
  | succ n hi =>
    by_cases hf : fence <+: cs
    case pos =>
      have hp : List.replicate (n + 1) '\x60' <+: List.replicate 3 '\x60' :=
        List.prefix_replicate_iff.mpr (by simpa using hn)
      exact hp.trans hf
    case neg =>
      cases cs with
      | nil       => rwa [dropFences_nil] at h
      | cons c cs =>
        rw [dropFences_cons hf, List.replicate_succ, List.cons_prefix_cons] at h
        exact List.cons_prefix_cons.mpr ⟨h.left, hi (by omega) h.right⟩

-- Taking a fence away joins what is on its two sides; but the first has no backquote in front of
-- it, so that no new fence comes about.
theorem not_infix_dropFences (cs : List Char) : ¬fence <:+: dropFences cs := by
  induction cs using dropFences.induct with
  | case1 rest hi      => rwa [dropFences]
  | case2 c rest hn hi =>
    have hf : ¬fence <+: c :: rest := by
      rintro ⟨rest', h⟩
      cases h
      exact hn rest' rfl rfl
    -- A fence that starts with `c` would have been there before.
    rw [dropFences_cons hf, List.infix_cons_iff, not_or, ← dropFences_cons hf]
    exact ⟨fun h => hf (prefix_of_prefix_dropFences (n := 3) (Nat.le_refl _) h), hi⟩
  | case3              => rw [dropFences_nil]; decide

theorem not_infix_resetMark {cs : List Char} (h : ¬fence <:+: cs) :
    ¬fence <:+: resetMark ++ '\n' :: cs := by
  simpa [resetMark, List.infix_cons_iff, fence] using h

theorem prepare_eq_self {cs : List Char} (hr : resetMark <+: cs) (hf : ¬fence <:+: cs)
    (ht : trim cs = cs) : prepare cs = cs := by
  rw [prepare, dropFences_of_not_infix hf, ht]
  exact if_pos (List.isPrefixOf_iff_prefix.mpr hr)

-- With a reset in front of it, a text that is empty ends with a blank, and no other does.
theorem trim_resetMark {cs : List Char} (h : cs.rdropWhile isBlank = cs) :
    trim (resetMark ++ '\n' :: cs) = if cs = [] then resetMark else resetMark ++ '\n' :: cs := by
  have hb : ¬isBlank '|' := by decide
  rw [resetMark, List.cons_append, trim_of_not_isBlank hb]
  split
  case isTrue he  => rw [he]; rfl
  case isFalse he =>
    have hn : cs.rdropWhile isBlank ≠ [] := h.symm ▸ he
    have hd := rdropWhile_append_of_ne_nil hn ['|', '*', '\n']
    rwa [h] at hd

-- A prepared text starts with a reset and has no fence in it; and unless it is but a reset and the
-- feed behind it, because there was nothing else, it is prepared for good.
theorem prepare_settles (cs : List Char) :
    resetMark <+: prepare cs ∧ ¬fence <:+: prepare cs ∧
      (prepare (prepare cs) = prepare cs ↔ ∃ c ∈ dropFences cs, ¬isBlank c) := by
  have hn : ¬fence <:+: trim (dropFences cs) :=
    fun h => not_infix_dropFences cs (h.trans (isInfix_trim _))
  have hb : (∃ c ∈ dropFences cs, ¬isBlank c) ↔ trim (dropFences cs) ≠ [] := by
    simp [trim_eq_nil_iff]
  rw [hb]
  by_cases hr : resetMark <+: trim (dropFences cs)
  case pos =>
    have hp : prepare cs = trim (dropFences cs) := if_pos (List.isPrefixOf_iff_prefix.mpr hr)
    rw [hp, prepare_eq_self hr hn (trim_trim _)]
    refine ⟨hr, hn, iff_of_true rfl fun he => ?_⟩
    rw [he] at hr
    exact absurd hr (by decide)
  case neg =>
    have hp : prepare cs = resetMark ++ '\n' :: trim (dropFences cs) :=
      if_neg (mt List.isPrefixOf_iff_prefix.mp hr)
    have hm : resetMark <+: resetMark ++ '\n' :: trim (dropFences cs) := List.prefix_append ..
    have hf := not_infix_resetMark hn
    have ht := trim_resetMark (rdropWhile_trim (dropFences cs))
    rw [hp]
    refine ⟨hm, hf, ?_⟩
    by_cases he : trim (dropFences cs) = []
    case neg =>
      rw [if_neg he] at ht
      exact iff_of_true (prepare_eq_self hm hf ht) he
    case pos =>
      rw [if_pos he] at ht
      rw [prepare, dropFences_of_not_infix hf, ht, he]
      exact iff_of_false (by decide) fun h => h rfl

end PenStream.Text
