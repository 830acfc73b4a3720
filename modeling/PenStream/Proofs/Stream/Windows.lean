import PenStream.Proofs.Range
import PenStream.Proofs.Stream.Parameters

namespace PenStream

namespace Cursor

-- The place so many characters further on.
def advance (c : Cursor) (n : Nat) : Cursor :=
  { ahead := c.ahead.drop n, taken := c.taken + n }

variable (c : Cursor) (m n : Nat)

@[simp]
theorem advance_zero : c.advance 0 = c :=
  rfl

@[simp]
theorem advance_advance : (c.advance m).advance n = c.advance (m + n) := by
  rw [advance, advance, advance, List.drop_drop, Nat.add_assoc]

@[simp]
theorem length_ahead_advance : (c.advance n).ahead.length = c.ahead.length - n :=
  List.length_drop

end Cursor

namespace Reading

variable {α β : Type}

-- At this place so many characters are there and taken, by the reading as by its strict form, and
-- the two come to the same.
structure TakesAt (c : Cursor) (n : Nat) (r : Reading α) (s : Strict.Reading α) : Prop where
  enough : n ≤ c.ahead.length
  place : (r.run c).2 = c.advance n
  strict : s.run c = pure (r.run c)

-- Wherever so many characters are there.
def Takes (n : Nat) (r : Reading α) (s : Strict.Reading α) : Prop :=
  ∀ c : Cursor, n ≤ c.ahead.length → TakesAt c n r s

namespace TakesAt

variable {c : Cursor} {m n : Nat} {r : Reading α} {s : Strict.Reading α} {f : α → Reading β}
  {g : α → Strict.Reading β}

theorem bind (h : TakesAt c n r s)
    (h' : TakesAt (c.advance n) m (f (r.run c).1) (g (r.run c).1)) :
    TakesAt c (n + m) (r >>= f) (s >>= g) where
  enough := by
    have := h.enough
    have := h'.enough
    rw [Cursor.length_ahead_advance] at this
    omega
  place := by
    change ((f (r.run c).1).run (r.run c).2).2 = _
    rw [h.place, h'.place, Cursor.advance_advance]
  strict := by
    change s.run c >>= (fun p => (g p.1).run p.2) = pure ((f (r.run c).1).run (r.run c).2)
    rw [h.strict, pure_bind, h.place, h'.strict]

end TakesAt

namespace Takes

variable {m n : Nat} {r : Reading α} {s : Strict.Reading α} {f : α → Reading β}
  {g : α → Strict.Reading β}

theorem pure (a : α) : Takes 0 (pure a) (pure a) :=
  fun _ h => ⟨h, rfl, rfl⟩

theorem bind (h : Takes n r s) (h' : ∀ a, Takes m (f a) (g a)) :
    Takes (n + m) (r >>= f) (s >>= g) := fun c hc =>
  (h c (Nat.le_trans (Nat.le_add_right n m) hc)).bind
    (h' _ _ (by rw [Cursor.length_ahead_advance]; omega))

theorem numeral (width : Nat) : Takes width (numeral width) (Strict.Reading.numeral width) :=
  fun c h => {
    enough := h
    place := by
      change Cursor.mk _ _ = _
      rw [List.length_take_of_le h]
      rfl
    strict := Strict.require_bind h }

end Takes

theorem FromNumerals.takes {n : Nat} {r : Reading α} {s : Strict.Reading α}
    (h : FromNumerals n r s) : Takes n r s := by
  induction h with
  | pure a          => exact .pure a
  | bind _ _ hi hi' => exact hi.bind hi'
  | numeral width   => exact .numeral width

section Branch

variable {c : Cursor} {k n : Nat} {r r' : Reading α} {s s' : Strict.Reading α}

theorem TakesAt.of_reaches (hk : k ≤ c.ahead.length) (h : TakesAt c n r s) :
    TakesAt c n (do if reaches k (← get).ahead then r else r')
      (do if reaches k (← get).ahead then s else s') where
  enough := h.enough
  place := by rw [run_branch, if_pos (reaches_iff.mpr hk), h.place]
  strict := by
    rw [run_branch, run_branch, if_pos (reaches_iff.mpr hk), if_pos (reaches_iff.mpr hk), h.strict]

theorem TakesAt.of_not_reaches (hk : ¬k ≤ c.ahead.length) (h : TakesAt c n r' s') :
    TakesAt c n (do if reaches k (← get).ahead then r else r')
      (do if reaches k (← get).ahead then s else s') where
  enough := h.enough
  place := by rw [run_branch, if_neg (mt reaches_iff.mp hk), h.place]
  strict := by
    rw [run_branch, run_branch, if_neg (mt reaches_iff.mp hk), if_neg (mt reaches_iff.mp hk),
      h.strict]

end Branch

theorem takesAt_coordinateOr (otherwise : Coordinate) (c : Cursor) :
    TakesAt c (if 2 ≤ c.ahead.length then 2 else 0) (coordinateOr otherwise)
      (Strict.Reading.coordinateOr otherwise) := by
  split
  case isTrue h  => exact .of_reaches h (FromNumerals.coordinate.takes c h)
  case isFalse h => exact .of_not_reaches h (Takes.pure otherwise c (Nat.zero_le _))

theorem takesAt_positions (count : Nat) (c : Cursor) :
    TakesAt c (4 * min count (c.ahead.length / 4)) (positions count)
      (Strict.Reading.positions count) := by
  induction count generalizing c with
  | zero          =>
    rw [Nat.zero_min]
    exact Takes.pure [] c (Nat.zero_le _)
  | succ count hi =>
    by_cases h : 4 ≤ c.ahead.length
    case pos =>
      have hn : 4 * min (count + 1) (c.ahead.length / 4) =
          4 + (4 * min count ((c.advance 4).ahead.length / 4) + 0) := by
        rw [Cursor.length_ahead_advance]
        omega
      rw [hn]
      exact .of_reaches h <| (FromNumerals.position.takes c h).bind <| (hi _).bind <|
        Takes.pure _ _ (Nat.zero_le _)
    case neg =>
      rw [Nat.div_eq_of_lt (Nat.lt_of_not_le h), Nat.min_zero]
      exact .of_not_reaches h (Takes.pure [] c (Nat.zero_le _))

end Reading

namespace Opcode

open Reading (FromNumerals Takes TakesAt)

-- The points of a polyline, of which the count digit is the first of the characters.
def points (window : List Char) : Nat :=
  min (Numeral.read (window.take 1)) ((window.length - 1) / 4)

-- How many of the characters an opcode takes, if its least number is there.
def consumed (window : List Char) : Opcode → Nat
  | oval     => if 12 ≤ window.length then 12 else 10
  | polyline => 1 + 4 * points window
  | op       => op.minLength

theorem takesAt_oval {c : Cursor} (h : 10 ≤ c.ahead.length) :
    TakesAt c (if 12 ≤ c.ahead.length then 12 else 10) oval.parameters
      (Strict.parameters oval) := by
  -- The second radius is looked for behind the center, the angles and the first.
  have hn : (if 12 ≤ c.ahead.length then 12 else 10) =
      4 + (2 + (2 + (2 + ((if 2 ≤ ((((c.advance 4).advance 2).advance 2).advance 2).ahead.length
        then 2 else 0) + 0)))) := by
    simp only [Cursor.length_ahead_advance]
    split <;> split <;> omega
  rw [hn]
  have hc := FromNumerals.coordinate.takes
  refine (FromNumerals.position.takes c ?_).bind <| (hc _ ?_).bind <| (hc _ ?_).bind <|
    (hc _ ?_).bind <| (Reading.takesAt_coordinateOr ..).bind <| Takes.pure _ _ (Nat.zero_le _)
  all_goals try simp only [Cursor.length_ahead_advance]
  all_goals omega

theorem takesAt_polyline {c : Cursor} (h : 1 ≤ c.ahead.length) :
    TakesAt c (1 + 4 * points c.ahead) polyline.parameters (Strict.parameters polyline) :=
  (FromNumerals.digit.takes c h).bind <| by
    have hp := Reading.takesAt_positions (Reading.digit.run c).1.val (c.advance 1)
    rw [Cursor.length_ahead_advance] at hp
    exact hp.bind (m := 0) (Takes.pure _ _ (Nat.zero_le _))

theorem takesAt_parameters {op : Opcode} {c : Cursor} (h : op.minLength ≤ c.ahead.length) :
    TakesAt c (op.consumed c.ahead) op.parameters (Strict.parameters op) := by
  cases op
  case oval     => exact takesAt_oval h
  case polyline => exact takesAt_polyline h
  all_goals exact (parameters_fromNumerals (by nofun) (by nofun)).takes c h

theorem opcode_parameters (op : Opcode) (c : Cursor) : (op.parameters.run c).1.opcode = op := by
  cases op <;> rfl

theorem exists_oval (c : Cursor) : ∃ center startAngle endAngle rx ry,
    (oval.parameters.run c).1 = .oval center startAngle endAngle rx ry ∧
      (c.ahead.length < 12 → ry = rx) := by
  let c₁ := (Reading.position.run c).2
  let c₂ := (Reading.coordinate.run c₁).2
  let c₃ := (Reading.coordinate.run c₂).2
  let c₄ := (Reading.coordinate.run c₃).2
  let rx := (Reading.coordinate.run c₃).1
  refine ⟨(Reading.position.run c).1, (Reading.coordinate.run c₁).1, (Reading.coordinate.run c₂).1,
    rx, ((Reading.coordinateOr rx).run c₄).1, rfl, fun h => ?_⟩
  have ha : c₄.ahead = ((((c.ahead.drop 2).drop 2).drop 2).drop 2).drop 2 := rfl
  rw [Reading.run_coordinateOr, if_neg]
  rw [Reading.reaches_iff, ha]
  simp only [List.length_drop]
  omega

theorem exists_polyline (c : Cursor) : ∃ ps,
    (polyline.parameters.run c).1 = .polyline ps ∧ ps.length = points c.ahead := by
  let c₁ := (Reading.digit.run c).2
  have ha : c₁.ahead.length = c.ahead.length - 1 := List.length_drop
  refine ⟨((Reading.positions (Reading.digit.run c).1.val).run c₁).1, rfl, ?_⟩
  rw [Reading.length_positions, ha]
  rfl

variable {op : Opcode} {c c' : Cursor} {i : Instruction}

theorem strict_read?_eq (op : Opcode) (c : Cursor) : Strict.read? op c = pure (op.read? c) := by
  unfold Strict.read? read?
  split
  case isFalse  => rfl
  case isTrue h => rw [(takesAt_parameters (Reading.reaches_iff.mp h)).strict, map_pure]

theorem place_of_read? (h : op.read? c = some (i, c')) :
    op.consumed c.ahead ≤ c.ahead.length ∧ c' = c.advance (op.consumed c.ahead) := by
  have ⟨hl, hr⟩ := read?_eq_some_iff.mp h
  have ht := takesAt_parameters hl
  exact ⟨ht.enough, by rw [← ht.place, hr]⟩

end Opcode

namespace Segment

variable {introducer : Char} (hi : isIntroducer introducer) {op : Opcode} {window : List Char}
include hi

-- An instruction that is cut short leaves all that is behind its letter to those that follow.
theorem scan_short (h : window.length < op.minLength) :
    scan (introducer :: op.letter :: window) = .short introducer op :: scan window := by
  have hr : op.read? { ahead := window } = none := Opcode.read?_eq_none_iff.mpr h
  rw [scan, if_pos hi]
  simp only [Opcode.ofLetter?_letter, hr]

theorem scan_complete {i : Instruction} {c : Cursor}
    (h : op.read? { ahead := window } = some (i, c)) :
    scan (introducer :: op.letter :: window) =
      .complete introducer op (window.take c.taken) i :: scan (window.drop c.taken) := by
  rw [scan, if_pos hi]
  simp only [Opcode.ofLetter?_letter, h]

end Segment

-- An opcode finds its instruction wherever its least number of characters is there, and reads no
-- numeral of which the line has only a part. Where there are fewer, it takes none of them.
theorem Opcode.reads_window (op : Opcode) (c : Cursor) (pen : Pen) :
    (op.read? c = none ↔ c.ahead.length < op.minLength) ∧
    (op.read? c = none → ∀ introducer, isIntroducer introducer →
      Segment.scan (introducer :: op.letter :: c.ahead) =
        .short introducer op :: Segment.scan c.ahead) ∧
    Strict.read? op c = pure (op.read? c) ∧
    ∀ i c', op.read? c = some (i, c') →
      (i.command pen).opcode.letter = op.letter ∧
      op.consumed c.ahead ≤ c.ahead.length ∧ c' = c.advance (op.consumed c.ahead) ∧
      (op = oval → ∃ center startAngle endAngle rx ry,
        i.command pen = .ellipse center startAngle endAngle rx ry pen.fg ∧
          (c.ahead.length < 12 → ry = rx)) ∧
      (op = polyline → ∃ ps,
        i.command pen = .polyline ps pen.fg ∧ ps.length = points c.ahead) := by
  refine ⟨read?_eq_none_iff, fun h introducer hi => ?_, strict_read?_eq op c, fun i c' h => ?_⟩
  · exact Segment.scan_short hi (read?_eq_none_iff.mp h)
  · have ⟨hn, hc⟩ := place_of_read? h
    obtain rfl : (op.parameters.run c).1 = i := by rw [(read?_eq_some_iff.mp h).right]
    refine ⟨?_, hn, hc, ?_, ?_⟩
    · rw [Instruction.opcode_command, opcode_parameters]
    · rintro rfl
      obtain ⟨center, startAngle, endAngle, rx, ry, he, hr⟩ := exists_oval c
      exact ⟨_, _, _, _, _, by rw [he]; rfl, fun hl => by rw [hr hl]⟩
    · rintro rfl
      obtain ⟨ps, he, hl⟩ := exists_polyline c
      exact ⟨_, by rw [he]; rfl, by rw [List.length_map, hl]⟩

-- A line that is cut short, an oval with half a radius behind it, and a polyline of three points
-- of which one and a half are there.
theorem Opcode.reads_window_in_part :
    let pen : Pen := { fg := 4 }
    let short : Cursor := { ahead := "0000|c".toList }
    let round : Cursor := { ahead := "0A0A00A0057".toList, taken := 3 }
    let dangling : Cursor := { ahead := "30101AB".toList }
    let circle : Instruction := .oval ⟨10, 10⟩ 0 360 5 5
    let dot : Instruction := .polyline [⟨1, 1⟩]
    line.read? short = none ∧
      Segment.scan ('!' :: 'L' :: short.ahead) = .short '!' .line :: Segment.scan short.ahead ∧
      oval.read? round = some (circle, { ahead := ['7'], taken := 13 }) ∧
      (circle.command pen).opcode.letter = 'O' ∧ oval.consumed round.ahead = 10 ∧
      (∃ center startAngle endAngle rx ry,
        circle.command pen = .ellipse center startAngle endAngle rx ry pen.fg ∧ ry = rx) ∧
      polyline.read? dangling = some (dot, { ahead := ['A', 'B'], taken := 5 }) ∧
      polyline.consumed dangling.ahead = 5 ∧
      ∃ ps, dot.command pen = .polyline ps pen.fg ∧ ps.length = 1 := by
  intro pen short round dangling circle dot
  have hn : line.read? short = none := rfl
  have ho : oval.read? round = some (circle, { ahead := ['7'], taken := 13 }) := rfl
  have hp : polyline.read? dangling = some (dot, { ahead := ['A', 'B'], taken := 5 }) := rfl
  have ⟨hl, _, _, hr, _⟩ := (reads_window oval round pen).right.right.right circle _ ho
  have ⟨_, _, _, _, hs⟩ := (reads_window polyline dangling pen).right.right.right dot _ hp
  have ⟨_, _, _, _, _, he, hy⟩ := hr rfl
  have hk : points dangling.ahead = 1 := by decide
  exact ⟨hn, (reads_window line short pen).right.left hn '!' rfl, ho, hl, by decide,
    ⟨_, _, _, _, _, he, hy (by decide)⟩, hp, by decide, hk ▸ hs rfl⟩

end PenStream
