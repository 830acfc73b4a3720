import Mathlib.Algebra.GroupWithZero.Nat
import PenStream.Proofs.Numeral
import PenStream.Proofs.Range

namespace PenStream

-- A number and in how many digits it is written.
structure Parameter where
  value : Nat
  width : Nat
deriving DecidableEq

namespace Parameter

def Fits (p : Parameter) : Prop :=
  p.value < Nat.pow Numeral.radix p.width ∧ p.value ≤ Numeral.maxValue

-- The digits of one parameter after the other.
inductive Spelled : List Parameter → List Char → Prop
  | nil : Spelled [] []
  | cons {p ps cs ds} (h : Numeral.Spells p.value p.width cs) (hs : Spelled ps ds) :
    Spelled (p :: ps) (cs ++ ds)

namespace Spelled

variable {p : Parameter} {ps qs : List Parameter} {cs ds : List Char}

theorem nil_iff : Spelled [] cs ↔ cs = [] := by
  constructor
  · rintro ⟨⟩; rfl
  · rintro rfl; exact .nil

theorem cons_iff : Spelled (p :: ps) cs ↔
    ∃ ds es, cs = ds ++ es ∧ Numeral.Spells p.value p.width ds ∧ Spelled ps es := by
  constructor
  · rintro (_ | ⟨h, hs⟩); exact ⟨_, _, rfl, h, hs⟩
  · rintro ⟨_, _, rfl, h, hs⟩; exact .cons h hs

theorem singleton_iff : Spelled [p] cs ↔ Numeral.Spells p.value p.width cs := by
  rw [cons_iff]
  constructor
  · rintro ⟨_, _, rfl, h, ⟨⟩⟩; rwa [List.append_nil]
  · exact fun h => ⟨cs, [], (List.append_nil cs).symm, h, .nil⟩

theorem append_iff : Spelled (ps ++ qs) cs ↔
    ∃ ds es, cs = ds ++ es ∧ Spelled ps ds ∧ Spelled qs es := by
  induction ps generalizing cs with
  | nil => simp [nil_iff]
  | cons p ps hi =>
    simp only [List.cons_append, cons_iff, hi]
    constructor
    · rintro ⟨ds, _, rfl, h, es, fs, rfl, hp, hq⟩
      exact ⟨ds ++ es, fs, (List.append_assoc ..).symm, ⟨ds, es, rfl, h, hp⟩, hq⟩
    · rintro ⟨_, fs, rfl, ⟨ds, es, rfl, h, hp⟩, hq⟩
      exact ⟨ds, es ++ fs, List.append_assoc .., h, es, fs, rfl, hp, hq⟩

theorem uncons (h : Spelled (p :: ps) cs) :
    ∃ ds es, cs = ds ++ es ∧ Spelled [p] ds ∧ Spelled ps es :=
  append_iff.mp (show Spelled ([p] ++ ps) cs from h)

-- The widths say where each parameter ends.
theorem cons_iff_take : Spelled (p :: ps) cs ↔
    Numeral.Spells p.value p.width (cs.take p.width) ∧ Spelled ps (cs.drop p.width) := by
  rw [cons_iff]
  constructor
  · rintro ⟨ds, es, rfl, h, hs⟩
    rw [← h.length, List.take_left, List.drop_left]
    exact ⟨h.length.symm ▸ h, hs⟩
  · rintro ⟨h, hs⟩
    exact ⟨_, _, (List.take_append_drop ..).symm, h, hs⟩

instance decide : (ps : List Parameter) → (cs : List Char) → Decidable (Spelled ps cs)
  | [],      _  => decidable_of_iff _ nil_iff.symm
  | p :: ps, cs =>
    have := decide ps (cs.drop p.width)
    decidable_of_iff _ cons_iff_take.symm

theorem length (h : Spelled ps cs) : cs.length = (ps.map width).sum := by
  induction h with
  | nil          => rfl
  | cons h _ hi => rw [List.length_append, h.length, hi, List.map_cons, List.sum_cons]

theorem exists_digit (h : Spelled ps cs) :
    ∀ c ∈ cs, ∃ d < Numeral.radix, Numeral.Cased (Numeral.digitChar d) c := by
  induction h with
  | nil          => exact fun _ hc => absurd hc List.not_mem_nil
  | cons h _ hi =>
    intro c hc
    exact (List.mem_append.mp hc).elim (h.exists_digit c) (hi c)

end Spelled

theorem exists_spelled {ps : List Parameter} (h : ∀ p ∈ ps, p.Fits) : ∃ cs, Spelled ps cs := by
  induction ps with
  | nil => exact ⟨[], .nil⟩
  | cons p ps hi =>
    have ⟨hp, hps⟩ := List.forall_mem_cons.mp h
    have ⟨_, h⟩ := Numeral.exists_spells hp.left
    have ⟨_, hs⟩ := hi hps
    exact ⟨_, .cons h hs⟩

end Parameter

def Digit.parameter (d : Digit) : Parameter :=
  ⟨d.val, 1⟩

def Coordinate.parameter (c : Coordinate) : Parameter :=
  ⟨c.val, 2⟩

def Position.parameters (p : Position) : List Parameter :=
  [p.x.parameter, p.y.parameter]

-- The parameters with which an instruction is written out in full: an oval has its second radius,
-- and a polyline the number of its points in front of them.
def Instruction.parameters : Instruction → List Parameter
  | color fg bg          => [fg.parameter, bg.parameter]
  | line p q             => p.parameters ++ q.parameters
  | rectangle p q        => p.parameters ++ q.parameters
  | bar p q              => p.parameters ++ q.parameters
  | circle p r           => p.parameters ++ [r.parameter]
  | oval p sa ea rx ry   =>
    p.parameters ++ [sa.parameter, ea.parameter, rx.parameter, ry.parameter]
  | pixel p              => p.parameters
  | move p               => p.parameters
  | lineTo p             => p.parameters
  | polyline ps          => ⟨ps.length, 1⟩ :: ps.flatMap Position.parameters
  | fillStyle style c    => [style.parameter, c.parameter]
  | floodFill p border   => p.parameters ++ [border.parameter]
  | reset                => []
  | textWindow p q       => p.parameters ++ q.parameters

namespace Reading

open Parameter

variable {α β : Type} {cs ds : List Char}

-- A reading takes these characters for this value, whatever is behind them.
def Reads (r : Reading α) (cs : List Char) (a : α) : Prop :=
  ∀ rest taken, r.run { ahead := cs ++ rest, taken } =
    (a, { ahead := rest, taken := taken + cs.length })

namespace Reads

theorem pure (a : α) : Reads (pure a) [] a :=
  fun _ _ => rfl

theorem bind {r : Reading α} {f : α → Reading β} {a : α} {b : β} (h : Reads r cs a)
    (h' : Reads (f a) ds b) : Reads (r >>= f) (cs ++ ds) b := by
  intro rest taken
  rw [List.append_assoc, StateT.run_bind, h]
  change (f a).run _ = _
  rw [h', List.length_append, Nat.add_assoc]

-- What a reading ends with takes nothing.
theorem bind_pure {r : Reading α} {a : α} (h : Reads r cs a) (f : α → β) :
    Reads (r >>= fun a => Pure.pure (f a)) cs (f a) := by
  rw [← List.append_nil cs]
  exact h.bind (f := fun a => Pure.pure (f a)) (pure (f a))

theorem numeral {n width : Nat} (h : Numeral.Spells n width cs)
    (hn : n < Nat.pow Numeral.radix width) (hm : n ≤ Numeral.maxValue) :
    Reads (numeral width) cs ⟨n, hn⟩ := by
  intro rest taken
  have ht : (cs ++ rest).take width = cs := by rw [← h.length, List.take_left]
  have hd : (cs ++ rest).drop width = rest := by rw [← h.length, List.drop_left]
  simp only [Reading.numeral, StateT.run, ht, hd, h.read hm]

theorem digit {d : Digit} (h : Spelled [d.parameter] cs) : Reads digit cs d :=
  numeral (Spelled.singleton_iff.mp h) d.isLt (Nat.le_trans (Nat.le_of_lt d.isLt) (by decide))

theorem coordinate {c : Coordinate} (h : Spelled [c.parameter] cs) : Reads coordinate cs c :=
  numeral (Spelled.singleton_iff.mp h) c.isLt (Nat.le_trans (Nat.le_of_lt c.isLt) (by decide))

theorem position {p : Position} (h : Spelled p.parameters cs) : Reads position cs p := by
  have ⟨_, _, he, hx, hy⟩ := h.uncons
  subst he
  exact (coordinate hx).bind ((coordinate hy).bind_pure _)

theorem coordinateOr {c : Coordinate} (h : Spelled [c.parameter] cs) (otherwise : Coordinate) :
    Reads (coordinateOr otherwise) cs c := by
  intro rest taken
  have hr : reaches 2 (cs ++ rest) := by
    rw [reaches_iff, List.length_append, h.length]
    exact Nat.le_add_right 2 _
  rw [run_coordinateOr, if_pos hr]
  exact coordinate h rest taken

-- As many positions as are counted, although more might be there.
theorem positions {ps : List Position} (h : Spelled (ps.flatMap Position.parameters) cs) :
    Reads (positions ps.length) cs ps := by
  induction ps generalizing cs with
  | nil => exact Spelled.nil_iff.mp h ▸ pure []
  | cons p ps hi =>
    have ⟨ds, es, he, hp, hps⟩ := Spelled.append_iff.mp h
    subst he
    intro rest taken
    have hr : reaches 4 (ds ++ es ++ rest) := by
      rw [reaches_iff, List.length_append, List.length_append, hp.length, Nat.add_assoc]
      exact Nat.le_add_right 4 _
    rw [List.length_cons, run_positions_succ, if_pos hr, List.append_assoc, position hp]
    dsimp only
    rw [hi hps, List.length_append, Nat.add_assoc]

end Reads

end Reading

namespace Instruction

open Parameter Reading

variable {i : Instruction} {cs : List Char}

theorem fits_parameters (hi : i.Counted) : ∀ p ∈ i.parameters, p.Fits := by
  have hd (d : Digit) : d.parameter.Fits :=
    ⟨d.isLt, Nat.le_trans (Nat.le_of_lt d.isLt) (by decide)⟩
  have hc (c : Coordinate) : c.parameter.Fits :=
    ⟨c.isLt, Nat.le_trans (Nat.le_of_lt c.isLt) (by decide)⟩
  cases i <;>
    simp only [parameters, Position.parameters, List.cons_append, List.nil_append,
      List.forall_mem_cons, hd, hc, List.not_mem_nil, false_imp_iff, implies_true, and_self]
  case polyline ps =>
    have hl : ps.length ≤ 35 := hi
    refine ⟨⟨Nat.lt_succ_of_le hl, Nat.le_trans hl (by decide)⟩, fun p hp => ?_⟩
    have ⟨q, _, hq⟩ := List.mem_flatMap.mp hp
    rcases List.mem_pair.mp hq with rfl | rfl <;> exact hc _

theorem minLength_le (h : Spelled i.parameters cs) : i.opcode.minLength ≤ cs.length := by
  rw [h.length]
  cases i <;> simp [parameters, Position.parameters, opcode, Opcode.minLength, Digit.parameter,
    Coordinate.parameter]

-- Two positions, which is all that the straight shapes and the window have.
theorem reads_corners {p q : Position} (h : Spelled (p.parameters ++ q.parameters) cs)
    (f : Position → Position → Instruction) :
    Reads (do return f (← position) (← position)) cs (f p q) := by
  have ⟨_, _, he, hp, hq⟩ := Spelled.append_iff.mp h
  subst he
  exact (Reads.position hp).bind ((Reads.position hq).bind_pure _)

theorem reads_digits {d e : Digit} (h : Spelled [d.parameter, e.parameter] cs)
    (f : Digit → Digit → Instruction) :
    Reads (do return f (← digit) (← digit)) cs (f d e) := by
  have ⟨_, _, he, hd, hd'⟩ := h.uncons
  subst he
  exact (Reads.digit hd).bind ((Reads.digit hd').bind_pure _)

theorem reads_parameters (h : Spelled i.parameters cs) (hi : i.Counted) :
    Reads i.opcode.parameters cs i := by
  cases i
  case color fg bg           => exact reads_digits h _
  case fillStyle style color => exact reads_digits h _
  case line p q              => exact reads_corners h _
  case rectangle p q         => exact reads_corners h _
  case bar p q               => exact reads_corners h _
  case textWindow p q        => exact reads_corners h _
  case pixel p               => exact (Reads.position h).bind_pure _
  case move p                => exact (Reads.position h).bind_pure _
  case lineTo p              => exact (Reads.position h).bind_pure _
  case reset                 => exact Spelled.nil_iff.mp h ▸ Reads.pure _
  case circle p r            =>
    have ⟨_, _, he, hp, hr⟩ := Spelled.append_iff.mp h
    exact he ▸ (Reads.position hp).bind ((Reads.coordinate hr).bind_pure _)
  case floodFill p border    =>
    have ⟨_, _, he, hp, hb⟩ := Spelled.append_iff.mp h
    exact he ▸ (Reads.position hp).bind ((Reads.digit hb).bind_pure _)
  case oval p sa ea rx ry    =>
    have ⟨_, _, he, hp, h⟩ := Spelled.append_iff.mp h
    have ⟨_, _, he₁, hs, h⟩ := h.uncons
    have ⟨_, _, he₂, ha, h⟩ := h.uncons
    have ⟨_, _, he₃, hx, hy⟩ := h.uncons
    subst he he₁ he₂ he₃
    exact (Reads.position hp).bind <| (Reads.coordinate hs).bind <| (Reads.coordinate ha).bind <|
      (Reads.coordinate hx).bind <| (Reads.coordinateOr hy rx).bind_pure _
  case polyline ps           =>
    have ⟨_, _, he, hc, hps⟩ := h.uncons
    have hd : Reads digit _ ⟨ps.length, Nat.lt_succ_of_le hi⟩ := Reads.digit hc
    exact he ▸ hd.bind ((Reads.positions hps).bind_pure _)

-- An instruction that is written out in full is read, and all that is behind it is left.
theorem read?_opcode (h : Spelled i.parameters cs) (hi : i.Counted) (rest : List Char) :
    i.opcode.read? { ahead := cs ++ rest } =
      some (i, { ahead := rest, taken := cs.length }) := by
  refine Opcode.read?_eq_some_iff.mpr ⟨?_, by rw [reads_parameters h hi, Nat.zero_add]⟩
  rw [List.length_append]
  exact Nat.le_trans (minLength_le h) (Nat.le_add_right ..)

end Instruction

end PenStream
