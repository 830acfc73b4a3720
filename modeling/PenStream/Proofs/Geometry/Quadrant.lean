import Mathlib.Data.List.Chain
import Mathlib.Tactic.Common
import PenStream.Geometry.Ellipse.Tracer
import PenStream.Proofs.Geometry.Staircase

namespace PenStream

namespace Staircase

variable {p q : Point} {ps : List Point}

theorem head?_eq (h : Staircase p q ps) : ps.head? = some p := by
  cases h <;> rfl

theorem getLast?_eq (h : Staircase p q ps) : ps.getLast? = some q := by
  induction h with
  | stop        => rfl
  | step m _ hi => rw [List.getLast?_cons, hi]; rfl

theorem isChain (h : Staircase p q ps) :
    ps.IsChain fun p q => ∃ m : Arc.Move, m.from p = q := by
  induction h with
  | stop p      => exact .singleton p
  | step m h hi =>
    refine List.isChain_cons.mpr ⟨fun r hr => ⟨m, ?_⟩, hi⟩
    exact Option.some_inj.mp (h.head?_eq.symm.trans hr)

-- Every move leads farther to the right or farther down.
theorem nodup (h : Staircase p q ps) : ps.Nodup := by
  have hp : (ps.map fun p => p.x + p.y).Pairwise (· < ·) := by
    refine List.IsChain.pairwise ((List.isChain_map _).mpr (h.isChain.imp fun p q hm => ?_))
    obtain ⟨m, rfl⟩ := hm
    cases m <;> simp only [Arc.Move.from, Arc.Move.offset] <;> omega
  refine (List.pairwise_map.mp hp).imp fun hlt he => ?_
  exact Int.ne_of_lt hlt (congrArg (fun p : Point => p.x + p.y) he)

theorem length_bounds (h : Staircase p q ps) :
    q.x - p.x + 1 ≤ ps.length ∧ q.y - p.y + 1 ≤ ps.length ∧
      ps.length ≤ q.x - p.x + (q.y - p.y) + 1 := by
  induction h with
  | stop p      => simp
  | step m _ hi =>
    rw [List.length_cons]
    cases m <;> simp only [Arc.Move.from, Arc.Move.offset] at hi <;> omega

end Staircase

theorem Arc.Move.from_steps (m : Move) (p : Point) :
    ((m.from p).x = p.x ∨ (m.from p).x = p.x + 1) ∧
      ((m.from p).y = p.y ∨ (m.from p).y = p.y + 1) ∧ m.from p ≠ p := by
  obtain ⟨x, y⟩ := p
  cases m <;> simp [Move.from, Move.offset]

namespace Ellipse.Tracer

-- When it has given the offset of a place on the walk.
def behind (rx : Int) (a : Arc) : Tracer where
  arc := a
  rx
  offset := a.offset
  started := true
  isLevel := a.isLevel

theorem next?_behind {a : Arc} (h : ¬a.isLevel) (rx : Int) :
    (behind rx a).next? = some (a.step.offset, behind rx a.step) := by
  exact next?_of_walking (t := behind rx a) h

-- Once it is level, it goes straight to the side.
theorem yields_tail (t : Tracer) (h : t.isLevel) :
    Iteration.Yields next? t (quadrant.tailFrom t.rx t.offset) := by
  obtain ⟨arc, rx, p, started, isLevel⟩ := t
  obtain rfl : isLevel = true := h
  rw [quadrant.tailFrom, ← take_right]
  induction hn : (rx - p.x).toNat generalizing p with
  | zero =>
    exact .done (next?_of_side rfl (by dsimp only; omega))
  | succ n hi =>
    rw [Walk.take_succ]
    have hx := next?_of_level (t := ⟨arc, rx, p, started, true⟩) rfl (by dsimp only; omega)
    exact .next hx (hi ⟨p.x + 1, p.y⟩ (by dsimp only; omega))

-- From the tracer that gives this place of the walk next, if the walk comes down with the moves it
-- has.
theorem yields_walk {rx ry : Int} {a : Arc} (he : a.Exact rx ry)
    (hi : Arc.Inside rx ry a.offset) {moves : Nat} (hm : Arc.left rx a.offset ≤ moves) {t : Tracer}
    (ht : t.next? = some (a.offset, behind rx a)) :
    let offsets := (Walk.takeUntil Arc.step Arc.isLevel moves a).map Arc.offset
    Iteration.Yields next? t
      (offsets ++ quadrant.tailFrom rx (offsets.getLast?.getD .origin)) := by
  have level {t : Tracer} {a : Arc} (hl : a.isLevel)
      (ht : t.next? = some (a.offset, behind rx a)) :
      Iteration.Yields next? t (a.offset :: quadrant.tailFrom rx a.offset) :=
    .next ht (yields_tail (behind rx a) hl)
  intro offsets
  induction moves generalizing a t with
  | zero =>
    have := hi.bottom
    refine level ?_ ht
    simp only [Arc.left] at hm
    simp only [Arc.isLevel, decide_eq_true_eq]
    omega
  | succ moves ih =>
    simp only [offsets, Walk.takeUntil_succ]
    split
    case isTrue hl  => exact level hl ht
    case isFalse hl =>
      have hm : Arc.left rx a.step.offset ≤ moves := by
        have := Arc.left_step_lt he hi hl
        omega
      have hy := ih he.step (hi.step he hl) hm (next?_behind hl rx)
      obtain ⟨x, _, hg, _⟩ := Arc.staircase_walk he.step (hi.step he hl) hm
      dsimp only at hy
      rw [hg] at hy
      rw [List.map_cons, List.getLast?_cons, List.cons_append, hg]
      exact .next ht hy

theorem yields_quadrant (rx ry : Nat) :
    Iteration.Yields next? (ofRadii rx ry) (quadrant rx ry) := by
  refine yields_walk (Arc.Exact.top rx ry) (Arc.inside_top (by omega) (by omega)) ?_ rfl
  simp only [Arc.left, Arc.top]
  omega

end Ellipse.Tracer

namespace Ellipse

theorem quadrant_comes_down (rx ry : Nat) :
    Iteration.Yields Tracer.next? (.ofRadii rx ry) (quadrant rx ry) ∧
    let offsets := quadrant rx ry
    offsets.head? = some ⟨0, -ry⟩ ∧ offsets.getLast? = some ⟨rx, 0⟩ ∧
    (∀ p ∈ offsets, (0 ≤ p.x ∧ p.x ≤ rx) ∧ -ry ≤ p.y ∧ p.y ≤ 0) ∧
    (offsets.IsChain fun p q =>
      (q.x = p.x ∨ q.x = p.x + 1) ∧ (q.y = p.y ∨ q.y = p.y + 1) ∧ q ≠ p) ∧
    offsets.Nodup ∧
    max rx ry + 1 ≤ offsets.length ∧ offsets.length ≤ rx + ry + 1 := by
  refine ⟨Tracer.yields_quadrant rx ry, ?_⟩
  intro offsets
  have hs : Staircase ⟨0, -ry⟩ ⟨rx, 0⟩ offsets := staircase_quadrant rx ry
  have ⟨hx, hy, hl⟩ := hs.length_bounds
  dsimp only at hx hy hl
  refine ⟨hs.head?_eq, hs.getLast?_eq, fun p hp => ?_, ?_, hs.nodup, by omega, by omega⟩
  · have ⟨hx, hy⟩ := hs.start_le p hp
    have ⟨hx', hy'⟩ := hs.le_stop p hp
    exact ⟨⟨hx, hx'⟩, hy, hy'⟩
  · refine hs.isChain.imp fun p q hm => ?_
    obtain ⟨m, rfl⟩ := hm
    exact m.from_steps p

end Ellipse

end PenStream
