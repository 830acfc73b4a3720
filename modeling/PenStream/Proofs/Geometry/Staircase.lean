import PenStream.Proofs.Geometry.Arc
import PenStream.Geometry.Ellipse

namespace PenStream

namespace Arc.Move

variable (m : Move) (p : Point)

theorem from_bounds : (p.x ≤ (m.from p).x ∧ (m.from p).x ≤ p.x + 1) ∧
    p.y ≤ (m.from p).y ∧ (m.from p).y ≤ p.y + 1 := by
  cases m <;> simp only [Move.from, Move.offset] <;> omega

-- A move that does not lead down leads to the right.
theorem from_of_level {m : Move} {p : Point} (h : (m.from p).y ≤ p.y) :
    m.from p = ⟨p.x + 1, p.y⟩ := by
  cases m <;> simp only [Move.from, Move.offset] at h ⊢
  case across => rw [Int.add_zero]
  all_goals omega

end Arc.Move

inductive Staircase : Point → Point → List Point → Prop
  | stop (p : Point) : Staircase p p [p]
  | step {p q : Point} {ps : List Point} (m : Arc.Move) (h : Staircase (m.from p) q ps) :
    Staircase p q (p :: ps)

namespace Staircase

variable {p q r : Point} {ps qs : List Point}

-- Two staircases are one if the second starts where the first stops.
theorem trans (h : Staircase p q ps) (h' : Staircase q r (q :: qs)) : Staircase p r (ps ++ qs) := by
  induction h with
  | stop        => exact h'
  | step m _ hi => exact .step m (hi h')

theorem start_mem (h : Staircase p q ps) : p ∈ ps := by
  cases h <;> exact List.mem_cons_self

theorem start_le (h : Staircase p q ps) : ∀ o ∈ ps, p.x ≤ o.x ∧ p.y ≤ o.y := by
  induction h with
  | stop p => simp
  | @step p q ps m _ hi =>
    refine List.forall_mem_cons.mpr ⟨⟨Int.le_refl _, Int.le_refl _⟩, fun o ho => ?_⟩
    have ⟨hx, hy⟩ := m.from_bounds p
    have ⟨hx', hy'⟩ := hi o ho
    exact ⟨Int.le_trans hx.left hx', Int.le_trans hy.left hy'⟩

theorem le_stop (h : Staircase p q ps) : ∀ o ∈ ps, o.x ≤ q.x ∧ o.y ≤ q.y := by
  induction h with
  | stop p => simp
  | @step p q ps m h hi =>
    have ⟨hx, hy⟩ := m.from_bounds p
    have ⟨hx', hy'⟩ := hi _ h.start_mem
    exact List.forall_mem_cons.mpr
      ⟨⟨Int.le_trans hx.left hx', Int.le_trans hy.left hy'⟩, hi⟩

-- Of two pixels, the lower one is not farther to the left.
theorem x_le_of_y_lt (h : Staircase p q ps) {o o' : Point} (ho : o ∈ ps) (ho' : o' ∈ ps)
    (hy : o.y < o'.y) : o.x ≤ o'.x := by
  induction h with
  | stop p =>
    rw [List.mem_singleton.mp ho, List.mem_singleton.mp ho']
  | step m h hi =>
    have hl := (step m h).start_le
    rcases List.mem_cons.mp ho with rfl | hm
    · exact (hl o' ho').left
    · rcases List.mem_cons.mp ho' with rfl | hm'
      · have := (hl o ho).right
        omega
      · exact hi hm hm'

-- The first row has no gap.
theorem mem_first_row (h : Staircase p q ps) {o : Point} (ho : o ∈ ps) (hy : o.y = p.y) {x : Int}
    (hx : p.x ≤ x ∧ x ≤ o.x) : ⟨x, p.y⟩ ∈ ps := by
  induction h with
  | stop p =>
    rw [List.mem_singleton] at ho ⊢
    rw [ho] at hx
    rw [Int.le_antisymm hx.right hx.left]
  | @step p q ps m h hi =>
    rcases List.mem_cons.mp ho with rfl | ho
    · rw [Int.le_antisymm hx.right hx.left]
      exact List.mem_cons_self
    · by_cases he : x = p.x
      case pos => exact he ▸ List.mem_cons_self
      case neg =>
        -- As long as the row is the same, every move is to the right.
        have hm := Arc.Move.from_of_level (Int.le_trans (h.start_le o ho).right (Int.le_of_eq hy))
        rw [hm] at hi
        exact List.mem_cons_of_mem _ (hi ho hy ⟨by dsimp only; omega, hx.right⟩)

-- Where a staircase enters a lower row: from the row above, at the same place or one to the right;
-- and from there on the row has no gap.
theorem exists_entry (h : Staircase p q ps) {y : Int} (hp : p.y < y) (hq : y ≤ q.y) :
    ∃ o ∈ ps, ∃ o' ∈ ps, o.y = y - 1 ∧ o'.y = y ∧ o'.x ≤ o.x + 1 ∧
      ∀ r ∈ ps, r.y = y → ∀ x, o'.x ≤ x → x ≤ r.x → ⟨x, y⟩ ∈ ps := by
  induction h with
  | stop p => omega
  | @step p q ps m h hi =>
    have hs := h.start_mem
    have ⟨hx, hy⟩ := m.from_bounds p
    by_cases he : (m.from p).y = y
    case pos =>
      refine ⟨p, List.mem_cons_self, m.from p, List.mem_cons_of_mem _ hs, by omega, he,
        hx.right, ?_⟩
      intro r hr hy x hx hx'
      rcases List.mem_cons.mp hr with rfl | hr
      · omega
      · have hm := h.mem_first_row hr (hy.trans he.symm) ⟨hx, hx'⟩
        rw [he] at hm
        exact List.mem_cons_of_mem _ hm
    case neg =>
      obtain ⟨o, ho, o', ho', h₁, h₂, h₃, h₄⟩ := hi (by omega) hq
      refine ⟨o, List.mem_cons_of_mem _ ho, o', List.mem_cons_of_mem _ ho', h₁, h₂, h₃, ?_⟩
      intro r hr hy x hx hx'
      rcases List.mem_cons.mp hr with rfl | hr
      · omega
      · exact List.mem_cons_of_mem _ (h₄ r hr hy x hx hx')

theorem exists_mem_row (h : Staircase p q ps) {y : Int} (hy : p.y ≤ y ∧ y ≤ q.y) :
    ∃ o ∈ ps, o.y = y := by
  rcases Int.lt_or_eq_of_le hy.left with hl | rfl
  case inl =>
    have ⟨_, _, o, ho, _, he, _⟩ := h.exists_entry hl hy.right
    exact ⟨o, ho, he⟩
  case inr => exact ⟨p, h.start_mem, rfl⟩

-- To the left of some pixel of its row. A row of a staircase has no gap, and the next one starts
-- under its last pixel or one to the right of it, so that there is no way out but through the
-- staircase.
def Shields (ps : List Point) (p : Point) : Prop :=
  ∃ o ∈ ps, o.y = p.y ∧ p.x < o.x

-- From the left of a staircase, no move to a side leads past it.
theorem shields_right (hs : Shields ps p) {x : Int} (hx : x ≤ p.x + 1) (hn : ⟨x, p.y⟩ ∉ ps) :
    Shields ps ⟨x, p.y⟩ := by
  have ⟨o, ho, hy, hl⟩ := hs
  refine ⟨o, ho, hy, ?_⟩
  have hne : x ≠ o.x := fun he => hn (by rw [he, ← hy]; exact ho)
  dsimp only
  omega

theorem shields_below (h : Staircase p q ps) {r : Point} (hs : Shields ps r) (hq : r.y < q.y) :
    Shields ps ⟨r.x, r.y + 1⟩ := by
  have ⟨o, ho, hy, hl⟩ := hs
  have hp := (h.start_le o ho).right
  have ⟨_, _, o', ho', _, hy', _⟩ := h.exists_entry (y := r.y + 1) (by omega) (by omega)
  have hx := h.x_le_of_y_lt ho ho' (by omega)
  exact ⟨o', ho', hy', by dsimp only; omega⟩

theorem shields_above (h : Staircase p q ps) {r : Point} (hs : Shields ps r) (hr : r ∉ ps)
    (hx : p.x ≤ r.x) (hq : r.y ≤ q.y) (hn : ⟨r.x, r.y - 1⟩ ∉ ps) : Shields ps ⟨r.x, r.y - 1⟩ := by
  have ⟨o, ho, hy, hl⟩ := hs
  have hp := (h.start_le o ho).right
  by_cases hf : r.y = p.y
  case pos =>
    -- The first row reaches from the start to what shields it.
    have hm := h.mem_first_row ho (hy.trans hf) ⟨hx, Int.le_of_lt hl⟩
    rw [← hf] at hm
    exact absurd hm hr
  case neg =>
    have ⟨u, hu, v, hv, huy, hvy, huv, hg⟩ := h.exists_entry (y := r.y) (by omega) hq
    have hrv : r.x < v.x := by
      by_contra hc
      exact hr (hg o ho hy r.x (by omega) (Int.le_of_lt hl))
    have hne : r.x ≠ u.x := fun he => hn (by rw [he, ← huy]; exact hu)
    exact ⟨u, hu, huy, by dsimp only; omega⟩

-- A place from which one move to a side, up or down leads, off the staircase, is on the same side.
theorem shields_of_near (h : Staircase p q ps) {u v : Point} (hu : u ∉ ps) (hv : v ∉ ps)
    (hx : p.x ≤ u.x) (huy : u.y ≤ q.y) (hvy : v.y ≤ q.y)
    (hn : (v.y = u.y ∧ v.x ≤ u.x + 1) ∨ (v.x = u.x ∧ (v.y = u.y + 1 ∨ v.y = u.y - 1)))
    (hs : Shields ps u) : Shields ps v := by
  obtain ⟨vx, vy⟩ := v
  rcases hn with ⟨rfl, hvx⟩ | ⟨rfl, rfl | rfl⟩
  · exact shields_right hs hvx hv
  · exact h.shields_below hs hvy
  · exact h.shields_above hs hu hx huy hv

end Staircase

namespace Arc

variable {rx ry : Int} {a : Arc}

-- The walk along a quadrant is a staircase, and it stops when it is level with the centre.
theorem staircase_walk (he : a.Exact rx ry) (h : Inside rx ry a.offset) {moves : Nat}
    (hm : left rx a.offset ≤ moves) :
    ∃ x ≤ rx, ((Walk.takeUntil step isLevel moves a).map offset).getLast? = some ⟨x, 0⟩ ∧
      Staircase a.offset ⟨x, 0⟩ ((Walk.takeUntil step isLevel moves a).map offset) := by
  have level {p : Point} (h : Inside rx ry p) (hy : p.y = 0) :
      ∃ x ≤ rx, [p].getLast? = some ⟨x, 0⟩ ∧ Staircase p ⟨x, 0⟩ [p] := by
    have hp : p = ⟨p.x, 0⟩ := by rw [← hy]
    exact ⟨_, h.right, congrArg some hp, hp ▸ .stop _⟩
  induction moves generalizing a with
  | zero =>
    have := h.bottom
    exact level h (by simp only [left] at hm; omega)
  | succ moves hi =>
    rw [Walk.takeUntil_succ]
    split
    case isTrue hl =>
      have := h.bottom
      exact level h (by simp only [isLevel, decide_eq_true_eq] at hl; omega)
    case isFalse hl =>
      have := left_step_lt he h hl
      obtain ⟨x, hx, hg, hs⟩ := hi he.step (h.step he hl) (by omega)
      refine ⟨x, hx, ?_, .step a.move hs⟩
      rw [List.map_cons, List.getLast?_cons, hg]
      rfl

end Arc

namespace Ellipse

theorem staircase_right (n : Nat) (x y : Int) :
    Staircase ⟨x, y⟩ ⟨x + n, y⟩
      (⟨x, y⟩ :: (List.range n).map fun i : Nat => ⟨x + 1 + i, y⟩) := by
  rw [← take_right]
  induction n generalizing x with
  | zero => simpa using Staircase.stop ⟨x, y⟩
  | succ n hi =>
    rw [Walk.take_succ, show x + ((n + 1 : Nat) : Int) = x + 1 + n by omega]
    refine .step .across ?_
    simpa [Arc.Move.from, Arc.Move.offset] using hi (x + 1)

theorem left_top_le (rx ry : Nat) :
    Arc.left rx (Arc.top rx ry).offset ≤ (rx : Int).natAbs + (ry : Int).natAbs := by
  simp only [Arc.left, Arc.top]
  omega

theorem staircase_walked (rx ry : Nat) :
    ∃ x ≤ (rx : Int), (walked rx ry).getLast? = some ⟨x, 0⟩ ∧
      Staircase ⟨0, -ry⟩ ⟨x, 0⟩ (walked rx ry) :=
  Arc.staircase_walk (Arc.Exact.top rx ry) (Arc.inside_top (by omega) (by omega))
    (left_top_le rx ry)

-- What holds at the top, and behind every step of the walk in its quadrant, holds wherever the walk
-- comes.
theorem exists_place_of_mem_walked {rx ry : Nat} {P : Arc → Prop} (top : P (.top rx ry))
    (step : ∀ a, a.Exact rx ry → Arc.Inside rx ry a.offset → ¬a.isLevel → P a → P a.step)
    {p : Point} (h : p ∈ walked rx ry) :
    ∃ a : Arc, a.offset = p ∧ a.Exact rx ry ∧ P a := by
  obtain ⟨a, ha, rfl⟩ := List.mem_map.mp h
  let Q (a : Arc) := a.Exact rx ry ∧ Arc.Inside rx ry a.offset ∧ P a
  have hs (a : Arc) (h : Q a) (hl : ¬a.isLevel) : Q a.step :=
    ⟨h.1.step, h.2.1.step h.1 hl, step a h.1 h.2.1 hl h.2.2⟩
  have ht : Q (.top rx ry) := ⟨.top rx ry, Arc.inside_top (by omega) (by omega), top⟩
  have ⟨he, _, hp⟩ := Walk.forall_mem_takeUntil hs _ ht a ha
  exact ⟨a, rfl, he, hp⟩

-- A quadrant is a staircase from its top to its side.
theorem staircase_quadrant (rx ry : Nat) : Staircase ⟨0, -ry⟩ ⟨rx, 0⟩ (quadrant rx ry) := by
  obtain ⟨x, hx, hg, hs⟩ := staircase_walked rx ry
  have ht := staircase_right (rx - x).toNat x 0
  rw [show x + ((rx - x).toNat : Int) = rx by omega] at ht
  rw [quadrant_eq, quadrant.tailFrom, hg, Option.getD_some]
  exact hs.trans ht

end Ellipse

end PenStream
