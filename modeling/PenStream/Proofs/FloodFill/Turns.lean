import Mathlib.Data.List.ReduceOption
import PenStream.Iteration
import PenStream.Proofs.FloodFill.Waiting

namespace PenStream

namespace Filling

variable {s : Size}

variable {rule : FloodFill} {target ink : Color} {f g : Filling s}
  {turns : List (Option (Cell s))}

theorem exists_turn? (rule : FloodFill) (target ink : Color) (hf : f.pending.points ≠ []) :
    ∃ colored, f.turn? rule target ink = some (colored, f.next rule target ink) := by
  have ⟨p, points, hc⟩ := List.exists_cons_of_ne_nil hf
  exact ⟨_, by rw [turn?, hc]⟩

theorem turn?_cases {colored : Option (Cell s)}
    (h : f.turn? rule target ink = some (colored, g)) :
    f.pending.points ≠ [] ∧ g = f.next rule target ink ∧
      (colored = none ∧ g = f.pop ∨
        ∃ p, colored = some p ∧ f.accepts rule target p ∧ g = f.pop.color rule ink p) := by
  unfold turn? at h
  split at h
  case h_1          => contradiction
  case h_2 p _ hp =>
    obtain ⟨rfl, rfl⟩ := Prod.mk.inj (Option.some_inj.mp h)
    refine ⟨by simp [hp], rfl, ?_⟩
    rcases next_cases rule target ink hp with ⟨he, hn⟩ | ⟨q, rfl, ha, he⟩
    · refine .inl ⟨Option.filter_eq_none_iff.mpr fun q hq => ?_, he⟩
      exact hn q (Cell.cell?_eq_some_iff.mp hq)
    · exact .inr ⟨q, by simp [ha], ha, he⟩

theorem exists_gives_run (rule : FloodFill) (target ink : Color) (f : Filling s) :
    ∃ turns, Iteration.Gives (turn? rule target ink) f turns (f.run rule target ink) := by
  fun_induction run rule target ink f
  case case1           => exact ⟨[], .nil⟩
  case case2 f he hi =>
    obtain ⟨colored, ht⟩ := f.exists_turn? rule target ink (by simpa using he)
    obtain ⟨turns, hg⟩ := hi
    exact ⟨colored :: turns, .cons ht hg⟩

-- What turns have done, told by the cells that they have coloured.
structure Told (ink : Color) (f : Filling s) (cells : List (Cell s)) (g : Filling s) : Prop where
  canvas : g.canvas = cells.foldl (·.set · ink) f.canvas
  painted : ∀ p, p ∈ g.painted ↔ p ∈ cells ∨ p ∈ f.painted
  fresh : ∀ p ∈ cells, p ∉ f.painted
  nodup : cells.Nodup
  written : g.tally.written = f.tally.written + cells.length

namespace Told

variable {p : Cell s} {cells : List (Cell s)}

theorem nil : Told ink f [] f :=
  ⟨rfl, by simp, by simp, .nil, rfl⟩

theorem of_pop (h : Told ink f.pop cells g) : Told ink f cells g :=
  { h with }

-- Cells that are fresh once another has been coloured were so before, and are not that one.
theorem cons (ha : p ∉ f.painted) (h : Told ink (f.color rule ink p) cells g) :
    Told ink f (p :: cells) g where
  canvas := h.canvas
  painted q := by
    rw [h.painted, painted_color, Set.mem_insert_iff, List.mem_cons, or_assoc, or_left_comm]
  fresh q hq := by
    rcases List.mem_cons.mp hq with rfl | hq
    · exact ha
    · have hn := h.fresh q hq
      rw [painted_color] at hn
      exact fun hf => hn (.inr hf)
  nodup := by
    refine List.nodup_cons.mpr ⟨fun hp => h.fresh p hp ?_, h.nodup⟩
    rw [painted_color]
    exact Set.mem_insert ..
  written := by
    rw [h.written, List.length_cons, Nat.add_comm cells.length, ← Nat.add_assoc]
    rfl

end Told

theorem told (h : Iteration.Gives (turn? rule target ink) f turns g) :
    Told ink f turns.reduceOption g := by
  induction h with
  | nil => exact .nil
  | @cons f _ _ _ _ ht _ hi =>
    rcases turn?_cases ht with ⟨-, -, ⟨rfl, rfl⟩ | ⟨p, rfl, ha, rfl⟩⟩
    · exact hi.of_pop
    · have hn : p ∉ f.pop.painted := ((accepts_iff ..).mp ha).left
      exact (hi.cons hn).of_pop

theorem length_turns_le (h : Iteration.Gives (turn? rule target ink) f turns g) :
    turns.length + g.work ≤ f.work := by
  induction h with
  | nil => simp
  | @cons f _ _ _ _ ht _ hi =>
    obtain ⟨hf, rfl, _⟩ := turn?_cases ht
    have := work_next_lt rule target ink (f := f) (by simpa using hf)
    rw [List.length_cons]
    omega

theorem Waiting.of_gives (hw : Waiting rule f)
    (h : Iteration.Gives (turn? rule target ink) f turns g) : Waiting rule g := by
  induction h with
  | nil => exact hw
  | cons ht _ hi =>
    obtain ⟨hf, rfl, _⟩ := turn?_cases ht
    exact hi (hw.next target ink hf)

end Filling

namespace FloodFill

variable {s : Size}

-- A fill comes to an end after so many turns, and with no more places waiting, whether or not it is
-- cut short. The cells that its turns have coloured hang together with the seed, within its
-- component; nothing else is changed.
theorem fill_bounded (rule : FloodFill) (c : Canvas s) (seed : Point) (color : Color) :
    (rule.fill c seed color = (c, {}) ∧
      ∀ p : Cell s, p.point = seed → (c.get p).sameRgb color) ∨
    ∃ origin : Cell s, origin.point = seed ∧ ∃ turns done,
      let turn? := Filling.turn? rule (c.get origin) color.solid
      let start := Filling.start c origin
      let cells := turns.reduceOption
      Iteration.Gives turn? start turns done ∧ done.pending.points = [] ∧
      rule.fill c seed color = (done.canvas, done.tally) ∧
      turns.length ≤ 4 * (s.width * s.height) + 1 ∧
      (∀ seen f, Iteration.Gives turn? start seen f →
        f.pending.points.length ≤ rule.maxPending + 3 ∧
        f.canvas = seen.reduceOption.foldl (·.set · color.solid) c) ∧
      cells.Nodup ∧ done.tally.written = cells.length ∧
      origin ∈ cells ∧
      (∀ p ∈ cells, Cell.Linked { q | q ∈ cells } origin p ∧
        p ∈ Cell.component (c.alike rule.tolerance origin) origin) ∧
      (∀ p ∈ cells, done.canvas.get p = { color with a := 255 }) ∧
      ∀ p ∉ cells, done.canvas.get p = c.get p := by
  rcases rule.fill_cases c seed color with h | ⟨origin, ho, -, he⟩
  · exact .inl h
  · have ⟨turns, hg⟩ :=
      Filling.exists_gives_run rule (c.get origin) color.solid (.start c origin)
    have hs := rule.sound_done c origin color
    have ht : Filling.Told _ _ _ (rule.done c origin color) := Filling.told hg
    have hp (p : Cell s) : p ∈ (rule.done c origin color).painted ↔ p ∈ turns.reduceOption := by
      simpa using ht.painted p
    have hl := Filling.length_turns_le hg
    rw [Filling.work_start] at hl
    refine .inr ⟨origin, ho, turns, rule.done c origin color, ?_⟩
    dsimp only
    refine ⟨hg, Filling.points_run .., he, Nat.le_of_add_right_le hl, fun seen f hf => ⟨?_, ?_⟩,
      ht.nodup, ht.written.trans (Nat.zero_add _), ?_, fun p hm => ⟨?_, ?_⟩, fun p hm => ?_,
      fun p hm => ?_⟩
    · exact f.pending.size_eq ▸ (Filling.Waiting.start.of_gives hf).le_bound
    · exact (Filling.told hf).canvas
    · exact (hp origin).mp (rule.seed_mem_painted_done c origin color)
    · exact (hs.linked p ((hp p).mpr hm)).mono fun q => (hp q).mp
    · exact (hs.linked p ((hp p).mpr hm)).mono hs.alike
    · exact hs.get_painted p ((hp p).mpr hm)
    · exact hs.get_other p (mt (hp p).mp hm)

end FloodFill

end PenStream
