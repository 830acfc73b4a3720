import PenStream.Drawing.FloodFill
import PenStream.Proofs.Component

namespace PenStream

-- The cells whose colour is near that of the seed.
def Canvas.alike {s : Size} (c : Canvas s) (tolerance : UInt8) (seed : Cell s) : Set (Cell s) :=
  { p | Color.within tolerance (c.get p) (c.get seed) }

theorem Color.within_self (tolerance : UInt8) (c : Color) : c.within tolerance c := by
  simp [within, distance]

theorem Canvas.seed_mem_alike {s : Size} (c : Canvas s) (tolerance : UInt8) (seed : Cell s) :
    seed ∈ c.alike tolerance seed :=
  Color.within_self ..

namespace Filling

variable {s : Size}

theorem work_start (c : Canvas s) (seed : Cell s) : (start c seed).work = 4 * s.area + 1 := by
  simp [work, start, Pending.single]

-- The cells that have been coloured.
def painted (f : Filling s) : Set (Cell s) :=
  { p | f.visited.get p.index = true }

section Fields

variable (rule : FloodFill) (target ink : Color) (f : Filling s) (p : Cell s)

@[simp]
theorem painted_start (c : Canvas s) : (start c p).painted = ∅ := by
  ext q
  simp [painted, start, Vector.get]

@[simp]
theorem painted_color : (f.color rule ink p).painted = insert p f.painted := by
  ext q
  have hg : ∀ (v : Vector Bool s.area) (i : Fin s.area), v.get i = v[i.val] := fun _ _ => rfl
  simp only [painted, color, Set.mem_ofPred_eq, Set.mem_insert_iff, hg, Vector.getElem_set,
    ← Fin.ext_iff, Cell.index_inj]
  by_cases h : p = q
  case pos => simp [h]
  case neg => simp [h, Ne.symm h]

theorem accepts_iff :
    f.accepts rule target p ↔
      p ∉ f.painted ∧ Color.within rule.tolerance (f.canvas.get p) target := by
  simp [accepts, painted]

theorem points_color_of_lt (h : f.pending.size < rule.maxPending) :
    (f.color rule ink p).pending.points = p.point.neighbours ++ f.pending.points := by
  simp [color, h, Pending.pushNeighbours]

theorem mem_points_color {q : Point} (h : q ∈ (f.color rule ink p).pending.points) :
    q ∈ p.point.neighbours ∨ q ∈ f.pending.points := by
  by_cases hr : f.pending.size < rule.maxPending
  case pos =>
    rw [points_color_of_lt rule ink f p hr] at h
    exact List.mem_append.mp h
  case neg =>
    simp only [color, hr, decide_false] at h
    exact .inr h

end Fields

theorem next_eq_look (rule : FloodFill) (target ink : Color) {f : Filling s} {p : Point}
    {points : List Point} (h : f.pending.points = p :: points) :
    f.next rule target ink = f.pop.look rule target ink p := by
  rw [next, h]

-- All that a step can do: it passes over the next place, or it colours the cell there.
theorem next_cases (rule : FloodFill) (target ink : Color) {f : Filling s} {p : Point}
    {points : List Point} (h : f.pending.points = p :: points) :
    (f.next rule target ink = f.pop ∧ ∀ q : Cell s, q.point = p → ¬f.accepts rule target q) ∨
      ∃ q : Cell s, q.point = p ∧ f.accepts rule target q ∧
        f.next rule target ink = f.pop.color rule ink q := by
  rw [next_eq_look rule target ink h, look]
  split
  case h_1 hc =>
    refine .inl ⟨rfl, fun q hq => ?_⟩
    rw [← hq, Cell.cell?_point] at hc
    contradiction
  case h_2 q hc =>
    have hq := Cell.cell?_eq_some_iff.mp hc
    split
    case isTrue ha => exact .inr ⟨q, hq, ha, rfl⟩
    case isFalse ha =>
      refine .inl ⟨rfl, fun r hr => ?_⟩
      rw [Cell.point_inj.mp (hr.trans hq.symm)]
      exact ha

section Run

variable (rule : FloodFill) (target ink : Color)

-- A run keeps what each of its steps keeps.
theorem run_preserves {motive : Filling s → Prop}
    (next : ∀ f : Filling s, f.pending.points ≠ [] → motive f → motive (f.next rule target ink))
    (f : Filling s) (h : motive f) : motive (f.run rule target ink) := by
  fun_induction run rule target ink f
  case case1           => exact h
  case case2 f he hi => exact hi (next f (by simpa using he) h)

theorem points_run (f : Filling s) : (f.run rule target ink).pending.points = [] := by
  fun_induction run rule target ink f
  case case1 f he    => exact List.isEmpty_iff.mp he
  case case2 f he hi => exact hi

theorem mem_painted_next {f : Filling s} {p : Cell s} (hf : f.pending.points ≠ [])
    (hp : p ∈ f.painted) : p ∈ (f.next rule target ink).painted := by
  have ⟨q, points, hq⟩ := List.exists_cons_of_ne_nil hf
  rcases next_cases rule target ink hq with ⟨he, -⟩ | ⟨r, -, -, he⟩
  · rw [he]
    exact hp
  · rw [he, painted_color]
    exact Set.mem_insert_of_mem r hp

end Run

-- The seed is the first place that is looked at, and it is near its own colour.
theorem seed_mem_painted_next (rule : FloodFill) (c : Canvas s) (seed : Cell s) (ink : Color) :
    seed ∈ ((start c seed).next rule (c.get seed) ink).painted := by
  have hp : (start c seed).pending.points = [seed.point] := rfl
  rcases next_cases rule (c.get seed) ink hp with ⟨-, hn⟩ | ⟨q, hq, -, he⟩
  · have ha : (start c seed).accepts rule (c.get seed) seed :=
      (accepts_iff ..).mpr ⟨by simp, Color.within_self ..⟩
    exact absurd ha (hn seed rfl)
  · rw [he, painted_color, ← Cell.point_inj.mp hq]
    exact Set.mem_insert ..

structure Sound (rule : FloodFill) (c : Canvas s) (seed : Cell s) (ink : Color) (f : Filling s) :
    Prop where
  get_painted : ∀ p ∈ f.painted, f.canvas.get p = ink
  get_other : ∀ p ∉ f.painted, f.canvas.get p = c.get p
  alike : f.painted ⊆ c.alike rule.tolerance seed
  linked : ∀ p ∈ f.painted, Cell.Linked f.painted seed p
  -- A cell that waits is the seed or next to a painted one.
  near : ∀ p : Cell s, p.point ∈ f.pending.points → p = seed ∨ ∃ q ∈ f.painted, q.Adjacent p
  written : f.tally.written = f.painted.ncard

namespace Sound

variable {rule : FloodFill} {c : Canvas s} {seed p : Cell s} {ink : Color} {f : Filling s}

theorem start : Sound rule c seed ink (start c seed) where
  get_painted := by simp
  get_other _ _ := rfl
  alike := by simp
  linked := by simp
  near p hp := by
    simp only [Filling.start, Pending.single, List.mem_singleton, Cell.point_inj] at hp
    exact .inl hp
  written := by
    rw [painted_start, Set.ncard_empty]
    rfl

theorem pop (h : Sound rule c seed ink f) : Sound rule c seed ink f.pop :=
  { h with near := fun p hp => h.near p (List.mem_of_mem_tail hp) }

-- A cell that is not painted yet still has the colour that it had at first.
theorem mem_alike_of_accepts (h : Sound rule c seed ink f) (ha : f.accepts rule (c.get seed) p) :
    p ∈ c.alike rule.tolerance seed := by
  have ⟨hp, hw⟩ := (accepts_iff ..).mp ha
  rw [h.get_other p hp] at hw
  exact hw

theorem color (h : Sound rule c seed ink f) (ha : f.accepts rule (c.get seed) p)
    (hp : p = seed ∨ ∃ q ∈ f.painted, q.Adjacent p) :
    Sound rule c seed ink (f.color rule ink p) where
  get_painted q hq := by
    rw [Filling.color, Canvas.get_set]
    split
    case isTrue     => rfl
    case isFalse hn =>
      rw [painted_color] at hq
      exact h.get_painted q (hq.resolve_left (Ne.symm hn))
  get_other q hq := by
    rw [painted_color, Set.mem_insert_iff, not_or] at hq
    rw [Filling.color, Canvas.get_set, if_neg (Ne.symm hq.left)]
    exact h.get_other q hq.right
  alike := by
    rw [painted_color]
    exact Set.insert_subset (h.mem_alike_of_accepts ha) h.alike
  linked q hq := by
    rw [painted_color] at hq ⊢
    have hm := Set.subset_insert p f.painted
    have hl : Cell.Linked (insert p f.painted) seed p := by
      rcases hp with rfl | ⟨r, hr, a⟩
      · exact .seed (Set.mem_insert ..)
      · exact .step ((h.linked r hr).mono hm) a (Set.mem_insert ..)
    rcases hq with rfl | hq
    · exact hl
    · exact (h.linked q hq).mono hm
  near q hq := by
    rw [painted_color]
    rcases mem_points_color _ _ _ _ hq with hq | hq
    · exact .inr ⟨p, Set.mem_insert .., Cell.mem_neighbours_iff.mp hq⟩
    · rcases h.near q hq with hq | ⟨r, hr, a⟩
      · exact .inl hq
      · exact .inr ⟨r, Set.mem_insert_of_mem _ hr, a⟩
  written := by
    have hp := ((accepts_iff ..).mp ha).left
    rw [painted_color, Set.ncard_insert_of_notMem hp, ← h.written]
    rfl

theorem next (h : Sound rule c seed ink f) (hf : f.pending.points ≠ []) :
    Sound rule c seed ink (f.next rule (c.get seed) ink) := by
  have ⟨p, points, hc⟩ := List.exists_cons_of_ne_nil hf
  rcases next_cases rule (c.get seed) ink hc with ⟨he, -⟩ | ⟨q, rfl, ha, he⟩
  · exact he ▸ h.pop
  · exact he ▸ h.pop.color ha (h.near q (hc ▸ List.mem_cons_self))

theorem written_le (h : Sound rule c seed ink f) : f.tally.written ≤ s.area := by
  rw [h.written]
  calc
    f.painted.ncard ≤ Nat.card (Cell s) := Set.ncard_le_card _
    _ ≤ Nat.card (Fin s.area) :=
      Nat.card_le_card_of_injective _ fun _ _ h => Cell.index_inj.mp h
    _ = s.area := Nat.card_eq_fintype_card.trans (Fintype.card_fin _)

theorem run (h : Sound rule c seed ink f) : Sound rule c seed ink (f.run rule (c.get seed) ink) :=
  run_preserves rule _ ink (fun _ hf h => h.next hf) f h

end Sound

end Filling

namespace FloodFill

variable {s : Size} (rule : FloodFill) (c : Canvas s) (seed : Cell s) (color : Color)

theorem sound_done : (rule.done c seed color).Sound rule c seed color.solid :=
  Filling.Sound.start.run

theorem seed_mem_painted_done : seed ∈ (rule.done c seed color).painted := by
  have hs : ¬(Filling.start c seed).pending.points.isEmpty := Bool.false_ne_true
  rw [done, Filling.run, if_neg hs]
  exact Filling.run_preserves rule _ _ (motive := fun f => seed ∈ f.painted)
    (fun _ hf hs => Filling.mem_painted_next _ _ _ hf hs) _ (Filling.seed_mem_painted_next ..)

variable {rule c seed color} in
theorem fill_eq_done (h : ¬(c.get seed).sameRgb color) :
    rule.fill c seed.point color =
      ((rule.done c seed color).canvas, (rule.done c seed color).tally) := by
  simp only [fill, Cell.cell?_point, h]
  rfl

-- All that a fill can come to: nothing is done, or there is a seed to fill from.
theorem fill_cases (rule : FloodFill) (c : Canvas s) (seed : Point) (color : Color) :
    (rule.fill c seed color = (c, {}) ∧
      ∀ p : Cell s, p.point = seed → (c.get p).sameRgb color) ∨
    ∃ p : Cell s, p.point = seed ∧ ¬(c.get p).sameRgb color ∧
      rule.fill c seed color = ((rule.done c p color).canvas, (rule.done c p color).tally) := by
  cases hs : s.cell? seed with
  | none =>
    refine .inl ⟨by simp only [fill, hs], fun p hp => ?_⟩
    rw [← hp, Cell.cell?_point] at hs
    contradiction
  | some p =>
    obtain rfl := Cell.cell?_eq_some_iff.mp hs
    by_cases h : (c.get p).sameRgb color
    case pos =>
      refine .inl ⟨by simp [fill, h], fun q hq => ?_⟩
      rwa [Cell.point_inj.mp hq]
    case neg => exact .inr ⟨p, rfl, h, fill_eq_done h⟩

end FloodFill

end PenStream
