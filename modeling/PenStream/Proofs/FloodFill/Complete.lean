import PenStream.Proofs.FloodFill.Sound

namespace PenStream

namespace Filling

variable {s : Size} {rule : FloodFill} {c : Canvas s} {seed p : Cell s} {ink : Color}
  {f : Filling s}

-- Where a fill has yet to go, a place waits: at the seed, and next to all that is painted.
structure Closed (rule : FloodFill) (c : Canvas s) (seed : Cell s) (f : Filling s) : Prop where
  origin : seed ∈ f.painted ∨ seed.point ∈ f.pending.points
  step : ∀ p ∈ f.painted, ∀ q ∈ c.alike rule.tolerance seed, p.Adjacent q →
    q ∈ f.painted ∨ q.point ∈ f.pending.points

theorem truncated_of_color (h : (f.color rule ink p).tally.truncated = false) :
    f.tally.truncated = false ∧ f.pending.size < rule.maxPending := by
  simpa [color] using h

namespace Closed

theorem start : Closed rule c seed (start c seed) where
  origin := .inr (List.mem_singleton_self _)
  step := by simp

-- A place may be passed over if there is nothing to be painted.
theorem pop {points : List Point} {p : Point} (h : Closed rule c seed f)
    (hc : f.pending.points = p :: points)
    (hp : ∀ q ∈ c.alike rule.tolerance seed, q.point = p → q ∈ f.painted) :
    Closed rule c seed f.pop := by
  have keep : ∀ q ∈ c.alike rule.tolerance seed,
      q ∈ f.painted ∨ q.point ∈ f.pending.points →
      q ∈ f.pop.painted ∨ q.point ∈ f.pop.pending.points := by
    intro q hq hw
    rcases hw with hw | hw
    · exact .inl hw
    · rw [hc] at hw
      cases hw
      case head   => exact .inl (hp q hq rfl)
      case tail h =>
        change q.point ∈ points at h
        exact .inr (by simpa [Filling.pop, Pending.tail, hc] using h)
  exact {
    origin := keep _ (c.seed_mem_alike ..) h.origin
    step := fun q hq r hr a => keep r hr (h.step q hq r hr a) }

theorem color {points : List Point} (h : Closed rule c seed f)
    (hc : f.pending.points = p.point :: points) (hr : f.pop.pending.size < rule.maxPending) :
    Closed rule c seed (f.pop.color rule ink p) := by
  have keep : ∀ q : Cell s, q ∈ f.painted ∨ q.point ∈ f.pending.points →
      q ∈ (f.pop.color rule ink p).painted ∨
        q.point ∈ (f.pop.color rule ink p).pending.points := by
    intro q hw
    rw [painted_color, points_color_of_lt _ _ _ _ hr, List.mem_append]
    rcases hw with hw | hw
    · exact .inl (.inr hw)
    · rw [hc, List.mem_cons, Cell.point_inj] at hw
      rcases hw with rfl | hw
      · exact .inl (Set.mem_insert ..)
      · exact .inr (.inr (by simpa [Filling.pop, Pending.tail, hc] using hw))
  refine { origin := keep _ h.origin, step := fun q hq r hr' a => ?_ }
  rw [painted_color] at hq
  rcases hq with rfl | hq
  · rw [points_color_of_lt _ _ _ _ hr, List.mem_append]
    exact .inr (.inl (Cell.mem_neighbours_iff.mpr a))
  · exact keep r (h.step q hq r hr' a)

theorem next (hs : Sound rule c seed ink f) (h : f.tally.truncated = false → Closed rule c seed f)
    (hf : f.pending.points ≠ []) (ht : (f.next rule (c.get seed) ink).tally.truncated = false) :
    Closed rule c seed (f.next rule (c.get seed) ink) := by
  have ⟨p, points, hc⟩ := List.exists_cons_of_ne_nil hf
  rcases next_cases rule (c.get seed) ink hc with ⟨he, hp⟩ | ⟨q, rfl, ha, he⟩
  · rw [he] at ht ⊢
    refine (h ht).pop hc fun q hq hqp => ?_
    -- A cell that was refused is painted, for otherwise it would still have its colour.
    by_contra hn
    exact hp q hqp ((accepts_iff ..).mpr ⟨hn, by rwa [hs.get_other q hn]⟩)
  · rw [he] at ht ⊢
    have ⟨ht, hr⟩ := truncated_of_color ht
    exact (h ht).color hc hr

end Closed

theorem closed_run (ht : ((start c seed).run rule (c.get seed) ink).tally.truncated = false) :
    Closed rule c seed ((start c seed).run rule (c.get seed) ink) := by
  have h := run_preserves rule (c.get seed) ink
    (motive := fun f =>
      Sound rule c seed ink f ∧ (f.tally.truncated = false → Closed rule c seed f))
    (fun f hf ⟨hs, hc⟩ => ⟨hs.next hf, Closed.next hs hc hf⟩)
    (start c seed) ⟨.start, fun _ => .start⟩
  exact h.right ht

end Filling

namespace FloodFill

variable {s : Size} {rule : FloodFill} {c : Canvas s} {seed : Cell s} {color : Color}

theorem painted_done (ht : (rule.done c seed color).tally.truncated = false) :
    (rule.done c seed color).painted = Cell.component (c.alike rule.tolerance seed) seed := by
  have hs := rule.sound_done c seed color
  have hc := Filling.closed_run ht
  have hp := Filling.points_run rule (c.get seed) color.solid (.start c seed)
  ext p
  constructor
  case mp  => exact fun h => (hs.linked p h).mono hs.alike
  case mpr =>
    refine Cell.Linked.mem_of_closed ?_ fun q hq r hr a => ?_
    · exact hc.origin.resolve_right (by simp [hp])
    · exact (hc.step q hq r hr a).resolve_right (by simp [hp])

-- A fill that is not cut short paints the component of its seed and nothing else.
theorem fill_paints_component (hd : ¬(c.get seed).sameRgb color)
    (ht : (rule.fill c seed.point color).2.truncated = false) :
    let done := rule.done c seed color
    let component := Cell.component (c.alike rule.tolerance seed) seed
    rule.fill c seed.point color = (done.canvas, done.tally) ∧
    done.painted = component ∧
    (∀ p ∈ component, done.canvas.get p = { color with a := 255 }) ∧
    (∀ p ∉ component, done.canvas.get p = c.get p) ∧
    done.tally.written = component.ncard := by
  have he : rule.fill c seed.point color = _ := fill_eq_done hd
  have hs := rule.sound_done c seed color
  rw [he] at ht
  simp only [← painted_done ht]
  exact ⟨he, trivial, hs.get_painted, hs.get_other, hs.written⟩

-- Two rows of grays. The last cell of the first row is like the corner but cut off from it.
def grays : Canvas ⟨3, 2, by decide, by decide, by decide, by decide⟩ where
  pixels := #v[
    ⟨100, 100, 100, 7⟩, ⟨200, 200, 200, 255⟩, ⟨100, 100, 100, 255⟩,
    ⟨101, 99, 100, 255⟩, ⟨100, 101, 101, 0⟩, ⟨102, 100, 100, 255⟩]

theorem fill_paints_component_grays :
    let corner : Cell _ := ⟨⟨0, by decide⟩, ⟨0, by decide⟩⟩
    let red : Color := ⟨255, 0, 0, 9⟩
    ¬(grays.get corner).sameRgb red ∧
    (fill {} grays corner.point red).2.truncated = false ∧
    (done {} grays corner red).painted = Cell.component (grays.alike 1 corner) corner := by
  intro corner red
  have hd : ¬(grays.get corner).sameRgb red := by decide
  have ht : (fill {} grays corner.point red).2.truncated = false := by decide +kernel
  have ⟨_, hp, _⟩ := fill_paints_component hd ht
  exact ⟨hd, ht, hp⟩

end FloodFill

end PenStream
