import PenStream.Proofs.FloodFill.Sound

namespace PenStream

namespace Filling

variable {s : Size} {rule : FloodFill} {c : Canvas s} {seed : Cell s} {ink : Color}
  {f : Filling s}

theorem size_color (rule : FloodFill) (ink : Color) (f : Filling s) (p : Cell s) :
    (f.color rule ink p).pending.size =
      if f.pending.size < rule.maxPending then f.pending.size + 4 else f.pending.size := by
  unfold color
  split <;> simp [*, Pending.pushNeighbours]

-- What may wait at any time: a cell takes its own place off the stack when it is coloured and puts
-- four there, so that for each of them three more wait at most.
structure Waiting (rule : FloodFill) (f : Filling s) : Prop where
  le_bound : f.pending.size ≤ rule.maxPending + 3
  le_written : f.pending.size ≤ 3 * f.tally.written + 1

namespace Waiting

theorem start : Waiting rule (start c seed) where
  le_bound := Nat.le_add_left ..
  le_written := Nat.le_refl 1

theorem next (h : Waiting rule f) (target ink : Color) (hf : f.pending.points ≠ []) :
    Waiting rule (f.next rule target ink) := by
  have ⟨p, points, hc⟩ := List.exists_cons_of_ne_nil hf
  have ⟨hb, hw⟩ := h
  have hp : f.pop.pending.size = f.pending.size - 1 := rfl
  rcases next_cases rule target ink hc with ⟨he, -⟩ | ⟨q, -, -, he⟩
  · rw [he]
    exact ⟨by omega, show f.pop.pending.size ≤ 3 * f.tally.written + 1 by omega⟩
  · have ht : (f.pop.color rule ink q).tally.written = f.tally.written + 1 := rfl
    rw [he]
    constructor <;> rw [size_color] <;> split <;> omega

end Waiting

-- A cell that is yet to be coloured finds the places left by those before it, its own taken off.
theorem truncated_next (hs : Sound rule c seed ink f) (hw : Waiting rule f)
    (hf : f.pending.points ≠ []) (hr : 3 * (s.area - 1) < rule.maxPending)
    (ht : f.tally.truncated = false) :
    (f.next rule (c.get seed) ink).tally.truncated = false := by
  have ⟨p, points, hc⟩ := List.exists_cons_of_ne_nil hf
  rcases next_cases rule (c.get seed) ink hc with ⟨he, -⟩ | ⟨q, rfl, ha, he⟩
  · rw [he]
    exact ht
  · have hn : f.tally.written + 1 ≤ s.area :=
      (hs.pop.color ha (hs.near q (hc ▸ List.mem_cons_self))).written_le
    have hp : f.pop.pending.size = f.pending.size - 1 := rfl
    have hl := hw.le_written
    have room : f.pop.pending.size < rule.maxPending := by omega
    rw [he, color, show f.pop.tally.truncated = false from ht]
    simp [room]

end Filling

namespace FloodFill

variable {s : Size}

-- With room for three places for each cell but one, a fill is never cut short, whatever the canvas
-- shows.
theorem not_truncated_of_room (rule : FloodFill) (hr : 3 * (s.area - 1) < rule.maxPending)
    (c : Canvas s) (seed : Point) (color : Color) :
    (rule.fill c seed color).2.truncated = false := by
  rcases rule.fill_cases c seed color with ⟨he, -⟩ | ⟨p, -, -, he⟩
  · rw [he]
  · rw [he]
    have h := Filling.run_preserves rule (c.get p) color.solid
      (motive := fun f =>
        f.Sound rule c p color.solid ∧ f.Waiting rule ∧ f.tally.truncated = false)
      (fun _ hf ⟨hs, hw, ht⟩ =>
        ⟨hs.next hf, hw.next _ _ hf, Filling.truncated_next hs hw hf hr ht⟩)
      (.start c p) ⟨.start, .start, rfl⟩
    exact h.right.right

theorem not_truncated_of_room_column :
    let size : Size := ⟨1, 2, by decide, by decide, by decide, by decide⟩
    let rule : FloodFill := { maxPending := 4, tolerance := 0 }
    3 * (size.area - 1) < rule.maxPending ∧
      (rule.fill (.uniform size .clear) ⟨0, 1⟩ ⟨255, 0, 0, 255⟩).2.truncated = false := by
  intro size rule
  have hr : 3 * (size.area - 1) < rule.maxPending := by decide
  exact ⟨hr, rule.not_truncated_of_room hr _ _ _⟩

-- With room for one place less the upper cell would be the last.
example :
    let size : Size := ⟨1, 2, by decide, by decide, by decide, by decide⟩
    let rule : FloodFill := { maxPending := 3, tolerance := 0 }
    (rule.fill (.uniform size .clear) ⟨0, 1⟩ ⟨255, 0, 0, 255⟩).2 =
      { written := 2, truncated := true } := by
  decide +kernel

end FloodFill

end PenStream
