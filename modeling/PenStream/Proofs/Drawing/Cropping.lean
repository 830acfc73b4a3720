import PenStream.Proofs.Drawing.Painted
import PenStream.Proofs.Playback.Session

namespace PenStream

namespace Canvas

variable {s t : Size} {c : Canvas s} {d : Canvas t}

def Agrees (c : Canvas s) (d : Canvas t) : Prop :=
  ∀ (p : Cell s) (q : Cell t), p.point = q.point → c.get p = d.get q

namespace Agrees

theorem uniform (s t : Size) (color : Color) : (uniform s color).Agrees (uniform t color) := by
  intro p q _
  rw [get_uniform, get_uniform]

theorem painted {color : Color} {area : Set Point} {c' : Canvas s} {d' : Canvas t}
    (h : c.Agrees d) (hc : Painted color area c c') (hd : Painted color area d d') :
    c'.Agrees d' := by
  intro p q hpq
  by_cases hp : p.point ∈ area
  case pos => rw [hc.inside p hp, hd.inside q (hpq ▸ hp)]
  case neg => rw [hc.outside p hp, hd.outside q (hpq ▸ hp), h p q hpq]

theorem execute (h : c.Agrees d) (rule rule' : FloodFill) {command : Command}
    (hf : command.opcode ≠ .floodFill) :
    (c.execute rule command).1.Agrees (d.execute rule' command).1 := by
  cases hs : command.shape?
  case some drawn => exact h.painted (painted_execute c rule hs) (painted_execute d rule' hs)
  case none       =>
    cases command
    case setColors | setFill | moveTo | defineWindow => exact h
    case reset =>
      simp only [Canvas.execute, clear_eq_fill]
      exact uniform s t _
    case floodFill => contradiction
    all_goals contradiction

theorem executeAll (h : c.Agrees d) (rule rule' : FloodFill) {commands : List Command}
    (hf : ∀ command ∈ commands, command.opcode ≠ .floodFill) :
    (c.executeAll rule commands).Agrees (d.executeAll rule' commands) := by
  induction commands generalizing c d with
  | nil                    => exact h
  | cons command rest hi =>
    have ⟨hc, hr⟩ := List.forall_mem_cons.mp hf
    exact hi (h.execute rule rule' hc) hr

theorem get?_eq (h : c.Agrees d) {p : Point} {color : Color} (hc : c.get? p = some color)
    (hd : (d.get? p).isSome) : d.get? p = some color := by
  obtain ⟨q, hq, rfl⟩ := Option.map_eq_some_iff.mp hc
  obtain ⟨color', hd⟩ := Option.isSome_iff_exists.mp hd
  obtain ⟨r, hr, rfl⟩ := Option.map_eq_some_iff.mp hd
  have hp := (Cell.cell?_eq_some_iff.mp hq).trans (Cell.cell?_eq_some_iff.mp hr).symm
  rw [hd, h q r hp]

end Agrees

theorem exists_get? (c : Canvas s) {x y : Int} (hx : 0 ≤ x ∧ x < s.width)
    (hy : 0 ≤ y ∧ y < s.height) : ∃ color, c.get? ⟨x, y⟩ = some color := by
  simp [get?, Size.cell?, hx, hy]

end Canvas

-- Without fills, which go around an obstacle where there is room, a list of commands shows the same
-- on a smaller canvas as on a larger one, wherever there is a place on both.
theorem play_cropped (s t : Scheduler) (commands : Array Command) (small large : Size)
    (hf : ∀ c ∈ commands, c.opcode ≠ .floodFill) (hw : small.width ≤ large.width)
    (hh : small.height ≤ large.height) :
    ∃ p q, s.play commands small.width small.height = .ok (p, .finished 100) ∧ p.size = small ∧
      t.play commands large.width large.height = .ok (q, .finished 100) ∧ q.size = large ∧
      ∀ x y : Int, 0 ≤ x → x < small.width → 0 ≤ y → y < small.height →
        ∃ color, p.canvas.get? ⟨x, y⟩ = some color ∧ q.canvas.get? ⟨x, y⟩ = some color := by
  have ⟨p, hp, hps, hpc⟩ := s.play_of_size commands small
  have ⟨q, hq, hqs, hqc⟩ := t.play_of_size commands large
  have ha : p.canvas.Agrees q.canvas := by
    rw [hpc, hqc]
    exact (Canvas.Agrees.uniform _ _ _).executeAll s.rule t.rule (by simpa using hf)
  refine ⟨p, q, hp, hps, hq, hqs, fun x y hx hx' hy hy' => ?_⟩
  rw [← hps] at hx' hy' hw hh
  rw [← hqs] at hw hh
  have ⟨color, hc⟩ := p.canvas.exists_get? ⟨hx, hx'⟩ ⟨hy, hy'⟩
  have ⟨color', hd⟩ := q.canvas.exists_get? (x := x) (y := y) ⟨hx, by omega⟩ ⟨hy, by omega⟩
  exact ⟨color, hc, ha.get?_eq hc (hd ▸ rfl)⟩

-- A circle and a rectangle across the corner of the smaller canvas, and a line that misses it.
theorem play_cropped_corner :
    let commands : Array Command :=
      #[.circle ⟨1, 0⟩ 2 4, .rectangle ⟨9, 1⟩ ⟨-3, -5⟩ 2, .lineTo ⟨3, 2⟩ ⟨3, -1⟩ 255]
    (∀ c ∈ commands, c.opcode ≠ .floodFill) ∧
      ∃ p q, ({} : Scheduler).play commands 3 2 = .ok (p, .finished 100) ∧
        ({ generation := 7 } : Scheduler).play commands 4 3 = .ok (q, .finished 100) ∧
        ∃ color, p.canvas.get? ⟨2, 1⟩ = some color ∧ q.canvas.get? ⟨2, 1⟩ = some color := by
  intro commands
  have hf : ∀ c ∈ commands, c.opcode ≠ .floodFill := by simp [commands, Command.opcode]
  have ⟨p, q, hp, _, hq, _, hc⟩ := play_cropped {} { generation := 7 } commands
    ⟨3, 2, by decide, by decide, by decide, by decide⟩
    ⟨4, 3, by decide, by decide, by decide, by decide⟩ hf (by decide) (by decide)
  exact ⟨hf, p, q, hp, hq, hc 2 1 (by decide) (by decide) (by decide) (by decide)⟩

end PenStream
