import PenStream.Proofs.FloodFill.Watertight

namespace PenStream

variable {s : Size}

theorem Canvas.Painted.eq_of_again {color : Color} {area : Set Point} {c d e : Canvas s}
    (h : Painted color area c d) (h' : Painted color area d e) : e = d :=
  ((h.union h').congr (Set.union_self area)).unique h

theorem Color.sameRgb_solid (c : Color) : c.solid.sameRgb c := by
  simp [solid, sameRgb]

namespace FloodFill

variable (rule : FloodFill) (c : Canvas s)

-- Even a fill that has been cut short leaves the colour of the ink at its seed.
theorem fill_again (seed : Point) (color : Color) :
    rule.fill (rule.fill c seed color).1 seed color = ((rule.fill c seed color).1, {}) := by
  rcases rule.fill_cases c seed color with ⟨he, -⟩ | ⟨p, rfl, -, he⟩
  · rw [he, he]
  · have hp := (rule.sound_done c p color).get_painted p (rule.seed_mem_painted_done c p color)
    rw [he]
    exact fill_of_sameRgb (hp ▸ color.sameRgb_solid)

end FloodFill

theorem Canvas.execute_floodFill_again (c : Canvas s) (rule : FloodFill) (seed : Point)
    (border color : ColorIndex) :
    (c.execute rule (.floodFill seed border color)).1.execute rule (.floodFill seed border color) =
      ((c.execute rule (.floodFill seed border color)).1, .filled {}) := by
  simp only [execute, rule.fill_again c seed (Palette.color color)]

-- The second time, a command changes nothing, and a fill finds nothing to write.
theorem execute_again (c : Canvas s) (rule : FloodFill) :
    (∀ command, ((c.execute rule command).1.execute rule command).1 =
      (c.execute rule command).1) ∧
    ∀ seed border color,
      ((c.execute rule (.floodFill seed border color)).1.execute rule
        (.floodFill seed border color)).2 = .filled { written := 0, truncated := false } := by
  refine ⟨fun command => ?_, fun seed border color => ?_⟩
  · cases hs : command.shape?
    case some drawn =>
      exact (Canvas.painted_execute c rule hs).eq_of_again (Canvas.painted_execute _ rule hs)
    case none =>
      cases command
      case setColors | setFill | moveTo | defineWindow => rfl
      case floodFill => rw [Canvas.execute_floodFill_again]
      case reset     => simp only [Canvas.execute, Canvas.clear_eq_fill]; rfl
      all_goals contradiction
  · rw [Canvas.execute_floodFill_again]

end PenStream
