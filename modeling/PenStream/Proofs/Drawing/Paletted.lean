import PenStream.Canvas.Bytes
import PenStream.Proofs.Drawing.Painted
import PenStream.Proofs.FloodFill.Sound
import PenStream.Proofs.Playback.Session

namespace PenStream

namespace Palette

-- The sixteen colours.
def colors : List Color :=
  entries.map (·.2)

theorem color_mem_colors (index : ColorIndex) : color index ∈ colors := by
  unfold color
  split
  case h_1 name c h => exact List.mem_map_of_mem (f := (·.2)) (List.mem_of_getElem? h)
  case h_2          => decide

theorem alpha_of_mem : ∀ c ∈ colors, c.a = 255 := by
  decide

theorem solid_of_mem : ∀ c ∈ colors, c.solid = c := by
  decide

end Palette

-- Every cell has a colour of the palette.
def Canvas.Paletted {s : Size} (c : Canvas s) : Prop :=
  ∀ p, c.get p ∈ Palette.colors

namespace Canvas.Paletted

variable {s : Size} {color : Color} {area : Set Point} {c d : Canvas s}

theorem uniform (hc : color ∈ Palette.colors) : (Canvas.uniform s color).Paletted := by
  intro p
  rwa [get_uniform]

theorem set (h : c.Paletted) (hc : color ∈ Palette.colors) (p : Cell s) :
    (c.set p color).Paletted := by
  intro q
  rw [get_set]
  split
  case isTrue  => exact hc
  case isFalse => exact h q

theorem painted (h : c.Paletted) (hc : color ∈ Palette.colors) (hd : Painted color area c d) :
    d.Paletted := by
  intro p
  by_cases hp : p.point ∈ area
  case pos => rwa [hd.inside p hp]
  case neg => rw [hd.outside p hp]; exact h p

-- A place that is looked at is passed over or gets the ink.
theorem next {rule : FloodFill} {target ink : Color} {f : Filling s} (h : f.canvas.Paletted)
    (hi : ink ∈ Palette.colors) (hf : f.pending.points ≠ []) :
    (f.next rule target ink).canvas.Paletted := by
  have ⟨p, points, hp⟩ := List.exists_cons_of_ne_nil hf
  rcases Filling.next_cases rule target ink hp with ⟨he, -⟩ | ⟨q, -, -, he⟩
  · rw [he]
    exact h
  · rw [he]
    exact h.set hi q

theorem fill (h : c.Paletted) (hc : color ∈ Palette.colors) (rule : FloodFill) (seed : Point) :
    (rule.fill c seed color).1.Paletted := by
  rcases rule.fill_cases c seed color with ⟨he, -⟩ | ⟨p, -, -, he⟩
  · rw [he]
    exact h
  · rw [he, FloodFill.done, Palette.solid_of_mem color hc]
    exact Filling.run_preserves rule _ color (motive := fun f => f.canvas.Paletted)
      (fun f hf h => h.next hc hf) _ h

theorem execute (h : c.Paletted) (rule : FloodFill) (command : Command) :
    (c.execute rule command).1.Paletted := by
  cases hs : command.shape?
  case some drawn =>
    exact h.painted (Palette.color_mem_colors _) (painted_execute c rule hs)
  case none =>
    cases command
    case setColors | setFill | moveTo | defineWindow => exact h
    case floodFill seed border color => exact h.fill (Palette.color_mem_colors color) rule seed
    case reset =>
      simp only [Canvas.execute, clear_eq_fill]
      exact uniform (Palette.color_mem_colors 0)
    all_goals contradiction

theorem executeAll (h : c.Paletted) (rule : FloodFill) (commands : List Command) :
    (c.executeAll rule commands).Paletted :=
  List.foldlRecOn _ _ (motive := Paletted) h fun _ h command _ => h.execute rule command

-- The bytes are those of one colour of the palette after the other, a colour for each cell.
theorem bytes_eq (h : c.Paletted) : ∃ shown : List Color, shown.length = s.width * s.height ∧
    (∀ color ∈ shown, color ∈ Palette.colors ∧ color.a = 255) ∧
      c.bytes = shown.flatMap Color.bytes := by
  refine ⟨c.pixels.toList, Vector.length_toList, fun color hc => ?_, rfl⟩
  obtain ⟨i, hi, rfl⟩ := Vector.mem_iff_getElem.mp (Vector.mem_toList_iff.mp hc)
  have hp := h (.ofIndex ⟨i, hi⟩)
  rw [get_eq_getElem _ _ (by simpa)] at hp
  simp only [Cell.index_ofIndex] at hp
  exact ⟨hp, Palette.alpha_of_mem _ hp⟩

end Canvas.Paletted

namespace Session

variable {p : Session}

theorem Faithful.paletted (h : p.Faithful) : p.canvas.Paletted := by
  have hu := Canvas.Paletted.uniform (s := p.size) (Palette.color_mem_colors 0)
  rw [Faithful] at h
  exact h ▸ hu.executeAll p.rule _

end Session

-- However far a session has got, and however it has got there, all that its canvas shows are the
-- sixteen colours of the palette, and they are solid. With `n` steps in its own generation it has
-- come to the end of its first `n` commands.
theorem start_in_palette (s : Scheduler) (commands : Array Command) (z : Size) :
    ∃ p, s.start commands z.width z.height = (s.cancel, .ok p) ∧ p.commands = commands ∧
      p.size = z ∧
      (∀ n, (p.after (.replicate n p.generation)).executed = min n commands.size) ∧
      ∀ seen,
        (∀ q : Cell (p.after seen).size, (p.after seen).canvas.get q ∈ Palette.colors ∧
          ((p.after seen).canvas.get q).a = 255) ∧
        ∃ shown : List Color, shown.length = z.width * z.height ∧
          (∀ color ∈ shown, color ∈ Palette.colors ∧ color.a = 255) ∧
          (p.after seen).canvas.bytes = shown.flatMap Color.bytes := by
  have ⟨p, hs, ho, he, _⟩ := s.exists_start commands z.ofDimensions_eq
  refine ⟨p, hs, ho.commands, ho.size, fun n => ?_, fun seen => ?_⟩
  · rw [p.executed_after_replicate, he, Nat.zero_add, ho.commands]
  · have hp := (ho.faithful.after seen).paletted
    have hz := (p.continues_after seen).size.trans ho.size
    have ⟨shown, hl, hm, hb⟩ := hp.bytes_eq
    exact ⟨fun q => ⟨hp q, Palette.alpha_of_mem _ (hp q)⟩, shown, by rw [hl, hz], hm, hb⟩

end PenStream
