import PenStream.Proofs.FloodFill.Sound
import PenStream.Proofs.Strict.Canvas
import PenStream.Strict.FloodFill

namespace PenStream.Strict

variable {s : Size}

theorem area_le (s : Size) : s.area ≤ 0x3FFFFFFFFFFFFFFF := by
  have := Nat.mul_le_mul (Nat.le_of_lt_succ s.width_lt) (Nat.le_of_lt_succ s.height_lt)
  exact this.trans (by decide)

theorem indexOf_eq (p : Cell s) : indexOf p = pure (p.index.val : Int) := by
  have hi := p.index_isLt
  have ha := area_le s
  have hv : (p.index.val : Int) = p.y.val * s.width + p.x.val := by simp [Cell.index]
  have hz : 0 ≤ (p.y.val : Int) * s.width := by positivity
  rw [indexOf, size_bind (by omega), size_bind (by omega), require_bind (by omega), hv]

theorem reach_eq (p : Cell s) : reach p = pure () := by
  have hw := s.width_lt
  have hx := p.x.isLt
  have ⟨h₀, h₁, h₂⟩ := row_bytes p.y
  simp only [reach, Size.area, Canvas.cellBytes, Nat.cast_mul, Nat.cast_ofNat]
  rw [size_bind (by omega), size_bind (by omega), size_bind (by omega),
    size_bind (by omega), size_bind (by omega), require_eq (by omega)]

-- The neighbours of a cell are at most one step off the canvas.
theorem pushNeighbours_eq (pending : Pending) (p : Cell s) :
    pushNeighbours pending p.point = pure (pending.pushNeighbours p.point) := by
  have := p.x.isLt
  have := p.y.isLt
  have := s.width_lt
  have := s.height_lt
  simp only [pushNeighbours, Cell.point]
  rw [int32_bind (by omega), int32_bind (by omega), int32_bind (by omega), int32_bind (by omega)]
  rfl

theorem color_eq {f : Filling s} (h : f.tally.written ≤ s.area) (rule : FloodFill) (ink : Color)
    (p : Cell s) : color rule ink f p = pure (f.color rule ink p) := by
  have := area_le s
  rw [color, size_bind (by omega)]
  by_cases hr : f.pending.size < rule.maxPending
  case pos =>
    rw [if_pos hr, pushNeighbours_eq, pure_bind]
    simp only [Filling.color, hr, decide_true, if_true, Bool.not_true, Bool.or_false]
    rfl
  case neg =>
    simp only [Filling.color, hr, decide_false, Bool.not_false, Bool.or_true]
    rfl

theorem look_eq {f : Filling s} (h : f.tally.written ≤ s.area) (rule : FloodFill)
    (target ink : Color) (p : Point) :
    look rule target ink f p = pure (f.look rule target ink p) := by
  rw [look, Filling.look]
  cases s.cell? p
  case none => rfl
  case some cell =>
    simp only [indexOf_eq, reach_eq, pure_bind, color_eq h, Filling.accepts]
    by_cases hv : f.visited.get cell.index = true
    case pos => simp [hv]
    case neg =>
      by_cases hw : Color.within rule.tolerance (f.canvas.get cell) target
      case pos => simp [hv, hw]
      case neg => simp [hv, hw]

theorem fillOn_eq {rule : FloodFill} {c : Canvas s} {seed : Cell s} {ink : Color} {f : Filling s}
    {looks : Nat} (hs : f.Sound rule c seed ink) (hl : f.work ≤ looks) :
    fillOn rule (c.get seed) ink looks f = pure (f.run rule (c.get seed) ink) := by
  induction looks generalizing f with
  | zero =>
    have he : f.pending.points = [] := by
      rw [← List.length_eq_zero_iff]
      simp only [Filling.work] at hl
      omega
    simp [fillOn, Filling.run, he]
  | succ looks hi =>
    rw [fillOn, Filling.run]
    cases hp : f.pending.points
    case nil => simp
    case cons p points =>
      have hn : ¬f.pending.points.isEmpty := by simp [hp]
      have := Filling.work_next_lt rule (c.get seed) ink hn
      simp only [look_eq hs.pop.written_le, pure_bind]
      rw [← Filling.next_eq_look rule _ ink hp, hi (hs.next (by simp [hp])) (by omega)]
      simp

theorem fill_eq (rule : FloodFill) (c : Canvas s) (seed : Point) (color : Color) :
    fill rule c seed color = pure (rule.fill c seed color) := by
  have ha : (s.width : Int) * s.height = s.area := by simp
  have := area_le s
  cases h : s.cell? seed
  case none => simp [fill, FloodFill.fill, h]
  case some cell =>
    have hs := Cell.cell?_eq_some_iff.mp h
    subst hs
    simp only [fill, h, reach_eq, pure_bind, ha]
    split
    case isTrue hd  => simp [FloodFill.fill, hd]
    case isFalse hd =>
      rw [size_bind (by omega), Int.toNat_natCast,
        fillOn_eq .start (Filling.work_start c cell).le, pure_bind, FloodFill.fill_eq_done hd]
      rfl

end PenStream.Strict
