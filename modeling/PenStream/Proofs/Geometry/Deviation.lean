import PenStream.Proofs.Geometry.Across
import PenStream.Proofs.Range

namespace PenStream

-- What is less than a unit ahead in units is less than half a pixel and a unit ahead in pixels.
theorem Subpixel.pixel_near {start change : Int} {count k : Nat} {d : Dda}
    (h : d.At (start * 256 + 128) (change * 256) k) (hc : d.count = count) :
    -(count : Int) < 2 * (pixel d.value - start) * count - 2 * k * change ∧
      128 * (2 * (pixel d.value - start) * count - 2 * k * change) < 129 * count := by
  have hp : pixel d.value * 256 ≤ d.value ∧ d.value < pixel d.value * 256 + 256 := by
    simp only [pixel, scale]
    omega
  generalize pixel d.value = p at hp ⊢
  have hv := h.value
  have hr := h.rest_le
  have hg := h.carry_gt
  have hn := h.count_pos
  rw [hc] at hv hr hg hn
  constructor
  case left =>
    -- What is half a pixel behind has been gained as a whole, and would be in the next pixel.
    by_contra hl
    have := h.le_value ((p - start) * 256 + 128) (by rw [hc]; linarith)
    omega
  case right =>
    have := Int.mul_le_mul_of_nonneg_left hp.left (Int.le_of_lt hn)
    linarith

namespace Line

variable {start stop : Point}

theorem length_pos (h : start ≠ stop) : 0 < (between start stop).length := by
  rw [length_between]
  by_contra hn
  refine h (congrArg₂ Point.mk ?_ ?_) <;> omega

theorem getElem?_pixels {k : Nat} (hk : k ≤ (between start stop).length) :
    (pixels start stop)[k]? = some (pixelAt start stop k) := by
  rw [pixels_eq_map, List.getElem?_map, List.getElem?_range (Nat.lt_succ_of_le hk)]
  rfl

-- How far a point lies from where the ideal line is after so many steps: twice as far, times the
-- number of steps that the line has.
def deviation (start stop : Point) (k : Nat) (p : Point) : Int :=
  2 * (across start stop p - across start stop start) * (between start stop).length -
    2 * k * (across start stop stop - across start stop start)

-- Every pixel is less than half a pixel behind the ideal line, and less than half a pixel and a
-- unit ahead of it. On a line of no more than 128 steps it is nowhere more than half a pixel off.
theorem pixels_near_ideal (he : Exact start stop) (hn : start ≠ stop) {k : Nat}
    (hk : k ≤ (between start stop).length) :
    let length : Int := (between start stop).length
    ∃ p, (pixels start stop)[k]? = some p ∧
      -length < deviation start stop k p ∧ 128 * deviation start stop k p < 129 * length ∧
      (length ≤ 128 → |deviation start stop k p| ≤ length) := by
  intro length
  have hd := at_minor start stop k
  rw [Subpixel.wrapped_eq (he start (by simp)), Subpixel.wrapped_eq (he stop (by simp))] at hd
  have hc := count_minor start stop k
  rw [Nat.max_eq_left (length_pos hn)] at hc
  have ⟨hb, ha⟩ := Subpixel.pixel_near hd hc
  rw [← across_pixelAt] at hb ha
  refine ⟨pixelAt start stop k, getElem?_pixels hk, hb, ha, fun hs => abs_le.mpr ?_⟩
  unfold deviation
  omega

-- Half a pixel and most of a unit ahead.
theorem pixels_near_ideal_ahead :
    let start : Point := ⟨0, 0⟩
    let stop : Point := ⟨131, 44⟩
    Exact start stop ∧ start ≠ stop ∧ 64 ≤ (between start stop).length ∧
    ∃ p, (pixels start stop)[64]? = some p ∧
      -131 < deviation start stop 64 p ∧ 128 * deviation start stop 64 p < 129 * 131 := by
  intro start stop
  have he : Exact start stop := by decide
  have hn : start ≠ stop := by decide
  have hk : 64 ≤ (between start stop).length := by decide
  have ⟨p, hp, hb, ha, _⟩ := pixels_near_ideal he hn hk
  exact ⟨he, hn, hk, p, hp, hb, ha⟩

-- A pixel that is not the nearest: the ideal line is at 21 and 65/131 there.
theorem not_pixels_nearest :
    (pixels ⟨0, 0⟩ ⟨131, 44⟩)[64]? = some ⟨64, 22⟩ ∧
    ¬∀ start stop : Point, start.InRange → stop.InRange → 1 ≤ (between start stop).length →
      ∀ k ≤ (between start stop).length, ∀ p, (pixels start stop)[k]? = some p →
        |deviation start stop k p| ≤ (between start stop).length := by
  have hp : (pixels ⟨0, 0⟩ ⟨131, 44⟩)[64]? = some ⟨64, 22⟩ := by decide +kernel
  have hd : deviation ⟨0, 0⟩ ⟨131, 44⟩ 64 ⟨64, 22⟩ = 132 := by decide
  have hl : (between ⟨0, 0⟩ ⟨131, 44⟩).length = 131 := by decide
  refine ⟨hp, fun h => ?_⟩
  have h := h ⟨0, 0⟩ ⟨131, 44⟩ ⟨by decide, by decide⟩ ⟨by decide, by decide⟩ (by decide) 64
    (by decide) _ hp
  rw [hd, hl] at h
  exact absurd h (by decide)

end Line

end PenStream
