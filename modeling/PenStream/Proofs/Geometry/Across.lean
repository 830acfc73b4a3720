import PenStream.Box
import PenStream.Proofs.Geometry.Line

namespace PenStream

namespace Line

variable (start stop : Point)

-- The coordinate of a point on the axis across the one along which a line goes.
def across (p : Point) : Int :=
  if (stop.x - start.x).natAbs < (stop.y - start.y).natAbs then p.x else p.y

def lengthwise (p : Point) : Int :=
  if (stop.x - start.x).natAbs < (stop.y - start.y).natAbs then p.y else p.x

-- The point for which an end of a line is taken. The middle of a pixel is counted in units of 32
-- bits, which leaves 24 for a coordinate across the line.
def wrapped (p : Point) : Point :=
  if (stop.x - start.x).natAbs < (stop.y - start.y).natAbs then ⟨Subpixel.wrapped p.x, p.y⟩
  else ⟨p.x, Subpixel.wrapped p.y⟩

-- Whether both ends of a line are taken for what they are.
def Exact : Prop :=
  ∀ p ∈ [start, stop], -0x800000 ≤ across start stop p ∧ across start stop p < 0x800000

instance : Decidable (Exact start stop) :=
  inferInstanceAs (Decidable (∀ p ∈ [start, stop], _))

theorem across_pixelAt (k : Nat) :
    across start stop (pixelAt start stop k) =
      Subpixel.pixel (step^[k] (between start stop)).minor.value := by
  unfold across pixelAt between
  split <;> simp [iterate_step, point, along]

theorem lengthwise_pixelAt (k : Nat) :
    lengthwise start stop (pixelAt start stop k) = (step^[k] (between start stop)).major := by
  unfold lengthwise pixelAt between
  split <;> simp [iterate_step, point, along]

theorem minor_between :
    (between start stop).minor = .forward (Subpixel.middle (across start stop start))
      (Subpixel.middle (across start stop stop)) (between start stop).length := by
  unfold across between
  split <;> rfl

theorem at_minor (k : Nat) :
    (step^[k] (between start stop)).minor.At
      (Subpixel.wrapped (across start stop start) * 256 + 128)
      ((Subpixel.wrapped (across start stop stop) -
        Subpixel.wrapped (across start stop start)) * 256) k := by
  have ha := Dda.At.forward (Subpixel.middle (across start stop start))
    (Subpixel.middle (across start stop stop)) (between start stop).length
  have hd (m n : Int) : n * 256 + 128 - (m * 256 + 128) = (n - m) * 256 := by omega
  rw [← minor_between, Subpixel.middle_eq_wrapped, Subpixel.middle_eq_wrapped, hd] at ha
  rw [iterate_step]
  exact ha.iterate k

theorem count_minor (k : Nat) :
    (step^[k] (between start stop)).minor.count = max (between start stop).length 1 := by
  rw [iterate_step, minor_between]
  simp

variable {start stop}

theorem across_between {k : Nat} (hk : k ≤ (between start stop).length) :
    let first := Subpixel.wrapped (across start stop start)
    let last := Subpixel.wrapped (across start stop stop)
    min first last ≤ across start stop (pixelAt start stop k) ∧
      across start stop (pixelAt start stop k) ≤ max first last := by
  intro first last
  have := Leads.value_between (at_minor start stop) (count_minor start stop) hk
  rw [across_pixelAt]
  simp only [Subpixel.pixel, Subpixel.scale]
  omega

theorem leads_lengthwise :
    Leads (lengthwise start stop start) (lengthwise start stop stop) (between start stop).length
      fun k => lengthwise start stop (pixelAt start stop k) := by
  simp only [lengthwise_pixelAt]
  unfold lengthwise between
  split
  case isTrue  => exact leads_major ..
  case isFalse => exact leads_major ..

theorem natAbs_lengthwise :
    (lengthwise start stop stop - lengthwise start stop start).natAbs =
      (between start stop).length := by
  unfold lengthwise between
  split <;> rfl

theorem Exact.wrapped_eq (h : Exact start stop) {p : Point} (hp : p ∈ [start, stop]) :
    wrapped start stop p = p := by
  have hp := h p hp
  unfold across at hp
  unfold wrapped
  split at hp
  case isTrue hd  => rw [if_pos hd, Subpixel.wrapped_eq hp]
  case isFalse hd => rw [if_neg hd, Subpixel.wrapped_eq hp]

-- Whatever bits are lost, a line stays between its ends.
theorem contains_of_mem_pixels {p : Point} (h : p ∈ pixels start stop) :
    (Box.ofCorners (wrapped start stop start) (wrapped start stop stop)).contains p := by
  rw [pixels_eq_map, List.mem_map] at h
  obtain ⟨k, hk, rfl⟩ := h
  have hk := Nat.le_of_lt_succ (List.mem_range.mp hk)
  have ha := across_between hk
  have hl := leads_lengthwise.between k hk
  rw [Box.contains_iff]
  simp only [Box.ofCorners, Box.normalize, wrapped]
  simp only [across, lengthwise] at ha hl
  by_cases hd : (stop.x - start.x).natAbs < (stop.y - start.y).natAbs
  case pos =>
    simp only [if_pos hd] at ha hl ⊢
    omega
  case neg =>
    simp only [if_neg hd] at ha hl ⊢
    omega

theorem ext_axes {p q : Point} (ha : across start stop p = across start stop q)
    (hl : lengthwise start stop p = lengthwise start stop q) : p = q := by
  obtain ⟨px, py⟩ := p
  obtain ⟨qx, qy⟩ := q
  rw [Point.mk.injEq]
  simp only [across, lengthwise] at ha hl
  split at ha
  case isTrue h  => exact ⟨ha, by rwa [if_pos h, if_pos h] at hl⟩
  case isFalse h => exact ⟨by rwa [if_neg h, if_neg h] at hl, ha⟩

-- A line that goes along an axis fills the box between its ends, which has one row or one column.
theorem mem_pixels_iff_of_axial (he : Exact start stop)
    (hx : start.x = stop.x ∨ start.y = stop.y) {p : Point} :
    p ∈ pixels start stop ↔ (Box.ofCorners start stop).contains p := by
  have inside {q : Point} (hq : q ∈ pixels start stop) : (Box.ofCorners start stop).contains q := by
    have hb := contains_of_mem_pixels hq
    rwa [he.wrapped_eq (by simp), he.wrapped_eq (by simp)] at hb
  have level {q : Point} (hq : (Box.ofCorners start stop).contains q) :
      across start stop q = across start stop start := by
    simp only [Box.contains_iff, Box.ofCorners, Box.normalize] at hq
    unfold across
    split <;> omega
  refine ⟨inside, fun hp => ?_⟩
  have hv : min (lengthwise start stop start) (lengthwise start stop stop) ≤
        lengthwise start stop p ∧
      lengthwise start stop p ≤
        max (lengthwise start stop start) (lengthwise start stop stop) := by
    simp only [Box.contains_iff, Box.ofCorners, Box.normalize] at hp
    unfold lengthwise
    split <;> omega
  obtain ⟨k, hk, hl⟩ := leads_lengthwise.exists_eq_of_straight natAbs_lengthwise hv
  have hm : pixelAt start stop k ∈ pixels start stop := by
    rw [pixels_eq_map]
    exact List.mem_map.mpr ⟨k, List.mem_range.mpr (Nat.lt_succ_of_le hk), rfl⟩
  rwa [ext_axes ((level hp).trans (level (inside hm)).symm) hl.symm]

end Line

end PenStream
