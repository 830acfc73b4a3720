import PenStream.Drawing.Shape
import PenStream.Proofs.Geometry.Line
import PenStream.Proofs.Range
import PenStream.Proofs.Strict.Canvas
import PenStream.Strict.Line

namespace PenStream

-- Whether lines to and from a point are exact.
def Point.Near (p : Point) : Prop :=
  |p.x| < 2 ^ 22 ∧ |p.y| < 2 ^ 22

instance (p : Point) : Decidable p.Near :=
  inferInstanceAs (Decidable (_ ∧ _))

theorem Point.InRange.near {p : Point} (h : p.InRange) : p.Near := by
  have ⟨_, _⟩ := h
  exact ⟨abs_lt.mpr (by omega), abs_lt.mpr (by omega)⟩

namespace Strict

variable {s : Size}

theorem divide_eq {a b : Int} (hb : 0 < b) (ha : -0x80000000 < a ∧ a < 0x80000000) :
    divide a b = pure (a.tdiv b) ∧ remainder a b = pure (a.tmod b) := by
  have hd := Int.natAbs_tdiv_le_natAbs a b
  have hm := Int.natAbs_tmod a b ▸ Nat.mod_le a.natAbs b.natAbs
  have hn : b ≠ 0 := by omega
  rw [divide, remainder, require_bind hn, require_bind hn, int32_eq (by omega),
    int32_eq (by omega)]
  exact ⟨rfl, rfl⟩

theorem forward_eq {start stop count : Int} (hc : 0 ≤ count ∧ count < 0x80000000)
    (hd : |stop - start| < 0x80000000) :
    forward start stop count = pure (.forward start stop count) := by
  have hp : 0 < max count 1 := by omega
  have hd := abs_lt.mp hd
  have ⟨hq, hr⟩ := divide_eq hp hd
  have hl := Int.tmod_lt_of_pos (stop - start) hp
  have hg := Int.lt_tmod_of_pos (stop - start) hp
  have hw := Int.natAbs_tdiv_le_natAbs (stop - start) (max count 1)
  rw [forward, Dda.forward, int32_eq (by omega)]
  simp only [pure_bind, hq, hr]
  split
  case isTrue h =>
    rw [int32_bind (by omega), int32_bind (by omega), int32_bind (by omega), Int.add_sub_cancel]
  case isFalse h => rw [int32_bind (by omega)]

theorem ddaStep_eq {d : Dda} {start difference : Int} {k : Nat} (h : d.At start difference k)
    (hc : d.count < 0x80000000) (hv : |d.step.value| < 0x80000000) : ddaStep d = pure d.step := by
  have hv := abs_lt.mp hv
  have hs := d.value_step
  have ⟨_, _, hr, hr', hg, hz, _⟩ := h
  rw [ddaStep, int32_bind (by omega), int32_bind (by omega)]
  unfold Dda.step at hv ⊢
  dsimp only at hv ⊢
  split
  case isTrue h =>
    rw [if_pos h] at hv
    dsimp only at hv
    rw [int32_bind (by omega), int32_bind (by omega)]
  case isFalse h => rfl

theorem middle_eq {pixel : Int} (h : |pixel| < 2 ^ 22) :
    middle pixel = pure (Subpixel.middle pixel) := by
  have hm := Subpixel.middle_eq h
  have ⟨_, _⟩ := abs_lt.mp h
  rw [middle, hm, int32_bind (by simp only [Subpixel.scale]; omega),
    int32_eq (by simp only [Subpixel.scale]; omega)]
  rfl

theorem distance_eq {start stop : Int} (hs : |start| < 2 ^ 22) (ht : |stop| < 2 ^ 22) :
    distance start stop = pure ((stop - start).natAbs : Int) := by
  have hs := abs_lt.mp hs
  have ht := abs_lt.mp ht
  rw [distance, int32_bind (by omega), Int.abs_eq_natAbs, int32_eq (by omega)]

-- Points that are no longer near may be too far apart.
example : distance (-1) 0x7FFFFFFF = throw .overflow :=
  rfl

-- A line whose numbers are small, `k` steps from its first pixel.
structure Small (k : Nat) (l : Line) : Prop where
  length_lt : l.length < 2 ^ 23
  count : l.minor.count = max l.length 1
  minor : ∃ start difference, l.minor.At start difference k ∧ |start| ≤ 2 ^ 30 ∧
    |start + difference| ≤ 2 ^ 30 ∧ |difference| ≤ 256 * l.length
  direction : l.direction = 1 ∨ l.direction = -1
  major : |l.major| ≤ 2 ^ 22 + k

theorem along_eq {majorStart majorStop minorStart minorStop : Int} (ha : |majorStart| < 2 ^ 22)
    (hb : |majorStop| < 2 ^ 22) (hc : |minorStart| < 2 ^ 22) (hd : |minorStop| < 2 ^ 22)
    (hl : (minorStop - minorStart).natAbs ≤ (majorStop - majorStart).natAbs) (steep : Bool) :
    along steep majorStart majorStop minorStart minorStop =
        pure (.along steep majorStart majorStop minorStart minorStop) ∧
      Small 0 (.along steep majorStart majorStop minorStart minorStop) := by
  have hf := Subpixel.middle_eq hc
  have ht := Subpixel.middle_eq hd
  have ⟨_, _⟩ := abs_lt.mp ha
  have ⟨_, _⟩ := abs_lt.mp hb
  have ⟨_, _⟩ := abs_lt.mp hc
  have ⟨_, _⟩ := abs_lt.mp hd
  constructor
  case left =>
    rw [along, distance_eq ha hb, pure_bind, middle_eq hc, pure_bind, middle_eq hd, pure_bind,
      forward_eq (by omega) (abs_lt.mpr (by omega))]
    rfl
  case right =>
    exact {
      length_lt := by simp only [Line.along]; omega
      count := by simp [Line.along]
      minor := ⟨_, _, .forward .., abs_le.mpr (by omega), abs_le.mpr (by omega),
        abs_le.mpr (by simp only [Line.along]; omega)⟩
      direction := by simp only [Line.along]; split <;> simp
      major := by simp only [Line.along]; omega }

theorem between_eq {start stop : Point} (hs : start.Near) (ht : stop.Near) :
    between start stop = pure (.between start stop) ∧ Small 0 (.between start stop) := by
  rw [between, Line.between, distance_eq hs.left ht.left, pure_bind, distance_eq hs.right ht.right,
    pure_bind]
  simp only [Int.ofNat_lt]
  split
  case isTrue h  => exact along_eq hs.right ht.right hs.left ht.left (Nat.le_of_lt h) true
  case isFalse h => exact along_eq hs.left ht.left hs.right ht.right (Nat.le_of_not_lt h) false

-- The value of a small line is between its ends, and it does not add much to it in a step.
theorem Small.ddaStep_eq {k : Nat} {l : Line} (h : Small k l) (hk : k ≤ l.length) :
    ddaStep l.minor = pure l.minor.step := by
  have ⟨hl, hc, ⟨start, difference, hm, hs, ht, hd⟩, _, _⟩ := h
  have hs := abs_le.mp hs
  have ht := abs_le.mp ht
  have hv := hm.between (by omega)
  have hw := hm.whole_between (n := 256) (by omega)
  have hn := l.minor.value_step
  exact Strict.ddaStep_eq hm (by omega) (abs_lt.mpr (by omega))

theorem lineStep_eq {k : Nat} {l : Line} (h : Small k l) (hk : k ≤ l.length) :
    lineStep l = pure l.step ∧ Small (k + 1) l.step := by
  have hn := h.ddaStep_eq hk
  have ⟨hl, hc, ⟨start, difference, hm, hs⟩, hi, hj⟩ := h
  have hj := abs_le.mp hj
  constructor
  case left =>
    rw [lineStep, hn, pure_bind, int32_bind (by omega)]
    rfl
  case right =>
    exact {
      length_lt := hl
      count := by simp [Line.step, hc]
      minor := ⟨start, difference, hm.step, hs⟩
      direction := hi
      major := abs_le.mpr (by simp only [Line.step]; omega) }

theorem linePixels_eq (color : Color) {n k : Nat} {l : Line} (h : Small k l)
    (hn : k + n ≤ l.length + 1) (c : Canvas s) :
    linePixels color n c l =
      pure (Walk.fold Line.step (fun c l => c.plot color l.point) n c l) := by
  induction n generalizing k c l with
  | zero => rfl
  | succ n hi =>
    have ⟨he, h⟩ := lineStep_eq h (by omega)
    rw [linePixels, he, pure_bind, plot_eq, pure_bind, hi h (by simp only [Line.step]; omega)]
    rfl

theorem line_eq (c : Canvas s) (color : Color) {start stop : Point} (hs : start.Near)
    (ht : stop.Near) : line c color start stop = pure (c.line color start stop) := by
  have ⟨he, h⟩ := between_eq hs ht
  rw [line, he, pure_bind, linePixels_eq color h (by omega)]
  rfl

theorem polyline_eq (c : Canvas s) (color : Color) {points : List Point}
    (h : ∀ p ∈ points, p.Near) : polyline color c points = pure (c.polyline color points) := by
  fun_induction Canvas.polyline c color points
  case case1 c p q rest hi =>
    rw [polyline, line_eq c color (h p (by simp)) (h q (by simp)), pure_bind]
    exact hi fun r hr => h r (List.mem_cons_of_mem _ hr)
  case case2 => grind [polyline]

end Strict

end PenStream
