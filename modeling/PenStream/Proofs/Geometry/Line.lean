import Mathlib.Data.List.Nodup
import Mathlib.Data.List.Range
import Mathlib.Tactic.Positivity
import Mathlib.Tactic.Ring
import PenStream.Geometry.Line.Tracer
import PenStream.Proofs.Geometry.Dda

namespace PenStream

theorem Walk.take_eq_map (next : σ → σ) (view : σ → α) (n : Nat) (s : σ) :
    take next view n s = (List.range n).map fun k => view (next^[k] s) := by
  induction n generalizing s with
  | zero      => rfl
  | succ n hi =>
    rw [take_succ, hi, List.range_succ_eq_map, List.map_cons, List.map_map]
    rfl

namespace Subpixel

-- The pixel for which another is taken, as a count of units has 32 bits.
def wrapped (pixel : Int) : Int :=
  pixel.bmod 0x1000000

theorem middle_eq_wrapped (pixel : Int) : middle pixel = wrapped pixel * 256 + 128 := by
  simp only [middle, wrapped, scale, Int.bmod_def]
  split <;> split <;> omega

theorem wrapped_eq {pixel : Int} (h : -0x800000 ≤ pixel ∧ pixel < 0x800000) :
    wrapped pixel = pixel :=
  Int.bmod_eq_of_le (by omega) (by omega)

theorem middle_eq {pixel : Int} (h : |pixel| < 2 ^ 22) : middle pixel = pixel * 256 + 128 := by
  have ⟨_, _⟩ := abs_lt.mp h
  rw [middle_eq_wrapped, wrapped_eq (by omega)]

end Subpixel

namespace Line

-- A coordinate that is led from one value to another in a number of steps.
structure Leads (start stop : Int) (count : Nat) (f : Nat → Int) : Prop where
  first : f 0 = start
  last : f count = stop
  between : ∀ k ≤ count, min start stop ≤ f k ∧ f k ≤ max start stop
  moves : ∀ k < count, f (k + 1) = f k ∨ f (k + 1) = f k + (stop - start).sign
  -- It moves every time if it has no time to rest.
  straight : (stop - start).natAbs = count → ∀ k ≤ count, f k = start + k * (stop - start).sign

namespace Leads

variable {start stop : Int} {count : Nat} {f : Nat → Int}

theorem of_straight (hc : (stop - start).natAbs = count)
    (hf : ∀ k ≤ count, f k = start + k * (stop - start).sign) : Leads start stop count f where
  first := by simpa using hf 0 (Nat.zero_le _)
  last := by
    have := Int.sign_mul_natAbs (stop - start)
    rw [hf count (Nat.le_refl _), ← hc, Int.mul_comm]
    omega
  between k hk := by
    rw [hf k hk]
    rcases Int.lt_trichotomy start stop with h | h | h
    · rw [Int.sign_eq_one_of_pos (by omega)]
      omega
    · rw [Int.sign_eq_zero_iff_zero.mpr (by omega)]
      omega
    · rw [Int.sign_eq_neg_one_of_neg (by omega)]
      omega
  moves k hk := by
    rw [hf k (Nat.le_of_lt hk), hf (k + 1) hk]
    push_cast
    exact .inr (by ring)
  straight _ := hf

section

-- Even steps from the middle of one pixel to that of another no farther away than there are steps.
variable {d : Nat → Dda} (hd : ∀ k, (d k).At (start * 256 + 128) ((stop - start) * 256) k)
variable (hc : ∀ k, (d k).count = max count 1)

include hd hc

theorem value_between {k : Nat} (hk : k ≤ count) :
    min start stop * 256 + 128 ≤ (d k).value ∧ (d k).value ≤ max start stop * 256 + 128 := by
  have := (hd k).between (by rw [hc]; omega)
  omega

theorem value_straight (h : (stop - start).natAbs = count) {k : Nat} (hk : k ≤ count) :
    (d k).value = start * 256 + 128 + k * (stop - start).sign * 256 := by
  refine (hd k).value_eq _ ?_
  have hk : (k : Int) * (d k).count = k * count := by
    rw [hc]
    rcases Nat.eq_zero_or_pos k with rfl | _
    · simp
    · congr 1
      omega
  have hδ := Int.sign_mul_natAbs (stop - start)
  rw [h] at hδ
  linear_combination 256 * (stop - start).sign * hk + 256 * k * hδ

variable (hs : ∀ k, d (k + 1) = (d k).step) (hl : (stop - start).natAbs ≤ count)

include hs hl

theorem value_moves (k : Nat) :
    (d k).value + min ((stop - start).sign * 256) 0 ≤ (d (k + 1)).value ∧
      (d (k + 1)).value ≤ (d k).value + max ((stop - start).sign * 256) 0 := by
  have hk := hc k
  rw [hs]
  rcases Int.lt_trichotomy start stop with h | h | h
  · rw [Int.sign_eq_one_of_pos (by omega)]
    have := (hd k).le_step_value 0 (by omega)
    have := (hd k).step_value_le 256 (by omega)
    omega
  · rw [Int.sign_eq_zero_iff_zero.mpr (by omega)]
    have := (hd k).le_step_value 0 (by omega)
    have := (hd k).step_value_le 0 (by omega)
    omega
  · rw [Int.sign_eq_neg_one_of_neg (by omega)]
    have := (hd k).le_step_value (-256) (by omega)
    have := (hd k).step_value_le 0 (by omega)
    omega

theorem of_at : Leads start stop count fun k => Subpixel.pixel (d k).value where
  first := by
    have := (hd 0).value_eq 0 (by simp)
    simp only [Subpixel.pixel, Subpixel.scale]
    omega
  last := by
    have hz : (stop - start) * (d count).count = (stop - start) * count := by
      rw [hc]
      rcases Nat.eq_zero_or_pos count with rfl | _
      · rw [show stop - start = 0 by omega]
        simp
      · congr 1
        omega
    have := (hd count).value_eq ((stop - start) * 256) (by linear_combination 256 * hz)
    simp only [Subpixel.pixel, Subpixel.scale]
    omega
  between k hk := by
    have := value_between hd hc hk
    simp only [Subpixel.pixel, Subpixel.scale]
    omega
  moves k hk := by
    have := value_moves hd hc hs hl k
    simp only [Subpixel.pixel, Subpixel.scale]
    rcases Int.sign_trichotomy (stop - start) with h | h | h <;> rw [h] at this ⊢ <;> omega
  straight h k hk := by
    have := value_straight hd hc h hk
    simp only [Subpixel.pixel, Subpixel.scale]
    omega

end

theorem succ_of_straight (h : Leads start stop count f) (hc : (stop - start).natAbs = count)
    {k : Nat} (hk : k < count) : f (k + 1) = f k + (stop - start).sign ∧ stop - start ≠ 0 := by
  rw [h.straight hc k (Nat.le_of_lt hk), h.straight hc (k + 1) hk]
  push_cast
  exact ⟨by ring, by omega⟩

-- A coordinate that moves every time is never the same.
theorem eq_of_straight (h : Leads start stop count f) (hc : (stop - start).natAbs = count)
    {j k : Nat} (hj : j ≤ count) (hk : k ≤ count) (he : f j = f k) : j = k := by
  rw [h.straight hc j hj, h.straight hc k hk] at he
  rcases Int.sign_trichotomy (stop - start) with hs | hs | hs <;> rw [hs] at he
  · omega
  · have := Int.sign_eq_zero_iff_zero.mp hs
    omega
  · omega

-- A coordinate that moves every time leaves nothing out.
theorem exists_eq_of_straight (h : Leads start stop count f) (hc : (stop - start).natAbs = count)
    {v : Int} (hv : min start stop ≤ v ∧ v ≤ max start stop) : ∃ k ≤ count, f k = v := by
  refine ⟨(v - start).natAbs, by omega, ?_⟩
  rw [h.straight hc _ (by omega)]
  rcases Int.sign_trichotomy (stop - start) with hs | hs | hs <;> rw [hs]
  · have := Int.sign_eq_one_iff_pos.mp hs
    omega
  · have := Int.sign_eq_zero_iff_zero.mp hs
    omega
  · have := Int.sign_eq_neg_one_iff_neg.mp hs
    omega

end Leads

theorem iterate_step (l : Line) (k : Nat) :
    step^[k] l =
      { l with major := l.major + k * l.direction, minor := Dda.step^[k] l.minor } := by
  induction k with
  | zero      => simp
  | succ k hi =>
    rw [Function.iterate_succ_apply', hi, Function.iterate_succ_apply']
    simp only [step, Nat.cast_succ, Int.add_mul, Int.one_mul, Int.add_assoc]

section

variable (steep : Bool) (majorStart majorStop minorStart minorStop : Int)

theorem leads_major :
    Leads majorStart majorStop (majorStop - majorStart).natAbs fun k =>
      (step^[k] (along steep majorStart majorStop minorStart minorStop)).major := by
  refine .of_straight rfl fun k hk => ?_
  simp only [iterate_step, along]
  rcases Int.lt_trichotomy majorStart majorStop with h | h | h
  · rw [if_pos h, Int.sign_eq_one_of_pos (by omega)]
  · rw [show k = 0 by omega]
    simp
  · rw [if_neg (by omega), Int.sign_eq_neg_one_of_neg (by omega)]

theorem leads_minor (hs : |minorStart| < 2 ^ 22) (ht : |minorStop| < 2 ^ 22)
    (hl : (minorStop - minorStart).natAbs ≤ (majorStop - majorStart).natAbs) :
    Leads minorStart minorStop (majorStop - majorStart).natAbs fun k =>
      Subpixel.pixel
        (step^[k] (along steep majorStart majorStop minorStart minorStop)).minor.value := by
  have hm : Subpixel.middle minorStop - Subpixel.middle minorStart =
      (minorStop - minorStart) * 256 := by
    rw [Subpixel.middle_eq hs, Subpixel.middle_eq ht]
    ring
  have ha := Dda.At.forward (Subpixel.middle minorStart) (Subpixel.middle minorStop)
    (majorStop - majorStart).natAbs
  rw [hm, Subpixel.middle_eq hs] at ha
  simp only [iterate_step, along, Subpixel.middle_eq hs]
  refine .of_at ha.iterate (fun k => ?_) (fun k => Function.iterate_succ_apply' ..) hl
  simp

end

variable (start stop : Point)

-- The pixel of a line so many steps behind the first.
def pixelAt (k : Nat) : Point :=
  (step^[k] (between start stop)).point

theorem pixels_eq_map :
    pixels start stop = (List.range ((between start stop).length + 1)).map (pixelAt start stop) :=
  Walk.take_eq_map ..

theorem length_between :
    (between start stop).length = max (stop.x - start.x).natAbs (stop.y - start.y).natAbs := by
  unfold between
  split <;> simp only [along] <;> omega

variable {start stop}

theorem leads_pixelAt (hs : |start.x| < 2 ^ 22 ∧ |start.y| < 2 ^ 22)
    (ht : |stop.x| < 2 ^ 22 ∧ |stop.y| < 2 ^ 22) :
    Leads start.x stop.x (between start stop).length (fun k => (pixelAt start stop k).x) ∧
      Leads start.y stop.y (between start stop).length (fun k => (pixelAt start stop k).y) := by
  unfold pixelAt between
  split
  case isTrue h =>
    have hx := leads_minor true start.y stop.y start.x stop.x hs.left ht.left (Nat.le_of_lt h)
    have hy := leads_major true start.y stop.y start.x stop.x
    simp only [iterate_step, point, along] at hx hy ⊢
    exact ⟨hx, hy⟩
  case isFalse h =>
    have hx := leads_major false start.x stop.x start.y stop.y
    have hy := leads_minor false start.x stop.x start.y stop.y hs.right ht.right
      (Nat.le_of_not_lt h)
    simp only [iterate_step, point, along] at hx hy ⊢
    exact ⟨hx, hy⟩

-- Between pixels with 22 bits and a sign, lines are exact: the middle of a pixel has 32 bits.
theorem pixels_lead (hs : |start.x| < 2 ^ 22 ∧ |start.y| < 2 ^ 22)
    (ht : |stop.x| < 2 ^ 22 ∧ |stop.y| < 2 ^ 22) :
    Iteration.Yields Tracer.next? (.between start stop) (pixels start stop) ∧
    let ps := pixels start stop
    let dx := stop.x - start.x
    let dy := stop.y - start.y
    ps.length = max dx.natAbs dy.natAbs + 1 ∧
    ps.head? = some start ∧ ps.getLast? = some stop ∧
    (ps.IsChain fun p q =>
      (q.x = p.x ∨ q.x = p.x + dx.sign) ∧ (q.y = p.y ∨ q.y = p.y + dy.sign) ∧
      (dy.natAbs ≤ dx.natAbs → q.x = p.x + dx.sign ∧ dx ≠ 0) ∧
      (dx.natAbs ≤ dy.natAbs → q.y = p.y + dy.sign ∧ dy ≠ 0)) ∧
    (∀ p ∈ ps, (min start.x stop.x ≤ p.x ∧ p.x ≤ max start.x stop.x) ∧
      min start.y stop.y ≤ p.y ∧ p.y ≤ max start.y stop.y) ∧
    ps.Nodup ∧
    ∀ seen t, Iteration.Gives Tracer.next? (.between start stop) seen t →
      ∃ rest, ps = seen ++ rest ∧ Iteration.Yields Tracer.next? t rest ∧
        t.sizeHint = (rest.length, some rest.length) := by
  refine ⟨Tracer.yields_pixels start stop, ?_⟩
  intro ps dx dy
  have hp : ps = _ := pixels_eq_map start stop
  have hn := length_between start stop
  have ⟨hx, hy⟩ := leads_pixelAt hs ht
  generalize (between start stop).length = n at *
  refine ⟨by rw [hp, List.length_map, List.length_range, hn], ?_, ?_, ?_, fun p hm => ?_, ?_,
    fun seen t hg => ?_⟩
  · rw [hp, List.range_succ_eq_map]
    exact congrArg some (congrArg₂ Point.mk hx.first hy.first)
  · rw [hp, List.range_succ, List.map_append, List.getLast?_append]
    exact congrArg some (congrArg₂ Point.mk hx.last hy.last)
  · rw [hp, List.isChain_map, List.isChain_range_succ]
    exact fun k hk => ⟨hx.moves k hk, hy.moves k hk,
      fun hl => hx.succ_of_straight (by omega) hk, fun hl => hy.succ_of_straight (by omega) hk⟩
  · rw [hp, List.mem_map] at hm
    obtain ⟨k, hk, rfl⟩ := hm
    have hk := Nat.le_of_lt_succ (List.mem_range.mp hk)
    exact ⟨hx.between k hk, hy.between k hk⟩
  · rw [hp]
    refine List.Nodup.map_on (fun j hj k hk he => ?_) List.nodup_range
    have hj := Nat.le_of_lt_succ (List.mem_range.mp hj)
    have hk := Nat.le_of_lt_succ (List.mem_range.mp hk)
    rcases Nat.le_total dy.natAbs dx.natAbs with hl | hl
    · exact hx.eq_of_straight (by omega) hj hk (congrArg Point.x he)
    · exact hy.eq_of_straight (by omega) hj hk (congrArg Point.y he)
  · have ⟨rest, he, hr⟩ := (Tracer.yields_pixels start stop).of_gives hg
    exact ⟨rest, he, hr, by rw [Tracer.sizeHint, Tracer.remaining_eq hr]⟩

-- A steep line to the left and up, as far out as lines are exact; after two of its pixels as many
-- are to come.
theorem pixels_lead_far_out :
    let start : Point := ⟨4194303, -4194300⟩
    let stop : Point := ⟨4194301, -4194303⟩
    (|start.x| < 2 ^ 22 ∧ |start.y| < 2 ^ 22) ∧ (|stop.x| < 2 ^ 22 ∧ |stop.y| < 2 ^ 22) ∧
    (pixels start stop).length = 4 ∧ (pixels start stop).getLast? = some stop ∧
    (pixels start stop).Nodup ∧
    ∃ t rest, Iteration.Gives Tracer.next? (.between start stop)
        [⟨4194303, -4194300⟩, ⟨4194302, -4194301⟩] t ∧
      pixels start stop = ⟨4194303, -4194300⟩ :: ⟨4194302, -4194301⟩ :: rest ∧
      rest.length = 2 ∧ t.sizeHint = (2, some 2) := by
  let l : Line := .between ⟨4194303, -4194300⟩ ⟨4194301, -4194303⟩
  have h₁ : Tracer.next? ⟨l, 4⟩ = some (⟨4194303, -4194300⟩, ⟨l.step, 3⟩) := rfl
  have h₂ : Tracer.next? ⟨l.step, 3⟩ = some (⟨4194302, -4194301⟩, ⟨l.step.step, 2⟩) := rfl
  have hm := Iteration.Gives.cons h₁ (.cons h₂ .nil)
  intro start stop
  have hs : |start.x| < 2 ^ 22 ∧ |start.y| < 2 ^ 22 := by decide
  have ht : |stop.x| < 2 ^ 22 ∧ |stop.y| < 2 ^ 22 := by decide
  have ⟨_, hn, _, hg, _, _, hd, hr⟩ := pixels_lead hs ht
  have hn : (pixels start stop).length = 4 := hn
  have ⟨rest, he, _, hh⟩ := hr _ _ hm
  have hl : rest.length = 2 := by simpa [he] using hn
  exact ⟨hs, ht, hn, hg, hd, _, rest, hm, he, hl, hl ▸ hh⟩

end Line

end PenStream
