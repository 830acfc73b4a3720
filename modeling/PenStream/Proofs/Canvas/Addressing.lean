import Mathlib.Data.Set.Lattice
import Mathlib.Order.Interval.Set.Basic
import Mathlib.SetTheory.Cardinal.Finite
import Mathlib.Tactic.Ring
import PenStream.Proofs.Strict.Canvas

namespace PenStream.Canvas

-- `len` bytes from the place `i` on.
def slice (bytes : List UInt8) (i len : Nat) : List UInt8 :=
  (bytes.drop i).take len

-- With other bytes in place of as many from the place `i` on.
def splice (bytes : List UInt8) (i : Nat) (other : List UInt8) : List UInt8 :=
  bytes.take i ++ other ++ bytes.drop (i + other.length)

-- The bytes of colours, one after another.
section

variable (colors : List Color)

theorem take_flatMap_bytes (n : Nat) :
    (colors.flatMap Color.bytes).take (n * 4) = (colors.take n).flatMap Color.bytes := by
  induction colors generalizing n with
  | nil => simp
  | cons c colors hi =>
    cases n with
    | zero   => simp
    | succ n =>
      have hc : c.bytes.length = 4 := rfl
      rw [List.flatMap_cons, List.take_succ_cons, List.flatMap_cons, ← hi, Nat.succ_mul,
        Nat.add_comm, ← hc, List.take_length_add_append]

theorem drop_flatMap_bytes (n : Nat) :
    (colors.flatMap Color.bytes).drop (n * 4) = (colors.drop n).flatMap Color.bytes := by
  have h := congrArg (List.flatMap Color.bytes) (colors.take_append_drop n)
  rw [List.flatMap_append, ← take_flatMap_bytes] at h
  exact List.append_cancel_left ((List.take_append_drop ..).trans h.symm)

theorem slice_flatMap_bytes (i n : Nat) : slice (colors.flatMap Color.bytes) (i * 4) (n * 4) =
    ((colors.drop i).take n).flatMap Color.bytes := by
  rw [slice, drop_flatMap_bytes, take_flatMap_bytes]

theorem slice_color {i : Nat} (h : i < colors.length) :
    slice (colors.flatMap Color.bytes) (i * 4) 4 = colors[i].bytes := by
  have hs := slice_flatMap_bytes colors i 1
  rw [Nat.one_mul] at hs
  rw [hs, List.drop_eq_getElem_cons h, List.take_succ_cons, List.take_zero, List.flatMap_singleton]

theorem splice_color {i : Nat} (h : i < colors.length) (c : Color) :
    splice (colors.flatMap Color.bytes) (i * 4) c.bytes =
      (colors.set i c).flatMap Color.bytes := by
  have hn : i * 4 + c.bytes.length = (i + 1) * 4 := (Nat.succ_mul i 4).symm
  rw [splice, hn, take_flatMap_bytes, drop_flatMap_bytes, List.set_eq_take_append_cons_drop,
    if_pos h, List.flatMap_append, List.flatMap_cons, List.append_assoc]

theorem colorsOfBytes_flatMap_bytes : colorsOfBytes (colors.flatMap Color.bytes) = colors := by
  induction colors with
  | nil => rfl
  | cons c colors hi =>
    rw [List.flatMap_cons]
    exact congrArg (c :: ·) hi

end

variable {s : Size} (c : Canvas s)

theorem offset_eq (p : Cell s) : offset s p.x p.y = p.index * cellBytes := by
  simp only [offset, stride, Cell.index]
  ring

theorem slice_bytes (p : Cell s) :
    slice c.bytes (offset s p.x p.y) cellBytes = (c.get p).bytes := by
  rw [offset_eq, bytes, slice_color _ (by simp)]
  rfl

theorem bytes_set (p : Cell s) (color : Color) :
    (c.set p color).bytes = splice c.bytes (offset s p.x p.y) color.bytes := by
  rw [offset_eq, bytes, bytes, splice_color _ (by simp), set, Vector.toList_set]

-- Where the bytes of a cell are among all bytes.
def places (p : Cell s) : Set Nat :=
  Set.Ico (offset s p.x p.y) (offset s p.x p.y + cellBytes)

theorem mem_places_iff {p : Cell s} {i : Nat} : i ∈ places p ↔ p.index = i / cellBytes := by
  simp only [places, Set.mem_Ico, offset_eq, cellBytes]
  omega

theorem places_inter_eq_empty {p q : Cell s} (h : p ≠ q) : places p ∩ places q = ∅ := by
  refine Set.eq_empty_of_forall_notMem fun i ⟨hp, hq⟩ => h (Cell.index_inj.mp (Fin.ext ?_))
  rw [mem_places_iff.mp hp, mem_places_iff.mp hq]

theorem iUnion_places : ⋃ p : Cell s, places p = Set.Iio c.bytes.length := by
  have hl : c.bytes.length = s.area * 4 := c.length_bytes
  ext i
  rw [Set.mem_iUnion, Set.mem_Iio, hl]
  simp only [mem_places_iff, cellBytes]
  constructor
  case mp =>
    rintro ⟨p, hp⟩
    have := p.index_isLt
    omega
  case mpr =>
    intro hi
    have hi : i / 4 < s.area := by omega
    exact ⟨.ofIndex ⟨i / 4, hi⟩, by rw [Cell.index_ofIndex]⟩

theorem card_cell (s : Size) : Nat.card (Cell s) = s.width * s.height := by
  have hb : Function.Bijective (Cell.index (s := s)) :=
    ⟨fun _ _ => Cell.index_inj.mp, fun i => ⟨.ofIndex i, Cell.index_ofIndex i⟩⟩
  rw [Nat.card_eq_of_bijective _ hb, Nat.card_fin]

theorem rowColors_eq (y : Fin s.height) :
    c.rowColors y = (c.pixels.toList.drop (y * s.width)).take s.width := by
  have := row_fits y (Nat.le_of_eq (Nat.zero_add s.width))
  apply List.ext_getElem
  · simp only [rowColors, List.length_map, List.length_finRange, List.length_take,
      List.length_drop, Vector.length_toList]
    omega
  · intro x _ _
    simp only [rowColors, List.getElem_map, List.getElem_finRange, List.getElem_take,
      List.getElem_drop, Vector.getElem_toList]
    rfl

theorem slice_row (y : Fin s.height) :
    slice c.bytes (y * stride s) (stride s) = (c.rowColors y).flatMap Color.bytes := by
  rw [rowColors_eq, ← slice_flatMap_bytes, Nat.mul_assoc]
  rfl

theorem rowBytes_eq (y : Fin s.height) :
    c.rowBytes y = .ok (slice c.bytes (y * stride s) (stride s)) := by
  rw [slice_row]
  simp [rowBytes, row, bind, Except.bind, pure, Except.pure]

theorem slice_slice_row (p : Cell s) :
    slice (slice c.bytes (p.y * stride s) (stride s)) (p.x * cellBytes) cellBytes =
      (c.get p).bytes := by
  rw [slice_row, slice_color _ (by simp [rowColors])]
  simp [rowColors]

theorem get_foldl_set (y : Fin s.height) (f : Fin s.width → Color) (xs : List (Fin s.width))
    (p : Cell s) : (xs.foldl (fun c x => c.set ⟨x, y⟩ (f x)) c).get p =
      if p.y = y ∧ p.x ∈ xs then f p.x else c.get p := by
  induction xs generalizing c with
  | nil => simp
  | cons x xs hi =>
    obtain ⟨px, py⟩ := p
    rw [List.foldl_cons, hi, get_set]
    simp only [Cell.mk.injEq, List.mem_cons]
    grind

theorem exists_writeRowBytes (y : Fin s.height) (f : Fin s.width → Color) :
    ∃ d, c.writeRowBytes y (((List.finRange s.width).map f).flatMap Color.bytes) = .ok d ∧
      ∀ p : Cell s, d.get p = if p.y = y then f p.x else c.get p := by
  have hl : (((List.finRange s.width).map f).flatMap Color.bytes).length = stride s := by
    rw [Color.length_flatMap_bytes, List.length_map, List.length_finRange]
    rfl
  refine ⟨(List.finRange s.width).foldl (fun c x => c.set ⟨x, y⟩ (f x)) c, ?_, fun p => ?_⟩
  · simp only [writeRowBytes, row, y.isLt, dif_pos, bind, Except.bind, hl, if_true,
      colorsOfBytes_flatMap_bytes, pure, Except.pure]
    rw [← List.map_prod_left_eq_zip, List.foldl_map]
  · simp [get_foldl_set]

theorem set_rowColors (p : Cell s) (color : Color) : (c.rowColors p.y).set p.x color =
    (List.finRange s.width).map (Function.update (fun x => c.get ⟨x, p.y⟩) p.x color) := by
  apply List.ext_getElem
  · simp [rowColors]
  · intro x _ _
    simp [rowColors, List.getElem_set, Function.update_apply, Fin.ext_iff, eq_comm]

-- A row that is changed in the bytes of a cell and put back.
theorem writeRowBytes_splice (p : Cell s) (color : Color) :
    c.writeRowBytes p.y
        (splice (slice c.bytes (p.y * stride s) (stride s)) (p.x * cellBytes) color.bytes) =
      .ok (c.set p color) := by
  obtain ⟨d, hd, hg⟩ :=
    c.exists_writeRowBytes p.y (Function.update (fun x => c.get ⟨x, p.y⟩) p.x color)
  rw [slice_row, splice_color _ (by simp [rowColors]), set_rowColors, hd]
  refine congrArg _ (ext_get fun q => ?_)
  obtain ⟨px, py⟩ := p
  obtain ⟨qx, qy⟩ := q
  rw [hg, get_set]
  simp only [Cell.mk.injEq, Function.update_apply]
  grind

theorem exists_point_iff (s : Size) (p : Point) : (∃ q : Cell s, q.point = p) ↔
    (0 ≤ p.x ∧ p.x < s.width) ∧ 0 ≤ p.y ∧ p.y < s.height := by
  constructor
  case mp =>
    rintro ⟨q, rfl⟩
    have := q.x.isLt
    have := q.y.isLt
    simp only [Cell.point]
    omega
  case mpr =>
    rintro ⟨hx, hy⟩
    refine ⟨⟨⟨p.x.toNat, by omega⟩, ⟨p.y.toNat, by omega⟩⟩, ?_⟩
    simp only [Cell.point, Int.toNat_of_nonneg hx.left, Int.toNat_of_nonneg hy.left]

theorem plot_point (color : Color) (p : Cell s) : c.plot color p.point = c.set p color := by
  rw [plot, Cell.cell?_point]

theorem get?_point (p : Cell s) : c.get? p.point = some (c.get p) := by
  rw [get?, Cell.cell?_point, Option.map_some]

theorem get?_eq_none_iff {p : Point} : c.get? p = none ↔ ¬∃ q : Cell s, q.point = p := by
  rw [get?, Option.map_eq_none_iff, Option.eq_none_iff_forall_ne_some]
  simp [Cell.cell?_eq_some_iff]

theorem plot_of_not_exists {color : Color} {p : Point} (h : ¬∃ q : Cell s, q.point = p) :
    c.plot color p = c := by
  rw [plot, Option.map_eq_none_iff.mp (c.get?_eq_none_iff.mpr h)]

theorem get?_plot (color : Color) (p : Cell s) (q : Point) :
    (c.plot color p.point).get? q = if q = p.point then some color else c.get? q := by
  cases hq : s.cell? q with
  | none =>
    have hn : q ≠ p.point := by
      rintro rfl
      rw [Cell.cell?_point] at hq
      cases hq
    rw [get?, get?, hq, if_neg hn]
    rfl
  | some r =>
    obtain rfl := Cell.cell?_eq_some_iff.mp hq
    rw [get?_point, get?_point, get_plot]
    simp only [eq_comm (a := p.point)]
    split <;> rfl

-- Whatever a canvas shows, a place that is no cell has nothing to be read and to be changed, and a
-- cell is the only place that is changed. Its bytes are read and written straight away as they are
-- in its row; they are no other cell's, and there are no others.
theorem addressed_alike (c : Canvas s) (color : Color) (p : Point) :
    let inside := (0 ≤ p.x ∧ p.x < s.width) ∧ 0 ≤ p.y ∧ p.y < s.height
    let d := c.plot color p
    (c.get? p = none ↔ ¬inside) ∧ (¬inside → d = c) ∧
    (inside → ∀ q, d.get? q = if q = p then some color else c.get? q) ∧
    (inside →
      let x := p.x.toNat
      let y := p.y.toNat
      let row := slice c.bytes (y * stride s) (stride s)
      (∃ here : Color, c.get? p = some here ∧ c.read p = .ok here ∧
        slice c.bytes (offset s x y) cellBytes = here.bytes ∧
        c.rowBytes y = .ok row ∧ slice row (x * cellBytes) cellBytes = here.bytes) ∧
      c.write color p = .ok d ∧ d.bytes = splice c.bytes (offset s x y) color.bytes ∧
      c.writeRowBytes y (splice row (x * cellBytes) color.bytes) = .ok d) ∧
    (∀ q r : Cell s, q ≠ r → places q ∩ places r = ∅) ∧
    (⋃ q : Cell s, places q) = Set.Iio c.bytes.length ∧
    Nat.card (Cell s) = s.width * s.height ∧ c.bytes.length = s.width * s.height * cellBytes := by
  intro inside d
  have hi : (∃ q : Cell s, q.point = p) ↔ inside := exists_point_iff s p
  rw [← hi]
  refine ⟨c.get?_eq_none_iff, c.plot_of_not_exists, ?_, ?_, fun _ _ => places_inter_eq_empty,
    c.iUnion_places, card_cell s, c.length_bytes⟩
  · rintro ⟨q, rfl⟩ r
    exact c.get?_plot color q r
  · rintro ⟨q, rfl⟩ x y row
    have hd : d = c.set q color := c.plot_point color q
    rw [hd]
    exact ⟨⟨c.get q, c.get?_point q, Strict.read_point c q, c.slice_bytes q, c.rowBytes_eq q.y,
        c.slice_slice_row q⟩,
      Strict.write_point c color q, c.bytes_set q color, c.writeRowBytes_splice q color⟩

-- In the middle of the second row.
theorem addressed_alike_second_row :
    let s : Size := ⟨3, 2, by decide, by decide, by decide, by decide⟩
    let c : Canvas s := .uniform s .clear
    let d := c.plot ⟨1, 2, 3, 4⟩ ⟨1, 1⟩
    d.get? ⟨1, 1⟩ = some ⟨1, 2, 3, 4⟩ ∧ c.write ⟨1, 2, 3, 4⟩ ⟨1, 1⟩ = .ok d ∧
      d.bytes = splice c.bytes 16 [1, 2, 3, 4] ∧
      c.writeRowBytes 1 [0, 0, 0, 0, 1, 2, 3, 4, 0, 0, 0, 0] = .ok d := by
  intro s c d
  have ⟨_, _, hg, hi, _⟩ := addressed_alike c ⟨1, 2, 3, 4⟩ ⟨1, 1⟩
  have ⟨_, hw, hb, hr⟩ := hi (by decide)
  exact ⟨hg (by decide) ⟨1, 1⟩, hw, hb, hr⟩

end PenStream.Canvas
