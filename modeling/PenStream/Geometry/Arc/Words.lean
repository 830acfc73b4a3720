import PenStream.Geometry.Arc

namespace PenStream.Arc

-- An arc whose numbers are words.
structure Words where
  xx : Int64
  yy : Int64
  gainX : Int64
  gainY : Int64
  error : Int64
  offset : Point

namespace Words

def toArc (w : Words) : Arc where
  xx := w.xx.toInt
  yy := w.yy.toInt
  gainX := w.gainX.toInt
  gainY := w.gainY.toInt
  error := w.error.toInt
  offset := w.offset

def magnitude (v : Int64) : Int64 :=
  if v < 0 then -v else v

def errorAfter (w : Words) : Move → Int64
  | .across => w.error + w.gainX + w.yy
  | .down   => w.error + w.gainY + w.xx
  | .both   => w.error + w.gainX + w.yy + w.gainY + w.xx

def move (w : Words) : Move :=
  let across := magnitude (w.errorAfter .across)
  let down := magnitude (w.errorAfter .down)
  let both := magnitude (w.errorAfter .both)
  if both < across && both < down then .both
  else if across ≤ down then .across
  else .down

def step (w : Words) : Words :=
  match w.move with
  | .across =>
    { w with
      gainX := w.gainX + (w.yy + w.yy)
      error := w.errorAfter .across
      offset := ⟨w.offset.x + 1, w.offset.y⟩ }
  | .down =>
    { w with
      gainY := w.gainY + (w.xx + w.xx)
      error := w.errorAfter .down
      offset := ⟨w.offset.x, w.offset.y + 1⟩ }
  | .both =>
    { w with
      gainX := w.gainX + (w.yy + w.yy)
      gainY := w.gainY + (w.xx + w.xx)
      error := w.errorAfter .both
      offset := ⟨w.offset.x + 1, w.offset.y + 1⟩ }

-- The words of an arc, as far as they go.
def ofArc (a : Arc) : Words where
  xx := .ofInt a.xx
  yy := .ofInt a.yy
  gainX := .ofInt a.gainX
  gainY := .ofInt a.gainY
  error := .ofInt a.error
  offset := a.offset

def addFits (a b : Int64) : Bool :=
  if b < 0 then Int64.minValue - b ≤ a else a ≤ Int64.maxValue - b

def fits (w : Words) : Bool :=
  let gain := w.error + w.gainX
  let across := gain + w.yy
  let drop := w.error + w.gainY
  let down := drop + w.xx
  let turn := across + w.gainY
  let both := turn + w.xx
  addFits w.error w.gainX && addFits gain w.yy && addFits w.error w.gainY && addFits drop w.xx &&
    addFits across w.gainY && addFits turn w.xx && across ≠ Int64.minValue &&
    down ≠ Int64.minValue && both ≠ Int64.minValue && addFits w.xx w.xx && addFits w.yy w.yy &&
    addFits w.gainX (w.yy + w.yy) && addFits w.gainY (w.xx + w.xx)

theorem toInt_add {a b : Int64} (h : addFits a b) : (a + b).toInt = a.toInt + b.toInt := by
  have ha := And.intro (Int64.le_toInt a) (Int64.toInt_lt a)
  have hb := And.intro (Int64.le_toInt b) (Int64.toInt_lt b)
  rw [Int64.toInt_add]
  by_cases hn : b < 0
  case pos =>
    have hlt : b.toInt < 0 := by simpa [Int64.lt_iff_toInt_lt] using hn
    have hsub : (Int64.minValue - b).toInt = -0x8000000000000000 - b.toInt := by
      rw [Int64.toInt_sub, Int64.toInt_minValue]
      exact Int.bmod_eq_of_le (by omega) (by omega)
    simp only [addFits, hn, if_true, decide_eq_true_eq, Int64.le_iff_toInt_le, hsub] at h
    exact Int.bmod_eq_of_le (by omega) (by omega)
  case neg =>
    have hle : ¬b.toInt < 0 := by simpa [Int64.lt_iff_toInt_lt] using hn
    have hsub : (Int64.maxValue - b).toInt = 0x7FFFFFFFFFFFFFFF - b.toInt := by
      rw [Int64.toInt_sub, Int64.toInt_maxValue]
      exact Int.bmod_eq_of_le (by omega) (by omega)
    simp only [addFits, hn, if_false, decide_eq_true_eq, Int64.le_iff_toInt_le, hsub] at h
    exact Int.bmod_eq_of_le (by omega) (by omega)

theorem toInt_neg {v : Int64} (h : v ≠ Int64.minValue) : (-v).toInt = -v.toInt := by
  have hl := Int64.le_toInt v
  have hr := Int64.toInt_lt v
  have hne : v.toInt ≠ -0x8000000000000000 := fun hv => h (Int64.toInt_inj.mp hv)
  rw [Int64.toInt_neg]
  exact Int.bmod_eq_of_le (by omega) (by omega)

theorem toInt_magnitude {v : Int64} (h : v ≠ Int64.minValue) :
    (magnitude v).toInt = v.toInt.natAbs := by
  unfold magnitude
  split
  case isTrue hlt =>
    have : v.toInt < 0 := by simpa [Int64.lt_iff_toInt_lt] using hlt
    rw [toInt_neg h]; omega
  case isFalse hlt =>
    have : ¬v.toInt < 0 := by simpa [Int64.lt_iff_toInt_lt] using hlt
    omega

theorem toInt_errorAfter {w : Words} (h : w.fits) (m : Move) :
    (w.errorAfter m).toInt = w.toArc.errorAfter m := by
  simp only [fits, Bool.and_eq_true] at h
  cases m <;> simp only [errorAfter, toInt_add, h, Arc.errorAfter, toArc]

theorem errorAfter_ne {w : Words} (h : w.fits) (m : Move) : w.errorAfter m ≠ Int64.minValue := by
  simp only [fits, Bool.and_eq_true, decide_eq_true_eq] at h
  cases m <;> simp [errorAfter, h]

theorem toArc_move {w : Words} (h : w.fits) : w.toArc.move = w.move := by
  simp only [move, Int64.lt_iff_toInt_lt, Int64.le_iff_toInt_le, Arc.move,
    toInt_magnitude (errorAfter_ne h _), toInt_errorAfter h, Bool.and_eq_true, decide_eq_true_eq,
    Nat.lt_min, Int.ofNat_lt, Int.ofNat_le]

theorem toArc_step {w : Words} (h : w.fits) : w.step.toArc = w.toArc.step := by
  have hm := toArc_move h
  have he := toInt_errorAfter h
  simp only [fits, Bool.and_eq_true] at h
  unfold step Arc.step
  rw [hm]
  cases w.move <;>
    simp [-Int64.toInt_add, toArc, Move.offset, he, toInt_add, h, Int.two_mul]

end Words

-- An arc in words or, where these do not do, in numbers of any size.
inductive Compact
  | words (w : Words)
  | numbers (a : Arc)

namespace Compact

def toArc : Compact → Arc
  | words w   => w.toArc
  | numbers a => a

def ofArc (a : Arc) : Compact :=
  let w := Words.ofArc a
  if w.toArc = a then words w else numbers a

def step : Compact → Compact
  | words w   => if w.fits then words w.step else numbers w.toArc.step
  | numbers a => numbers a.step

def offset : Compact → Point
  | words w   => w.offset
  | numbers a => a.offset

def isLevel (c : Compact) : Bool :=
  c.offset.y ≥ 0

theorem toArc_ofArc (a : Arc) : (ofArc a).toArc = a := by
  by_cases h : (Words.ofArc a).toArc = a
  case pos => simp [ofArc, h, toArc]
  case neg => simp [ofArc, h, toArc]

theorem toArc_step (c : Compact) : c.step.toArc = c.toArc.step := by
  cases c with
  | numbers a => rfl
  | words w =>
    by_cases h : w.fits
    case pos => simp [step, h, toArc, Words.toArc_step]
    case neg => simp [step, h, toArc]

theorem offset_toArc (c : Compact) : c.toArc.offset = c.offset := by
  cases c <;> rfl

theorem isLevel_toArc (c : Compact) : c.toArc.isLevel = c.isLevel := by
  simp [Arc.isLevel, isLevel, offset_toArc]

end Compact

end PenStream.Arc
