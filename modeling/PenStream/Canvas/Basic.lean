import PenStream.Canvas.Size
import PenStream.Color

namespace PenStream

-- The colours of the cells, row by row from the top.
@[ext]
structure Canvas (s : Size) where
  pixels : Vector Color s.area

namespace Canvas

variable {s : Size}

def uniform (s : Size) (color : Color) : Canvas s :=
  ⟨.replicate s.area color⟩

@[inline]
def get (c : Canvas s) (p : Cell s) : Color :=
  c.pixels.get p.index

@[inline]
def set (c : Canvas s) (p : Cell s) (color : Color) : Canvas s :=
  ⟨c.pixels.set p.index color p.index_isLt⟩

theorem get_eq_getElem (c : Canvas s) (p : Cell s) (h : p.index.val < s.area) :
    c.get p = c.pixels[p.index.val] :=
  rfl

theorem ext_get {c d : Canvas s} (h : ∀ p, c.get p = d.get p) : c = d := by
  ext i hi
  have := h (.ofIndex ⟨i, hi⟩)
  rw [get_eq_getElem c _ (by simpa), get_eq_getElem d _ (by simpa)] at this
  simpa using this

@[simp]
theorem get_uniform (color : Color) (p : Cell s) : (uniform s color).get p = color := by
  simp [uniform, get_eq_getElem]

theorem get_set (c : Canvas s) (p q : Cell s) (color : Color) :
    (c.set p color).get q = if p = q then color else c.get q := by
  simp [get_eq_getElem, set, Vector.getElem_set, ← Fin.ext_iff, Cell.index_inj]

def get? (c : Canvas s) (p : Point) : Option Color :=
  (s.cell? p).map c.get

def plot (c : Canvas s) (color : Color) (p : Point) : Canvas s :=
  match s.cell? p with
  | some cell => c.set cell color
  | none      => c

theorem get_plot (c : Canvas s) (color : Color) (p : Point) (q : Cell s) :
    (c.plot color p).get q = if p = q.point then color else c.get q := by
  unfold plot
  split
  case h_1 cell h =>
    rw [Cell.cell?_eq_some_iff] at h
    subst h
    rw [get_set]
    congr 1
    simp only [eq_iff_iff]
    exact ⟨fun h => h ▸ rfl, fun h => by
      have := Cell.cell?_point cell
      rw [h, Cell.cell?_point] at this
      exact (Option.some.inj this).symm⟩
  case h_2 h =>
    split
    case isTrue h' => simp [h'] at h
    case isFalse   => rfl

def fill (_ : Canvas s) (color : Color) : Canvas s :=
  uniform s color

end Canvas

end PenStream
