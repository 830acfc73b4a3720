import Mathlib.Data.Set.Card
import PenStream.Canvas.Basic

namespace PenStream

namespace Cell

variable {s : Size}

instance : Finite (Cell s) :=
  .of_injective (fun p : Cell s => p.index) fun _ _ => index_inj.mp

theorem point_inj {p q : Cell s} : p.point = q.point ↔ p = q := by
  constructor
  case mpr => exact fun h => h ▸ rfl
  case mp =>
    intro h
    rw [← Option.some_inj, ← cell?_point p, ← cell?_point q, h]

def Adjacent (p q : Cell s) : Prop :=
  (p.x.val = q.x.val ∧ (p.y.val = q.y.val + 1 ∨ q.y.val = p.y.val + 1)) ∨
    (p.y.val = q.y.val ∧ (p.x.val = q.x.val + 1 ∨ q.x.val = p.x.val + 1))

theorem mem_neighbours_iff {p q : Cell s} : q.point ∈ p.point.neighbours ↔ p.Adjacent q := by
  simp only [Point.neighbours, point, Adjacent, List.mem_cons, List.not_mem_nil, or_false,
    Point.mk.injEq]
  omega

-- The cells to which a path of neighbours leads from the seed without leaving a set.
inductive Linked (inside : Set (Cell s)) (seed : Cell s) : Cell s → Prop
  | seed (h : seed ∈ inside) : Linked inside seed seed
  | step {p q} (l : Linked inside seed p) (a : p.Adjacent q) (h : q ∈ inside) : Linked inside seed q

def component (inside : Set (Cell s)) (seed : Cell s) : Set (Cell s) :=
  { p | Linked inside seed p }

namespace Linked

variable {inside inside' : Set (Cell s)} {seed p : Cell s}

theorem mono (h : inside ⊆ inside') (l : Linked inside seed p) : Linked inside' seed p := by
  induction l
  case seed hs        => exact .seed (h hs)
  case step a hq hi   => exact .step hi a (h hq)

-- A set that has the seed, and with a cell all its neighbours inside, has the whole component.
theorem mem_of_closed {closed : Set (Cell s)} (hs : seed ∈ closed)
    (hc : ∀ p ∈ closed, ∀ q ∈ inside, p.Adjacent q → q ∈ closed) (l : Linked inside seed p) :
    p ∈ closed := by
  induction l
  case seed           => exact hs
  case step a hq hi   => exact hc _ hi _ hq a

end Linked

end Cell

end PenStream
