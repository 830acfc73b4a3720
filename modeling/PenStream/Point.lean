namespace PenStream

structure Point where
  x : Int
  y : Int
deriving DecidableEq, Repr

namespace Point

def origin : Point := ⟨0, 0⟩

-- The four points next to a point, in the order in which a fill looks at them.
def neighbours (p : Point) : List Point :=
  [⟨p.x, p.y - 1⟩, ⟨p.x, p.y + 1⟩, ⟨p.x - 1, p.y⟩, ⟨p.x + 1, p.y⟩]

@[simp]
theorem length_neighbours (p : Point) : p.neighbours.length = 4 :=
  rfl

end Point

end PenStream
