import PenStream.Geometry.Arc.Words
import PenStream.Walk

namespace PenStream

namespace Ellipse

-- The offsets of a quadrant down to the first that is level with the centre.
def walked (rx ry : Int) : List Point :=
  (Walk.takeUntil Arc.step Arc.isLevel (rx.natAbs + ry.natAbs) (Arc.top rx ry)).map Arc.offset

-- The offsets of a quadrant from the centre. A very flat ellipse is level before it is at its side;
-- the offsets between follow at the same height.
def quadrant (rx ry : Int) : List Point :=
  let offsets := walked rx ry
  offsets ++ tailFrom (offsets.getLast?.getD .origin)
where
  -- The offsets from behind one to the side.
  tailFrom (p : Point) : List Point :=
    (List.range (rx - p.x).toNat).map fun i : Nat => ⟨p.x + 1 + i, p.y⟩

theorem quadrant_eq (rx ry : Int) : quadrant rx ry =
    walked rx ry ++ quadrant.tailFrom rx ((walked rx ry).getLast?.getD .origin) :=
  rfl

-- Folds over the offsets from behind one to the side.
@[specialize]
def foldTail (f : β → Point → β) (b : β) (rx : Int) (p : Point) : β :=
  Walk.fold (fun p => ⟨p.x + 1, p.y⟩) f (rx - p.x).toNat b ⟨p.x + 1, p.y⟩

-- Folds over the offsets of a quadrant without a list of them.
@[specialize]
def foldQuadrant (f : β → Point → β) (b : β) (rx ry : Int) : β :=
  let (b, a) := Walk.foldUntil Arc.Compact.step Arc.Compact.isLevel (fun b a => f b a.offset)
    (rx.natAbs + ry.natAbs) b (.ofArc (Arc.top rx ry))
  foldTail f b rx a.offset

theorem take_right (n : Nat) (x y : Int) :
    Walk.take (fun p : Point => ⟨p.x + 1, p.y⟩) id n ⟨x, y⟩ =
      (List.range n).map fun i : Nat => ⟨x + i, y⟩ := by
  induction n generalizing x with
  | zero => rfl
  | succ n ih =>
    simp only [Walk.take_succ, ih, List.range_succ_eq_map, List.map_cons, List.map_map]
    simp [Function.comp_def, Int.add_assoc, Int.add_comm 1]

theorem foldTail_eq (f : β → Point → β) (b : β) (rx : Int) (p : Point) :
    foldTail f b rx p = (quadrant.tailFrom rx p).foldl f b := by
  rw [quadrant.tailFrom, ← take_right, ← Walk.fold_eq]
  rfl

theorem foldTail_foldUntil (f : β → Point → β) (b : β) (rx ry : Int) :
    let last := Walk.foldUntil Arc.step Arc.isLevel (fun b a => f b a.offset)
      (rx.natAbs + ry.natAbs) b (.top rx ry)
    foldTail f last.1 rx last.2.offset = (quadrant rx ry).foldl f b := by
  have ⟨hf, hl⟩ := Walk.foldUntil_eq Arc.step Arc.isLevel (fun b a => f b a.offset)
    (rx.natAbs + ry.natAbs) b (Arc.top rx ry)
  simp only [quadrant_eq, walked, foldTail_eq, hf, hl, List.foldl_append, List.foldl_map,
    List.getLast?_map, Option.map_some, Option.getD_some]

-- Words or not, the walk is the same.
theorem foldQuadrant_eq (f : β → Point → β) (b : β) (rx ry : Int) :
    foldQuadrant f b rx ry = (quadrant rx ry).foldl f b := by
  have hm := Walk.foldUntil_map (fun b a => f b a.offset) Arc.Compact.toArc Arc.Compact.toArc_step
    (fun c => (Arc.Compact.isLevel_toArc c).symm)
    (fun b c => congrArg (f b) (Arc.Compact.offset_toArc c).symm)
    (rx.natAbs + ry.natAbs) b (.ofArc (Arc.top rx ry))
  have ht := foldTail_foldUntil f b rx ry
  rw [← Arc.Compact.toArc_ofArc (.top rx ry), ← hm] at ht
  simp only [Prod.map_fst, Prod.map_snd, id, Arc.Compact.offset_toArc] at ht
  exact ht

-- The four pixels around a centre that share an offset up to its signs.
def reflections (center offset : Point) : List Point :=
  [⟨center.x + offset.x, center.y + offset.y⟩, ⟨center.x + offset.x, center.y - offset.y⟩,
   ⟨center.x - offset.x, center.y - offset.y⟩, ⟨center.x - offset.x, center.y + offset.y⟩]

end Ellipse

end PenStream
