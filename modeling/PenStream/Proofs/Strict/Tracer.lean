import PenStream.Proofs.Geometry.Accuracy
import PenStream.Proofs.Strict.Ellipse

namespace PenStream

namespace Arc

namespace Words

theorem addFits_of_le {u v : Int64} {m n : Int} (hu : u.toInt = m) (hv : v.toInt = n)
    (h : -0x8000000000000000 ≤ m + n ∧ m + n ≤ 0x7FFFFFFFFFFFFFFF) :
    addFits u v ∧ (u + v).toInt = m + n := by
  subst hu hv
  have hu := And.intro (Int64.le_toInt u) (Int64.toInt_lt u)
  have hv := And.intro (Int64.le_toInt v) (Int64.toInt_lt v)
  suffices hf : addFits u v from ⟨hf, toInt_add hf⟩
  unfold addFits
  split
  case isTrue hn =>
    have hlt : v.toInt < 0 := by simpa [Int64.lt_iff_toInt_lt] using hn
    rw [decide_eq_true_eq, Int64.le_iff_toInt_le, Int64.toInt_sub, Int64.toInt_minValue,
      Int.bmod_eq_of_le (by omega) (by omega)]
    omega
  case isFalse hn =>
    have hle : ¬v.toInt < 0 := by simpa [Int64.lt_iff_toInt_lt] using hn
    rw [decide_eq_true_eq, Int64.le_iff_toInt_le, Int64.toInt_sub, Int64.toInt_maxValue,
      Int.bmod_eq_of_le (by omega) (by omega)]
    omega

theorem ne_minValue {v : Int64} {n : Int} (hv : v.toInt = n) (h : -0x8000000000000000 < n) :
    v ≠ Int64.minValue := by
  rintro rfl
  rw [Int64.toInt_minValue] at hv
  omega

theorem toArc_ofArc_of_bounded {a : Arc} (h : a.Bounded) : (ofArc a).toArc = a := by
  have ⟨hxx, hyy, hgx, hgy, he⟩ := h
  simp only [ofArc, toArc]
  rw [Int64.toInt_ofInt_of_le, Int64.toInt_ofInt_of_le, Int64.toInt_ofInt_of_le,
    Int64.toInt_ofInt_of_le, Int64.toInt_ofInt_of_le] <;> omega

-- Each sum of a step fits once those before it do.
theorem fits_of_bounded {w : Words} (h : w.toArc.Bounded) : w.fits := by
  have ⟨hxx, hyy, hgx, hgy, he⟩ := h
  simp only [toArc] at hxx hyy hgx hgy he
  obtain ⟨gain, hgain⟩ := addFits_of_le (u := w.error) (v := w.gainX) rfl rfl (by omega)
  obtain ⟨across, hacross⟩ := addFits_of_le (v := w.yy) hgain rfl (by omega)
  obtain ⟨drop, hdrop⟩ := addFits_of_le (u := w.error) (v := w.gainY) rfl rfl (by omega)
  obtain ⟨down, hdown⟩ := addFits_of_le (v := w.xx) hdrop rfl (by omega)
  obtain ⟨turn, hturn⟩ := addFits_of_le (v := w.gainY) hacross rfl (by omega)
  obtain ⟨both, hboth⟩ := addFits_of_le (v := w.xx) hturn rfl (by omega)
  obtain ⟨twiceX, htwiceX⟩ := addFits_of_le (u := w.xx) (v := w.xx) rfl rfl (by omega)
  obtain ⟨twiceY, htwiceY⟩ := addFits_of_le (u := w.yy) (v := w.yy) rfl rfl (by omega)
  obtain ⟨gainX, _⟩ := addFits_of_le (u := w.gainX) rfl htwiceY (by omega)
  obtain ⟨gainY, _⟩ := addFits_of_le (u := w.gainY) rfl htwiceX (by omega)
  have across' := ne_minValue hacross (by omega)
  have down' := ne_minValue hdown (by omega)
  have both' := ne_minValue hboth (by omega)
  simp [fits, *]

end Words

variable {rx ry : Int} {a : Arc}

-- The offsets that one move may lead to.
def ahead (p : Point) : List Point :=
  [⟨p.x + 1, p.y⟩, ⟨p.x, p.y + 1⟩, ⟨p.x + 1, p.y + 1⟩]

theorem mem_ahead_iff {p q : Point} : q ∈ ahead p ↔ ∃ m : Move, m.from p = q := by
  constructor
  case mp =>
    simp only [ahead, List.mem_cons, List.not_mem_nil, or_false]
    rintro (rfl | rfl | rfl)
    · exact ⟨.across, by simp [Move.from, Move.offset]⟩
    · exact ⟨.down, by simp [Move.from, Move.offset]⟩
    · exact ⟨.both, rfl⟩
  case mpr =>
    rintro ⟨m, rfl⟩
    cases m <;> simp [Move.from, Move.offset, ahead]

theorem Exact.abs_deviation_step_le (h : a.Exact rx ry) {q : Point} (hq : q ∈ ahead a.offset) :
    |Ellipse.deviation rx ry a.step.offset| ≤ |Ellipse.deviation rx ry q| := by
  obtain ⟨m, rfl⟩ := mem_ahead_iff.mp hq
  have hl := a.natAbs_errorAfter_move_le m
  rw [h.errorAfter, h.errorAfter] at hl
  rw [offset_step, Int.abs_eq_natAbs, Int.abs_eq_natAbs]
  exact_mod_cast hl

end Arc

namespace Ellipse.Tracer

-- Before the first offset, and behind each one on the walk; those between the walk and the side are
-- no longer walked.
inductive Walks (rx ry : Int) : Tracer → Prop
  | start : Walks rx ry (.ofRadii rx ry)
  | next {t u : Tracer} {p : Point} (h : Walks rx ry t) (hl : ¬t.isLevel)
    (hn : t.next? = some (p, u)) : Walks rx ry u

variable {rx ry : Int} {t u : Tracer} {p : Point}

structure Knows (rx ry : Int) (t : Tracer) : Prop where
  exact : t.arc.Exact rx ry
  inside : Arc.Inside rx ry t.arc.offset
  offset : t.arc.offset = t.offset
  -- Before the first offset it cannot tell yet.
  isLevel : t.started → t.isLevel = t.arc.isLevel

theorem Knows.next (h : Knows rx ry t) (hl : ¬t.isLevel) (hn : t.next? = some (p, u)) :
    Knows rx ry u := by
  have ⟨he, hi, _, hs⟩ := h
  rw [next?_of_walking hl] at hn
  obtain ⟨rfl, rfl⟩ := Prod.mk.inj (Option.some_inj.mp hn)
  by_cases hst : t.started
  case pos =>
    rw [if_pos hst]
    have hl : ¬t.arc.isLevel := by rwa [← hs hst]
    exact { exact := he.step, inside := hi.step he hl, offset := rfl, isLevel := fun _ => rfl }
  case neg =>
    rw [if_neg hst]
    exact { exact := he, inside := hi, offset := rfl, isLevel := fun _ => rfl }

theorem Walks.knows {rx ry : Nat} (h : Walks rx ry t) : Knows rx ry t := by
  induction h with
  | start =>
    exact {
      exact := .top rx ry
      inside := Arc.inside_top (by omega) (by omega)
      offset := rfl
      isLevel := nofun }
  | next _ hl hn hi => exact hi.next hl hn

-- At each place of the walk the numbers carried along are exact, none of the three offsets ahead is
-- off less than the next one, and the step to it overflows nowhere, checked or in words.
theorem walks_exactly {rx ry : Nat} (hx : rx ≤ 0x7FFF) (hy : ry ≤ 0x7FFF) {t : Tracer}
    (h : Walks rx ry t) :
    let a := t.arc
    let p := t.offset
    (a.offset = p ∧ a.error = deviation rx ry p ∧
      a.gainX = 2 * (ry * ry * p.x) ∧ a.gainY = 2 * (rx * rx * p.y)) ∧
    (t.started → ¬t.isLevel → ∃ u, t.next? = some (a.step.offset, u) ∧ u.arc = a.step) ∧
    (a.step.offset ∈ Arc.ahead p ∧
      ∀ q ∈ Arc.ahead p, |deviation rx ry a.step.offset| ≤ |deviation rx ry q|) ∧
    Strict.arcStep a = pure a.step ∧
    (Arc.Words.ofArc a).toArc = a ∧ (Arc.Words.ofArc a).fits := by
  intro a p
  have ⟨he, hi, ho, _⟩ := h.knows
  have hb : a.Bounded := he.bounded hi (by omega) (by omega)
  have ⟨hpx, hpy⟩ := Strict.abs_of_inside hi (by omega) (by omega)
  have hw := Arc.Words.toArc_ofArc_of_bounded hb
  have hp : a.offset = p := ho
  rw [← hp]
  refine ⟨⟨rfl, he.error, he.gainX, he.gainY⟩, fun hs hl => ?_, ⟨?_, ?_⟩,
    Strict.arcStep_eq hb hpx hpy, hw, Arc.Words.fits_of_bounded (hw.symm ▸ hb)⟩
  · rw [next?_of_walking hl, if_pos hs]
    exact ⟨_, rfl, rfl⟩
  · exact Arc.mem_ahead_iff.mpr ⟨a.move, rfl⟩
  · exact fun q hq => he.abs_deviation_step_le hq

-- The largest circle, one move from its top.
theorem walks_exactly_largest :
    let a := (Arc.top 0x7FFF 0x7FFF).step
    let t : Tracer :=
      { arc := a, rx := 0x7FFF, offset := ⟨1, -0x7FFF⟩, started := true, isLevel := false }
    Walks (0x7FFF : Nat) (0x7FFF : Nat) t ∧ a.error = deviation 0x7FFF 0x7FFF ⟨1, -0x7FFF⟩ ∧
      a.error = 0x3FFF0001 ∧ Strict.arcStep a = pure a.step := by
  intro a t
  have h : Walks (0x7FFF : Nat) (0x7FFF : Nat) t :=
    .next (.next .start (by decide) rfl) (by decide) rfl
  have ⟨⟨_, he, _⟩, _, _, hs, _⟩ := walks_exactly (Nat.le_refl _) (Nat.le_refl _) h
  exact ⟨h, he, rfl, hs⟩

end Ellipse.Tracer

end PenStream
