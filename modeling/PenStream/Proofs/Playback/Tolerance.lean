import PenStream.Proofs.Drawing.Paletted

namespace PenStream

theorem Palette.dvd_channels :
    ∀ c ∈ colors, 85 ∣ c.r.toNat ∧ 85 ∣ c.g.toNat ∧ 85 ∣ c.b.toNat := by
  decide

namespace Color

theorem distance_le_iff {u v tolerance : UInt8} (hu : 85 ∣ u.toNat) (hv : 85 ∣ v.toNat)
    (ht : tolerance ≤ 84) : distance u v ≤ tolerance.toNat ↔ u = v := by
  have ht : tolerance.toNat ≤ 84 := UInt8.le_iff_toNat_le.mp ht
  rw [distance, ← UInt8.toNat_inj]
  omega

-- Two colours of the palette are near each other only if they are the same, for their channels are
-- multiples of 85.
theorem within_eq_sameRgb {c d : Color} {tolerance : UInt8} (hc : c ∈ Palette.colors)
    (hd : d ∈ Palette.colors) (ht : tolerance ≤ 84) : c.within tolerance d = c.sameRgb d := by
  have ⟨hcr, hcg, hcb⟩ := Palette.dvd_channels c hc
  have ⟨hdr, hdg, hdb⟩ := Palette.dvd_channels d hd
  simp only [within, sameRgb, distance_le_iff hcr hdr ht, distance_le_iff hcg hdg ht,
    distance_le_iff hcb hdb ht]

end Color

-- Two rules that differ in their tolerance at most, and neither tolerance is large enough for the
-- palette to notice.
structure FloodFill.Matches (rule rule' : FloodFill) : Prop where
  maxPending : rule'.maxPending = rule.maxPending
  tolerance : rule.tolerance ≤ 84
  tolerance' : rule'.tolerance ≤ 84

namespace FloodFill.Matches

variable {s : Size} {rule rule' : FloodFill} {target ink : Color} {f : Filling s}

theorem accepts_eq (h : rule.Matches rule') (hf : f.canvas.Paletted)
    (ht : target ∈ Palette.colors) (p : Cell s) :
    f.accepts rule' target p = f.accepts rule target p := by
  simp only [Filling.accepts, Color.within_eq_sameRgb (hf p) ht h.tolerance,
    Color.within_eq_sameRgb (hf p) ht h.tolerance']

theorem color_eq (h : rule.Matches rule') (ink : Color) (f : Filling s) (p : Cell s) :
    f.color rule' ink p = f.color rule ink p := by
  simp only [Filling.color, h.maxPending]

theorem look_eq (h : rule.Matches rule') (hf : f.canvas.Paletted) (ht : target ∈ Palette.colors)
    (ink : Color) (p : Point) : f.look rule' target ink p = f.look rule target ink p := by
  simp only [Filling.look, h.accepts_eq hf ht, h.color_eq]

theorem next_eq (h : rule.Matches rule') (hf : f.canvas.Paletted) (ht : target ∈ Palette.colors)
    (ink : Color) (hp : f.pending.points ≠ []) :
    f.next rule' target ink = f.next rule target ink := by
  have ⟨p, points, hc⟩ := List.exists_cons_of_ne_nil hp
  rw [Filling.next_eq_look rule' target ink hc, Filling.next_eq_look rule target ink hc]
  exact h.look_eq (f := f.pop) hf ht ink p

-- The places that come next, the cells that are painted and the room that is left are the same all
-- the way, as long as the canvas keeps to the palette.
theorem run_eq (h : rule.Matches rule') (hf : f.canvas.Paletted) (ht : target ∈ Palette.colors)
    (hi : ink ∈ Palette.colors) : f.run rule' target ink = f.run rule target ink := by
  fun_induction Filling.run rule target ink f
  case case1 f he    => rw [Filling.run, if_pos he]
  case case2 f he ih =>
    have hp : f.pending.points ≠ [] := by simpa using he
    rw [Filling.run, if_neg he, h.next_eq hf ht ink hp]
    exact ih (hf.next hi hp)

theorem done_eq (h : rule.Matches rule') {c : Canvas s} (hc : c.Paletted) (seed : Cell s)
    (hi : ink ∈ Palette.colors) : rule'.done c seed ink = rule.done c seed ink := by
  rw [done, done, Palette.solid_of_mem ink hi]
  exact h.run_eq hc (hc seed) hi

theorem fill_eq (h : rule.Matches rule') {c : Canvas s} (hc : c.Paletted) (seed : Point)
    (hi : ink ∈ Palette.colors) : rule'.fill c seed ink = rule.fill c seed ink := by
  simp only [fill, h.done_eq hc _ hi]

-- The canvas comes to be the same, and so does the effect, with the tally of a fill.
theorem execute_eq (h : rule.Matches rule') {c : Canvas s} (hc : c.Paletted)
    (command : Command) : c.execute rule' command = c.execute rule command := by
  cases command
  case floodFill seed border color =>
    simp only [Canvas.execute, h.fill_eq hc seed (Palette.color_mem_colors color)]
  all_goals rfl

end FloodFill.Matches

namespace Session

variable {p : Session} {rule : FloodFill}

-- The same session with another rule for its fills.
def under (p : Session) (rule : FloodFill) : Session :=
  { p with rule }

theorem advance_under (h : p.executed < p.commands.size) (hp : p.canvas.Paletted)
    (hr : p.rule.Matches rule) : (p.under rule).advance h = (p.advance h).under rule := by
  simp only [advance, under, hr.execute_eq hp]

theorem step_under (hp : p.canvas.Paletted) (hr : p.rule.Matches rule) (current : UInt64) :
    (p.under rule).step current = ((p.step current).1.under rule, (p.step current).2) := by
  by_cases hg : p.generation = current
  case neg => rw [step_of_stale hg, step_of_stale (p := p.under rule) hg]
  case pos =>
    by_cases h : p.executed < p.commands.size
    case pos =>
      rw [step_of_lt hg h, step_of_lt (p := p.under rule) hg h, advance_under h hp hr]
      rfl
    case neg =>
      have h := Nat.not_lt.mp h
      rw [step_of_le hg h, step_of_le (p := p.under rule) hg h]

theorem after_under (hp : p.Faithful) (hr : p.rule.Matches rule) (seen : List UInt64) :
    (p.under rule).after seen = (p.after seen).under rule := by
  induction seen generalizing p with
  | nil => rfl
  | cons current seen hi =>
    rw [after_cons, after_cons, step_under hp.paletted hr]
    refine hi (hp.after [current]) ?_
    rwa [← after_nil (p.step current).1, ← after_cons, (p.continues_after [current]).rule]

end Session

-- A session does not show whether its fills are exact or have a tolerance of up to 84: however it
-- is driven, it is the same session but for the rule, it answers each step in the same way, and
-- every command, fills with their tallies among them, has the same effect.
theorem tolerance_invisible (s : Scheduler) (commands : Array Command) (z : Size)
    {tolerance : UInt8} (ht : tolerance ≤ 84) :
    let exactly : FloodFill := { s.rule with tolerance := 0 }
    let nearly : FloodFill := { s.rule with tolerance }
    ∃ p q, ({ s with rule := exactly }.start commands z.width z.height).2 = .ok p ∧
      ({ s with rule := nearly }.start commands z.width z.height).2 = .ok q ∧ p.size = z ∧
      ∀ seen,
        q.after seen = { p.after seen with rule := nearly } ∧
        (q.after seen).canvas.bytes = (p.after seen).canvas.bytes ∧
        (∀ current, ((q.after seen).step current).2 = ((p.after seen).step current).2) ∧
        ∀ command, ((q.after seen).canvas.execute nearly command).2 =
          ((p.after seen).canvas.execute exactly command).2 := by
  intro exactly nearly
  have hm : exactly.Matches nearly := ⟨rfl, show (0 : UInt8) ≤ 84 by decide, ht⟩
  have ⟨p, hs, ho, _, hn⟩ := { s with rule := exactly }.exists_start commands z.ofDimensions_eq
  refine ⟨p, p.under nearly, congrArg Prod.snd hs, congrArg Prod.snd (hn nearly), ho.size,
    fun seen => ?_⟩
  have hp : (p.after seen).canvas.Paletted := (ho.faithful.after seen).paletted
  have he : p.rule = exactly := ho.rule
  have hr : (p.after seen).rule = exactly := (p.continues_after seen).rule.trans he
  rw [Session.after_under ho.faithful (he ▸ hm)]
  refine ⟨rfl, rfl, fun current => ?_, fun command => ?_⟩
  · rw [Session.step_under hp (hr ▸ hm)]
  · exact congrArg Prod.snd (hm.execute_eq hp command)

-- A red canvas with a brown cell, whose green is 85: the fill stops in front of it.
theorem tolerance_invisible_brown :
    let commands : Array Command :=
      #[.bar ⟨0, 0⟩ ⟨2, 0⟩ 4, .pixel ⟨1, 0⟩ 6, .floodFill ⟨0, 0⟩ 15 1]
    (84 : UInt8) ≤ 84 ∧ ∃ p q,
      (({ rule.tolerance := 0 } : Scheduler).start commands 3 1).2 = .ok p ∧
      (({ rule.tolerance := 84 } : Scheduler).start commands 3 1).2 = .ok q ∧
      (p.after [1, 1, 1]).canvas.bytes = [0, 0, 170, 255, 170, 85, 0, 255, 170, 0, 0, 255] ∧
      (q.after [1, 1, 1]).canvas.bytes = (p.after [1, 1, 1]).canvas.bytes := by
  intro commands
  have ht : (84 : UInt8) ≤ 84 := by decide
  have ⟨p, q, hp, hq, _, h⟩ := tolerance_invisible {} commands
    ⟨3, 1, by decide, by decide, by decide, by decide⟩ ht
  refine ⟨ht, p, q, hp, hq, ?_, (h [1, 1, 1]).right.left⟩
  obtain rfl := Except.ok.inj hp
  decide +kernel

-- A larger tolerance does show.
example :
    let canvas := (Canvas.uniform ⟨2, 1, by decide, by decide, by decide, by decide⟩
      (Palette.color 4)).plot (Palette.color 6) ⟨1, 0⟩
    (({ tolerance := 85 } : FloodFill).fill canvas ⟨0, 0⟩ (Palette.color 1)).2.written = 2 ∧
    (({ tolerance := 84 } : FloodFill).fill canvas ⟨0, 0⟩ (Palette.color 1)).2.written = 1 := by
  decide +kernel

end PenStream
