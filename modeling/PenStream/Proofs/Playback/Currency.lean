import PenStream.Proofs.Playback.Evolution

namespace PenStream.Stage

variable {s t u : Stage} {i : Nat} {p q : Session} {journal new : List Event}

abbrev count (journal : List Event) : Nat :=
  journal.countP Event.begins

-- The number of the beginning that was the start of a session.
def date? (i : Nat) : List Event → Option Nat
  | []                        => none
  | .started j _ _ :: journal => if j = i then some (count journal + 1) else date? i journal
  | _ :: journal              => date? i journal

theorem date?_le {n : Nat} (h : date? i journal = some n) : n ≤ count journal := by
  induction journal with
  | nil => contradiction
  | cons e journal hi =>
    rw [count, List.countP_cons]
    cases e
    case started j commands size =>
      simp only [date?] at h
      split at h
      case isTrue  => exact Nat.le_of_eq (Option.some_inj.mp h).symm
      case isFalse => exact Nat.le_add_right_of_le (hi h)
    all_goals exact Nat.le_add_right_of_le (hi h)

theorem date?_ne_succ : date? i journal ≠ some (count journal + 1) :=
  fun h => Nat.not_succ_le_self _ (date?_le h)

-- The latest beginning is the start of the session with the latest number.
theorem find?_begins_iff :
    (∃ commands size, journal.find? Event.begins = some (.started i commands size)) ↔
      date? i journal = some (count journal) := by
  induction journal with
  | nil => simp [date?]
  | cons e journal hi =>
    have hn : date? i journal ≠ some (count journal + 1) := date?_ne_succ
    cases e
    case driven j =>
      have hn : ¬(Event.driven j).begins := Bool.false_ne_true
      rw [List.find?_cons_of_neg hn, count, List.countP_cons_of_neg hn]
      exact hi
    case started j commands size =>
      rw [List.find?_cons_of_pos rfl, count, List.countP_cons_of_pos rfl]
      by_cases hj : j = i <;> simp [date?, hj, hn]
    case refused | cancelled =>
      rw [List.find?_cons_of_pos rfl, count, List.countP_cons_of_pos rfl]
      simp [date?, hn]

-- The generation is the number of beginnings, and a session is of the generation of its start.
structure Dated (s : Stage) : Prop where
  generation : s.generation = .ofNat s.beginnings
  sessions : ∀ (i : Nat) p, s.sessions[i]? = some p →
    ∃ n, date? i s.journal = some n ∧ p.generation = .ofNat n

namespace Dated

theorem fresh (config : Config) : Dated (fresh (.ofConfig config)) where
  generation := rfl
  sessions _ _ h := by simp [Stage.fresh] at h

theorem of_sessions (h : Dated s) (hg : t.generation = s.generation)
    (hs : t.sessions = s.sessions) (hj : t.journal = s.journal) : Dated t where
  generation := by rw [hg, h.generation, beginnings, beginnings, hj]
  sessions i p hp := hj ▸ h.sessions i p (hs ▸ hp)

theorem generation_succ (h : Dated s) : s.generation + 1 = .ofNat (s.beginnings + 1) := by
  rw [h.generation, UInt64.ofNat_add]
  rfl

theorem cancel (h : Dated s) (c : Clone) : Dated (s.cancel c) where
  generation := by
    rw [beginnings, Stage.cancel, List.countP_cons_of_pos rfl]
    exact h.generation_succ
  sessions := h.sessions

theorem start (h : Dated s) (c : Clone) (commands : Array Command) (width height : Nat) :
    Dated (s.start c commands width height) := by
  rcases s.start_cases c commands width height with ⟨_, p, ho, he⟩ | he
  case inr =>
    rw [he]
    exact {
      generation := by
        rw [beginnings, List.countP_cons_of_pos rfl]
        exact h.generation_succ
      sessions := h.sessions }
  case inl =>
    rw [he]
    refine ⟨?_, fun i q hq => ?_⟩
    · rw [beginnings, List.countP_cons_of_pos rfl]
      exact h.generation_succ
    · rcases sessions_append hq with hq | ⟨rfl, rfl⟩
      case inl =>
        have hi : i < s.sessions.length := (List.getElem?_eq_some_iff.mp hq).choose
        rw [date?, if_neg (Nat.ne_of_gt hi)]
        exact h.sessions i q hq
      case inr => exact ⟨_, if_pos rfl, ho.generation.trans h.generation_succ⟩

theorem put (h : Dated t) (he : s.Extends t new) (hp : s.sessions[i]? = some p)
    (running : List Nat) (seen : List UInt64) :
    Dated ({ t with running }.put i (p.after seen)) where
  generation := by
    rw [beginnings_put]
    exact h.generation
  sessions j q hq := by
    rcases sessions_put hq with ⟨rfl, rfl⟩ | ⟨_, hq⟩
    case inr => exact h.sessions j q hq
    case inl =>
      have ⟨r, hr, hc, _⟩ := he.sessions j p hp
      have ⟨n, hn, hg⟩ := h.sessions j r hr
      exact ⟨n, hn, by rw [(p.continues_after seen).generation, ← hc.generation, hg]⟩

end Dated

theorem Evolves.dated (h : Evolves s t) (hs : Dated s) : Dated t := by
  induction h with
  | refl              => exact hs
  | trans _ _ hi hi'  => exact hi' (hi hs)
  | clone | lend      => exact hs.of_sessions rfl rfl rfl
  | start _           => exact hs.start ..
  | cancel            => exact hs.cancel _
  | drive hp h _ _ hi =>
    have ⟨_, he⟩ := h.exists_extends
    exact (hi hs).put he hp ..

theorem isCurrent_iff : s.isCurrent p ↔ p.generation = s.generation := by
  simp [isCurrent, Scheduler.isCurrent]

theorem Evolves.beginnings_le (h : Evolves s t) : s.beginnings ≤ t.beginnings := by
  have ⟨new, he⟩ := h.exists_extends
  rw [beginnings, beginnings, he.journal, List.countP_append]
  exact Nat.le_add_left _ _

-- Numbers that differ are not the same generation as long as they fit.
theorem ofNat_inj {m n : Nat} (hm : m < UInt64.size) (hn : n < UInt64.size) :
    UInt64.ofNat m = .ofNat n ↔ m = n := by
  constructor
  case mpr => exact congrArg _
  case mp =>
    intro h
    have := congrArg UInt64.toNat h
    rwa [UInt64.toNat_ofNat_of_lt' hm, UInt64.toNat_ofNat_of_lt' hn] at this

theorem Dated.isCurrent_iff (h : Dated s) (few : s.beginnings < UInt64.size)
    (hp : s.sessions[i]? = some p) :
    s.isCurrent p ↔ ∃ commands size, s.beginning? = some (.started i commands size) := by
  have ⟨n, hn, hg⟩ := h.sessions i p hp
  have hl := date?_le hn
  rw [Stage.isCurrent_iff, hg, h.generation, ofNat_inj (Nat.lt_of_le_of_lt hl few) few, beginning?,
    find?_begins_iff, hn, Option.some_inj]
  rfl

-- A number that is not the latest is not the latest ever after.
theorem Dated.stale (h : Dated s) (ht : Dated t) (few : t.beginnings < UInt64.size)
    (hle : s.beginnings ≤ t.beginnings) (hp : s.sessions[i]? = some p)
    (hc : p.generation ≠ s.generation) : p.generation ≠ t.generation := by
  have ⟨n, hn, hg⟩ := h.sessions i p hp
  have hl : n ≤ s.beginnings := date?_le hn
  have hne : n ≠ s.beginnings := fun he => hc (by rw [hg, h.generation, he])
  rw [hg, ht.generation, Ne, ofNat_inj (by omega) few]
  omega

-- A session that is stale on all stages that can lie on the way stays as it is.
theorem Evolves.sessions_of_stale (h : Evolves s t) (hp : s.sessions[i]? = some p)
    (stale : ∀ v, Evolves s v → v.beginnings ≤ t.beginnings → p.generation ≠ v.generation) :
    t.sessions[i]? = some p := by
  induction h with
  | refl | clone | cancel | lend => exact hp
  | @start c s commands width height _ =>
    rcases s.start_cases c commands width height with ⟨_, q, _, he⟩ | he
    case inr => rwa [he]
    case inl =>
      rw [he, List.getElem?_append_left (List.getElem?_eq_some_iff.mp hp).choose, hp]
  | trans h h' hi hi' =>
    have hb := h'.beginnings_le
    have hp := hi hp fun v hv hl => stale v hv (Nat.le_trans hl hb)
    exact hi' hp fun v hv hl => stale v (h.trans hv) hl
  | @drive j s t q vs hq h hs ht hi =>
    rw [beginnings_put] at stale
    have hp' := hi hp stale
    by_cases hj : j = i
    case neg => rw [put, List.getElem?_set_ne hj, hp']
    case pos =>
      subst hj
      have hq : q = p := Option.some_inj.mp (hq.symm.trans hp)
      have hl : j < t.sessions.length := (List.getElem?_eq_some_iff.mp hp').choose
      have ha : p.after (vs.map generation) = p := Session.after_of_stale fun g hg => by
        obtain ⟨v, hv, he⟩ := List.mem_map.mp hg
        exact he ▸ stale v (hs v hv) (ht v hv).beginnings_le
      rw [put, List.getElem?_set_self hl, hq, ha]

section

variable {σ : Type} {k : Callbacks σ} {m : σ}

theorem Callbacks.run_of_stale (h : p.generation ≠ s.generation) :
    (p.run k.watcher).run (s, m) = ((p, .cancelled), (s, m)) := by
  rw [run_of_last] <;> simp [Session.step_of_stale h]

theorem put_self (hp : s.sessions[i]? = some p) :
    s.put i p = { s with journal := .driven i :: s.journal } := by
  have ⟨hi, he⟩ := List.getElem?_eq_some_iff.mp hp
  rw [put, ← he, List.set_getElem_self]

-- Whoever drives a session that is stale learns that it is cancelled, and nothing else happens.
theorem drive_of_stale (hr : i ∉ s.running) (hp : s.sessions[i]? = some p)
    (h : p.generation ≠ s.generation) :
    s.step i = some ({ s with journal := .driven i :: s.journal }, .cancelled) ∧
    s.finish i = some ({ s with journal := .driven i :: s.journal }, .cancelled) ∧
    s.run i k m = some ({ s with journal := .driven i :: s.journal }, .cancelled) := by
  have hi : s.idle? i = some p := (if_neg hr).trans hp
  have hs := put_self hp
  refine ⟨step_eq_some_iff.mpr ?_, finish_eq_some_iff.mpr ?_, run_eq_some_iff.mpr ?_⟩
  · rw [← hs]
    exact ⟨p, hi, by rw [Session.step_of_stale h], by rw [Session.step_of_stale h]⟩
  · rw [← hs]
    exact ⟨p, hi, by rw [Session.finish_of_stale h], by rw [Session.finish_of_stale h]⟩
  · have hl : (p.run k.watcher).run (s.lend i, m) = ((p, .cancelled), (s.lend i, m)) :=
      Callbacks.run_of_stale h
    rw [← hs]
    exact ⟨p, hi, by rw [hl]; rfl, by rw [hl]⟩

end

-- At most one session is current, namely the one that was started last if nothing has begun since;
-- and what is not current stays as it is for good. This goes for a session whose run is going on
-- too: `seen` is what its steps have been compared with since it was last put back.
theorem Reaches.exclusive {config : Config} (reached : Reaches (.fresh (.ofConfig config)) s)
    (few : s.beginnings < UInt64.size) :
    (∀ (i : Nat) p, s.sessions[i]? = some p →
      (s.isCurrent p ↔ ∃ commands size, s.beginning? = some (.started i commands size))) ∧
    (∀ (i j : Nat) p q, s.sessions[i]? = some p → s.sessions[j]? = some q →
      s.isCurrent p → s.isCurrent q → i = j) ∧
    ∀ (i : Nat) p, s.sessions[i]? = some p → ¬ s.isCurrent p →
      ∀ t, Reaches s t → t.beginnings < UInt64.size →
        t.sessions[i]? = some p ∧ ¬ t.isCurrent p ∧
        (∀ (σ : Type) (k : Callbacks σ) m, i ∉ t.running →
          t.step i = some ({ t with journal := .driven i :: t.journal }, .cancelled) ∧
          t.finish i = some ({ t with journal := .driven i :: t.journal }, .cancelled) ∧
          t.run i k m = some ({ t with journal := .driven i :: t.journal }, .cancelled)) ∧
        ∀ (σ : Type) (k : Callbacks σ) m seen,
          (p.after seen).step t.generation = (p.after seen, .cancelled) ∧
          ((p.after seen).run k.watcher).run (t, m) = ((p.after seen, .cancelled), (t, m)) := by
  have hs : Dated s := reached.evolves.dated (.fresh config)
  refine ⟨fun i p => hs.isCurrent_iff few, ?_, ?_⟩
  · intro i j p q hp hq cp cq
    have ⟨_, _, hi⟩ := (hs.isCurrent_iff few hp).mp cp
    have ⟨_, _, hj⟩ := (hs.isCurrent_iff few hq).mp cq
    rw [hi] at hj
    exact (Event.started.inj (Option.some_inj.mp hj)).left
  · intro i p hp hc t later few'
    have hc : p.generation ≠ s.generation := fun he => hc (isCurrent_iff.mpr he)
    have stale (v : Stage) (hv : Evolves s v) (hl : v.beginnings ≤ t.beginnings) :
        p.generation ≠ v.generation :=
      hs.stale (hv.dated hs) (Nat.lt_of_le_of_lt hl few') hv.beginnings_le hp hc
    have ht := stale t later.evolves (Nat.le_refl _)
    have hp' := later.evolves.sessions_of_stale hp stale
    refine ⟨hp', fun h => ht (isCurrent_iff.mp h), fun σ k m hr => drive_of_stale hr hp' ht, ?_⟩
    intro σ k m seen
    have ha : (p.after seen).generation ≠ t.generation := (p.continues_after seen).generation ▸ ht
    exact ⟨Session.step_of_stale ha, Callbacks.run_of_stale ha⟩

-- The session is over when the next start is tried, even though that comes to nothing.
def superseded : Stage :=
  halfway.start ⟨{}, {}⟩ #[] 0 0

theorem superseded_exclusive :
    Reaches (.fresh (.ofConfig {})) superseded ∧ superseded.beginnings < UInt64.size ∧
      superseded.beginning? = some .refused ∧
      ∃ p, superseded.sessions[0]? = some p ∧ ¬ superseded.isCurrent p ∧ p.executed = 1 ∧
        superseded.step 0 = some
          ({ superseded with journal := .driven 0 :: superseded.journal }, .cancelled) := by
  have reached : Reaches (.fresh (.ofConfig {})) superseded :=
    .start reaches_halfway (List.mem_singleton.mpr rfl)
  have few : superseded.beginnings < UInt64.size := by decide
  have h := (reached.exclusive few).right.right 0 _ rfl (by decide) superseded .refl few
  have ⟨hs, _⟩ := h.right.right.left Unit ⟨fun _ => pure (), fun _ => pure ()⟩ () List.not_mem_nil
  exact ⟨reached, few, rfl, _, rfl, h.right.left, rfl, hs⟩

end PenStream.Stage
