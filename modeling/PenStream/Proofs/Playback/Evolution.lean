import PenStream.Proofs.Playback.Stage

namespace PenStream.Stage

-- Stepping, running and finishing a session are all the same here: it takes some steps, each at a
-- stage on the way.
inductive Evolves : Stage → Stage → Prop
  | refl : Evolves s s
  | trans : Evolves s t → Evolves t u → Evolves s u
  | clone : c ∈ s.clones → Evolves s (s.clone c)
  | start : c ∈ s.clones → Evolves s (s.start c commands width height)
  | cancel : c ∈ s.clones → Evolves s (s.cancel c)
  | lend : Evolves s (s.lend i)
  -- A session of the stage `s` steps at the stages `vs`, while `s` becomes `t`.
  | drive {p : Session} {vs : List Stage} :
    s.sessions[i]? = some p → Evolves s t → (∀ v ∈ vs, Evolves s v) → (∀ v ∈ vs, Evolves v t) →
    Evolves s ({ t with running := s.running }.put i (p.after (vs.map generation)))

variable {s t u : Stage} {i j : Nat} {p q : Session}

theorem sessions_of_idle? (h : s.idle? i = some p) : i ∉ s.running ∧ s.sessions[i]? = some p := by
  unfold idle? at h
  split at h
  case isTrue     => contradiction
  case isFalse hr => exact ⟨hr, h⟩

-- A session that has come is an old one or the new one.
theorem sessions_append {more : Session} (h : (s.sessions ++ [more])[i]? = some p) :
    s.sessions[i]? = some p ∨ i = s.sessions.length ∧ p = more := by
  rcases Nat.lt_or_ge i s.sessions.length with hi | hi
  case inl => exact .inl (by rwa [List.getElem?_append_left hi] at h)
  case inr =>
    rw [List.getElem?_append_right hi, List.getElem?_singleton] at h
    split at h
    case isFalse => contradiction
    case isTrue  => exact .inr ⟨by omega, (Option.some_inj.mp h).symm⟩

theorem sessions_put (h : (s.put i p).sessions[j]? = some q) :
    (j = i ∧ q = p) ∨ (j ≠ i ∧ s.sessions[j]? = some q) := by
  rw [put, List.getElem?_set] at h
  split at h
  case isFalse hn => exact .inr ⟨Ne.symm hn, h⟩
  case isTrue he =>
    split at h
    case isFalse => contradiction
    case isTrue  => exact .inl ⟨he.symm, (Option.some_inj.mp h).symm⟩

theorem step_eq_some_iff {last : Step} :
    s.step i = some (u, last) ↔
      ∃ p, s.idle? i = some p ∧ s.put i (p.step s.generation).1 = u ∧
        (p.step s.generation).2 = last := by
  simp [step, Option.bind_eq_some_iff]

theorem finish_eq_some_iff {last : Step} :
    s.finish i = some (u, last) ↔
      ∃ p, s.idle? i = some p ∧ s.put i (p.finish s.generation).1 = u ∧
        (p.finish s.generation).2 = last := by
  simp [finish, Option.bind_eq_some_iff]

theorem run_eq_some_iff {σ : Type} {k : Callbacks σ} {m : σ} {last : Step} :
    s.run i k m = some (u, last) ↔
      ∃ p, s.idle? i = some p ∧
        { ((p.run k.watcher).run (s.lend i, m)).2.1 with running := s.running }.put i
          ((p.run k.watcher).run (s.lend i, m)).1.1 = u ∧
        ((p.run k.watcher).run (s.lend i, m)).1.2 = last := by
  unfold run
  cases s.idle? i with
  | none   => simp
  | some p =>
    simp only [Option.some.injEq, exists_eq_left']
    exact Option.some_inj.trans (Prod.mk.injEq .. ▸ Iff.rfl)

namespace Callbacks

variable {σ : Type} {k : Callbacks σ} {m : σ}

-- The stage and the memory after the callbacks that follow a command.
def paused (k : Callbacks σ) (progress delay : Nat) (v : Stage × σ) : Stage × σ :=
  let v := ((k.progress progress).run v).2
  if delay ≠ 0 then ((k.sleep delay).run v).2 else v

theorem run_current (k : Callbacks σ) (v : Stage × σ) :
    k.watcher.current.run v = pure (v.1.generation, v) :=
  rfl

theorem run_of_drawn {next : Session} {progress delay : Nat}
    (h : p.step s.generation = (next, .drawn progress delay)) :
    (p.run k.watcher).run (s, m) =
      (next.run k.watcher).run (k.paused progress delay (s, m)) := by
  rw [Session.run_eq, StateT.run_bind, run_current]
  simp only [pure_bind, h]
  by_cases hd : delay ≠ 0
  case pos =>
    simp only [paused, if_pos hd]
    rfl
  case neg =>
    simp only [paused, if_neg hd]
    rfl

theorem run_of_last (h : ∀ progress delay, (p.step s.generation).2 ≠ .drawn progress delay) :
    (p.run k.watcher).run (s, m) = (p.step s.generation, (s, m)) := by
  rw [Session.run_eq, StateT.run_bind, run_current]
  simp only [pure_bind]
  split
  case h_1 he => exact absurd (congrArg Prod.snd he) (h _ _)
  case h_2    => rfl

section

variable (progress : ∀ n v m, Evolves v ((k.progress n).run (v, m)).2.1)
variable (sleep : ∀ n v m, Evolves v ((k.sleep n).run (v, m)).2.1)

include progress sleep

theorem paused_evolves (n delay : Nat) (v : Stage × σ) : Evolves v.1 (k.paused n delay v).1 := by
  unfold paused
  dsimp only
  split
  case isTrue  => exact .trans (progress n v.1 v.2) (sleep delay _ _)
  case isFalse => exact progress n v.1 v.2

-- A run is a number of steps, each at a stage on the way.
theorem run_evolves (p : Session) (v : Stage × σ) :
    ∃ vs : List Stage,
      ((p.run k.watcher).run v).1.1 = p.after (vs.map generation) ∧
        Evolves v.1 ((p.run k.watcher).run v).2.1 ∧ (∀ w ∈ vs, Evolves v.1 w) ∧
          ∀ w ∈ vs, Evolves w ((p.run k.watcher).run v).2.1 := by
  by_cases hd : ∃ next percent delay, p.step v.1.generation = (next, .drawn percent delay)
  case neg =>
    have hl : ∀ percent delay, (p.step v.1.generation).2 ≠ .drawn percent delay :=
      fun percent delay he => hd ⟨(p.step v.1.generation).1, percent, delay, Prod.ext rfl he⟩
    refine ⟨[v.1], ?_⟩
    rw [run_of_last hl]
    simp [Evolves.refl]
  case pos =>
    have ⟨next, percent, delay, hd⟩ := hd
    have : next.remaining < p.remaining := by
      have := Session.remaining_of_drawn hd
      omega
    have hv : Evolves v.1 (k.paused percent delay v).1 := paused_evolves progress sleep ..
    have ⟨vs, hp, he, hs, ht⟩ := run_evolves next (k.paused percent delay v)
    refine ⟨v.1 :: vs, ?_⟩
    rw [run_of_drawn hd]
    refine ⟨?_, hv.trans he, ?_, ?_⟩
    · rw [hp, List.map_cons, Session.after_cons, hd]
    · exact List.forall_mem_cons.mpr ⟨.refl, fun w hw => hv.trans (hs w hw)⟩
    · exact List.forall_mem_cons.mpr ⟨hv.trans he, ht⟩
termination_by p.remaining

end

end Callbacks

-- What happens to a session at rest happens to it in the stage.
theorem Evolves.drive_here (vs : List Stage) (h : s.sessions[i]? = some p) (hv : ∀ v ∈ vs, v = s) :
    Evolves s (s.put i (p.after (vs.map generation))) :=
  .drive h .refl (fun v hm => hv v hm ▸ .refl) (fun v hm => hv v hm ▸ .refl)

theorem Reaches.evolves (h : Reaches s t) : Evolves s t := by
  induction h with
  | refl             => exact .refl
  | clone _ hc hi    => exact hi.trans (.clone hc)
  | start _ hc hi    => exact hi.trans (.start hc)
  | cancel _ hc hi   => exact hi.trans (.cancel hc)
  | lend _ _ hi      => exact hi.trans .lend
  | @step s t i u last _ h hi =>
    have ⟨p, hp, he, _⟩ := step_eq_some_iff.mp h
    have hd := Evolves.drive_here [t] (sessions_of_idle? hp).right (by simp)
    exact hi.trans (he ▸ hd)
  | @finish s t i u last _ h hi =>
    have ⟨p, hp, he, _⟩ := finish_eq_some_iff.mp h
    have ⟨n, hn⟩ := p.finish_eq_after t.generation
    have hd := Evolves.drive_here (.replicate n t) (sessions_of_idle? hp).right
      (fun _ => List.eq_of_mem_replicate)
    rw [List.map_replicate, ← hn, he] at hd
    exact hi.trans hd
  | @run σ s t i m u last k _ _ _ h hi progress sleep =>
    have ⟨p, hp, he, _⟩ := run_eq_some_iff.mp h
    have ⟨vs, ha, ht, hs, hv⟩ := Callbacks.run_evolves progress sleep p (t.lend i, m)
    have hl : Evolves t (t.lend i) := .lend
    have hd := Evolves.drive (sessions_of_idle? hp).right (hl.trans ht)
      (fun v hm => hl.trans (hs v hm)) hv
    rw [← ha, he] at hd
    exact hi.trans hd

-- What has been done is added to the journal, and sessions that nothing has been done with stay as
-- they are.
structure Extends (s t : Stage) (new : List Event) : Prop where
  journal : t.journal = new ++ s.journal
  sessions : ∀ i p, s.sessions[i]? = some p →
    ∃ q, t.sessions[i]? = some q ∧ p.Continues q ∧ (Event.driven i ∉ new → q = p)

namespace Extends

variable {new new' : List Event}

-- The sessions may be in other hands, and new ones may have come.
theorem of_sessions {more : List Session} (hj : t.journal = new ++ s.journal)
    (hs : t.sessions = s.sessions ++ more) : s.Extends t new where
  journal := hj
  sessions i p h := by
    refine ⟨p, ?_, .refl p, fun _ => rfl⟩
    rw [hs, List.getElem?_append_left (List.getElem?_eq_some_iff.mp h).choose, h]

theorem trans (h : s.Extends t new) (h' : t.Extends u new') : s.Extends u (new' ++ new) where
  journal := by rw [h'.journal, h.journal, List.append_assoc]
  sessions i p hp := by
    have ⟨q, hq, hc, he⟩ := h.sessions i p hp
    have ⟨r, hr, hc', he'⟩ := h'.sessions i q hq
    refine ⟨r, hr, hc.trans hc', fun hn => ?_⟩
    rw [List.mem_append, not_or] at hn
    rw [he' hn.left, he hn.right]

theorem lt_length (h : s.Extends t new) (hp : s.sessions[i]? = some p) :
    i < t.sessions.length :=
  have ⟨_, hq, _⟩ := h.sessions i p hp
  (List.getElem?_eq_some_iff.mp hq).choose

-- A session put back has continued what it was when it was taken.
theorem put {running : List Nat} {seen : List UInt64} (h : s.Extends t new)
    (hp : s.sessions[i]? = some p) :
    s.Extends ({ t with running }.put i (p.after seen)) (.driven i :: new) where
  journal := by rw [Stage.put, h.journal, List.cons_append]
  sessions j q hq := by
    have ⟨r, hr, hc, he⟩ := h.sessions j q hq
    by_cases hi : i = j
    case pos =>
      subst hi
      rw [hp] at hq
      refine ⟨p.after seen, List.getElem?_set_self (h.lt_length hp), ?_, fun hn => ?_⟩
      · exact Option.some_inj.mp hq ▸ p.continues_after seen
      · exact absurd List.mem_cons_self hn
    case neg =>
      refine ⟨r, by rw [Stage.put, List.getElem?_set_ne hi, hr], hc, fun hn => he ?_⟩
      exact fun hm => hn (List.mem_cons_of_mem _ hm)

end Extends

theorem Evolves.exists_extends (h : Evolves s t) : ∃ new, s.Extends t new := by
  induction h with
  | refl | clone | lend => exact ⟨[], .of_sessions rfl (List.append_nil _).symm⟩
  | cancel              => exact ⟨[.cancelled], .of_sessions rfl (List.append_nil _).symm⟩
  | @start c s commands width height =>
    rcases s.start_cases c commands width height with ⟨_, p, _, he⟩ | he
    · exact ⟨[_], .of_sessions (by rw [he]; rfl) (by rw [he])⟩
    · exact ⟨[_], .of_sessions (by rw [he]; rfl) (by rw [he]; exact (List.append_nil _).symm)⟩
  | trans _ _ hi hi' =>
    have ⟨_, hi⟩ := hi
    have ⟨_, hi'⟩ := hi'
    exact ⟨_, hi.trans hi'⟩
  | drive hp _ _ _ hi =>
    have ⟨_, hi⟩ := hi
    exact ⟨_, hi.put hp⟩

end PenStream.Stage
