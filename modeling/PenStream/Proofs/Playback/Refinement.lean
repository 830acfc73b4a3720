import PenStream.Canvas.Bytes
import PenStream.Proofs.Playback.Evolution

namespace PenStream

namespace Session

variable {rule : FloodFill} {journal : List Event} {i : Nat} {p q : Session}

-- Started as the journal has it, and true to its commands.
structure Genuine (rule : FloodFill) (journal : List Event) (i : Nat) (p : Session) : Prop where
  rule : p.rule = rule
  started : .started i p.commands p.size ∈ journal
  faithful : p.Faithful

theorem Genuine.mono (h : p.Genuine rule journal i) (new : List Event) :
    p.Genuine rule (new ++ journal) i :=
  { h with started := List.mem_append_right _ h.started }

theorem Genuine.after (h : p.Genuine rule journal i) (seen : List UInt64) :
    (p.after seen).Genuine rule journal i where
  rule := by rw [(p.continues_after seen).rule, h.rule]
  started := by
    rw [(p.continues_after seen).commands, (p.continues_after seen).size]
    exact h.started
  faithful := h.faithful.after seen

theorem Genuine.canvas_eq (h : p.Genuine rule journal i) :
    p.canvas = (Canvas.uniform p.size Palette.background).executeAll rule
      (p.commands.toList.take p.executed) := by
  have hf := h.faithful
  rwa [Faithful, h.rule] at hf

-- Two sessions with the same commands that have come equally far have drawn the same.
theorem Faithful.bytes_eq (hp : p.Faithful) (hq : q.Faithful) (hc : p.commands = q.commands)
    (hs : p.size = q.size) (hr : p.rule = q.rule) (he : p.executed = q.executed) :
    p.canvas.bytes = q.canvas.bytes := by
  rw [hp, hq, hc, hs, hr, he]

end Session

namespace Stage

variable {rule : FloodFill} {s t : Stage}

structure Kept (rule : FloodFill) (s : Stage) : Prop where
  clones : ∀ c ∈ s.clones, c.rule = rule
  sessions : ∀ (i : Nat) p, s.sessions[i]? = some p → p.Genuine rule s.journal i

namespace Kept

theorem fresh (scheduler : Scheduler) : Kept scheduler.rule (fresh scheduler) where
  clones c hc := by rw [List.mem_singleton.mp hc]
  sessions _ _ h := by simp [Stage.fresh] at h

-- Nothing happens to the sessions.
theorem of_sessions (h : Kept rule s) (new : List Event) (hc : ∀ c ∈ t.clones, c ∈ s.clones)
    (hs : t.sessions = s.sessions) (hj : t.journal = new ++ s.journal) : Kept rule t where
  clones c hm := h.clones c (hc c hm)
  sessions i p hp := by
    rw [hj]
    exact (h.sessions i p (hs ▸ hp)).mono new

theorem start (h : Kept rule s) {c : Clone} (hc : c ∈ s.clones) (commands : Array Command)
    (width height : Nat) : Kept rule (s.start c commands width height) := by
  rcases s.start_cases c commands width height with ⟨_, p, ho, he⟩ | he
  case inr => exact h.of_sessions [.refused] (by simp [he]) (by simp [he]) (by simp [he])
  case inl =>
    rw [he]
    refine ⟨h.clones, fun i q hq => ?_⟩
    rcases sessions_append hq with hq | ⟨rfl, rfl⟩
    case inl => exact (h.sessions i q hq).mono [_]
    case inr => exact ⟨ho.rule.trans (h.clones c hc), List.mem_cons_self, ho.faithful⟩

theorem put (h : Kept rule s) (ht : Kept rule t) {new : List Event} (he : s.Extends t new)
    {i : Nat} {p : Session} (hp : s.sessions[i]? = some p) (running : List Nat)
    (seen : List UInt64) : Kept rule ({ t with running }.put i (p.after seen)) where
  clones := ht.clones
  sessions j q hq := by
    rcases sessions_put hq with ⟨rfl, rfl⟩ | ⟨_, hq⟩
    case inr => exact (ht.sessions j q hq).mono [_]
    case inl =>
      have hg := ((h.sessions j p hp).mono new).after seen
      rw [← he.journal] at hg
      exact hg.mono [_]

end Kept

theorem Evolves.kept (h : Evolves s t) (hs : Kept rule s) : Kept rule t := by
  induction h with
  | refl              => exact hs
  | trans _ _ hi hi'  => exact hi' (hi hs)
  | clone hc          =>
    refine hs.of_sessions [] (fun d hd => ?_) rfl rfl
    rcases List.mem_cons.mp hd with rfl | hd <;> assumption
  | start hc          => exact hs.start hc ..
  | cancel            => exact hs.of_sessions [.cancelled] (fun _ => id) rfl rfl
  | lend              => exact hs.of_sessions [] (fun _ => id) rfl rfl
  | drive hp h _ _ hi =>
    have ⟨_, he⟩ := h.exists_extends
    exact hs.put (hi hs) he hp ..

-- However far a session has got, in a run that is going on too: `seen` is what its steps have been
-- compared with since it was last put back. And two sessions that have come equally far with the
-- same commands look the same, whatever the pacing of their schedulers.
theorem Reaches.faithful {config : Config} (reached : Reaches (.fresh (.ofConfig config)) s) :
    (∀ (i : Nat) p, s.sessions[i]? = some p → ∀ seen,
      (p.after seen).executed ≤ (p.after seen).commands.size ∧
      (p.after seen).canvas =
        (Canvas.uniform (p.after seen).size Palette.background).executeAll config.floodFill
          ((p.after seen).commands.toList.take (p.after seen).executed) ∧
      .started i (p.after seen).commands (p.after seen).size ∈ s.journal) ∧
    (∀ t, Reaches s t → ∃ new, t.journal = new ++ s.journal ∧
      ∀ (i : Nat) p, s.sessions[i]? = some p → ∃ q, t.sessions[i]? = some q ∧
        q.commands = p.commands ∧ q.size = p.size ∧ p.executed ≤ q.executed ∧
        (.driven i ∉ new → q = p)) ∧
    ∀ (config' : Config) t, Reaches (.fresh (.ofConfig config')) t →
      config'.floodFill = config.floodFill →
      ∀ (i j : Nat) p q, s.sessions[i]? = some p → t.sessions[j]? = some q →
        p.commands = q.commands → p.size = q.size → p.executed = q.executed →
        p.canvas.bytes = q.canvas.bytes := by
  have hs := reached.evolves.kept (.fresh _)
  refine ⟨fun i p hp seen => ?_, fun t later => ?_, ?_⟩
  · have hg := (hs.sessions i p hp).after seen
    exact ⟨(p.after seen).executed_le, hg.canvas_eq, hg.started⟩
  · have ⟨new, he⟩ := later.evolves.exists_extends
    refine ⟨new, he.journal, fun i p hp => ?_⟩
    have ⟨q, hq, hc, hd⟩ := he.sessions i p hp
    exact ⟨q, hq, hc.commands, hc.size, hc.executed, hd⟩
  · intro config' t reached' hr i j p q hp hq hc hz he
    have ht := reached'.evolves.kept (.fresh _)
    have hp := hs.sessions i p hp
    have hq := ht.sessions j q hq
    exact hp.faithful.bytes_eq hq.faithful hc hz (hp.rule.trans (hr.symm.trans hq.rule.symm)) he

theorem halfway_faithful :
    Reaches (.fresh (.ofConfig {})) halfway ∧ ∃ p, halfway.sessions[0]? = some p ∧
      p.executed = 1 ∧ p.canvas.bytes = [255, 255, 255, 255, 0, 0, 0, 255] ∧
      p.canvas =
        (Canvas.uniform p.size Palette.background).executeAll {} (p.commands.toList.take 1) :=
  ⟨reaches_halfway, _, rfl, rfl, rfl, (reaches_halfway.faithful.left 0 _ rfl []).right.left⟩

end Stage

end PenStream
