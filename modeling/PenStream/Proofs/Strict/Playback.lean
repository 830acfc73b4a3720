import PenStream.Proofs.Playback.Session
import PenStream.Proofs.Range
import PenStream.Proofs.Strict.Execute
import PenStream.Strict.Playback

namespace PenStream.Strict

variable {p : Session} {current : UInt64}

theorem progress_eq (p : Session) : progress p = pure p.progress := by
  unfold progress Session.progress
  split
  case isTrue    => rfl
  case isFalse h =>
    rw [require_bind (by simpa using h)]

theorem advance_eq (hc : ∀ c ∈ p.commands, c.InRange) (h : p.executed < p.commands.size) :
    advance p h = pure (p.advance h) := by
  rw [advance, execute_eq _ _ (hc _ (Array.getElem_mem h)), pure_bind]
  rfl

theorem step_eq (hc : ∀ c ∈ p.commands, c.InRange) : step p current = pure (p.step current) := by
  unfold step Session.step
  split
  case isTrue  => rfl
  case isFalse =>
    split
    case isTrue h => rw [advance_eq hc h, pure_bind, progress_eq, pure_bind]
    case isFalse  => rfl

-- With every step less is left, so that there are steps enough.
theorem finishWithin_eq {n : Nat} (hc : ∀ c ∈ p.commands, c.InRange) (hn : p.remaining < n) :
    finishWithin current n p = pure (p.finish current) := by
  induction n generalizing p with
  | zero      => exact absurd hn (Nat.not_lt_zero _)
  | succ n hi =>
    rw [finishWithin, step_eq hc, pure_bind]
    by_cases hg : p.generation = current
    case neg => rw [Session.step_of_stale hg, Session.finish_of_stale hg]
    case pos =>
      by_cases h : p.executed < p.commands.size
      case neg =>
        have h := Nat.not_lt.mp h
        rw [Session.step_of_le hg h, Session.finish_of_le hg h]
      case pos =>
        rw [Session.step_of_lt hg h, Session.finish_of_lt hg h]
        refine hi (p := p.advance h) hc ?_
        simp only [Session.remaining, Session.advance] at *
        omega

theorem finish_eq (hc : ∀ c ∈ p.commands, c.InRange) : finish p current = pure (p.finish current) :=
  finishWithin_eq hc (Nat.lt_succ_self _)

-- Whatever the text and the size, and however often a step is tried before.
theorem plays_decoded (text : String) (scheduler : Scheduler) (s : Size) :
    let commands := (decode text).commands
    let started := scheduler.start commands s.width s.height
    (∀ c ∈ commands, c.InRange) ∧
      ∃ p, started.2 = .ok p ∧ p.commands = commands ∧
        (∀ seen, (p.after seen).size = s ∧
          (p.after seen).canvas.bytes.length = s.width * s.height * 4 ∧
          ∀ current, step (p.after seen) current = pure ((p.after seen).step current)) ∧
        finish p started.1.generation = pure (p.completed, .finished 100) ∧
        p.completed.executed = commands.size ∧ p.completed.size = s ∧
        p.completed.canvas.bytes.length = s.width * s.height * 4 := by
  intro commands started
  have hc : ∀ c ∈ commands, c.InRange := fun c => inRange_of_mem_decode
  have ⟨p, hs, ho⟩ := scheduler.start_of_ok commands s.ofDimensions_eq
  have hcp : ∀ c ∈ p.commands, c.InRange := ho.commands ▸ hc
  have bytes (q : Session) (hq : q.size = s) :
      q.canvas.bytes.length = s.width * s.height * 4 := by
    rw [Canvas.length_bytes, hq]
  refine ⟨hc, p, congrArg Prod.snd hs, ho.commands, fun seen => ?_, ?_, ?_, ho.size,
    bytes p.completed ho.size⟩
  · have hk := p.continues_after seen
    have hz := hk.size.trans ho.size
    exact ⟨hz, bytes _ hz, fun current => step_eq (hk.commands ▸ hcp)⟩
  · have hg : p.generation = started.1.generation := by
      rw [ho.generation, show started = _ from hs]
      rfl
    rw [finish_eq hcp, Session.finish_of_current hg]
  · rw [← ho.commands]
    rfl

end PenStream.Strict
