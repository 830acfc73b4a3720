import PenStream.Playback.Stage
import PenStream.Proofs.Playback.Session

namespace PenStream.Stage

-- Whether or not the size is refused, a generation begins.
theorem start_cases (s : Stage) (c : Clone) (commands : Array Command) (width height : Nat) :
    (∃ size p, Session.Opened (c.scheduler s.generation) commands size p ∧
      s.start c commands width height =
        { s with
          generation := s.generation + 1
          sessions := s.sessions ++ [p]
          journal := .started s.sessions.length p.commands p.size :: s.journal }) ∨
    s.start c commands width height =
      { s with generation := s.generation + 1, journal := .refused :: s.journal } := by
  unfold start
  cases h : Size.ofDimensions width height with
  | ok size =>
    have ⟨p, he, ho⟩ := (c.scheduler s.generation).start_of_ok commands h
    rw [he]
    exact .inl ⟨size, p, ho, rfl⟩
  | error e =>
    rw [Scheduler.start_of_error _ _ h]
    exact .inr rfl

theorem beginnings_put (s : Stage) (i : Nat) (p : Session) :
    (s.put i p).beginnings = s.beginnings :=
  List.countP_cons_of_neg Bool.false_ne_true

-- A session of two pixels has just been started.
def opening : Stage :=
  (fresh (.ofConfig {})).start ⟨{}, {}⟩ #[.pixel ⟨0, 0⟩ 15, .pixel ⟨1, 0⟩ 15] 2 1

-- It has drawn the first of them.
def halfway : Stage :=
  ((opening.step 0).map Prod.fst).getD opening

theorem reaches_halfway : Reaches (fresh (.ofConfig {})) halfway :=
  .step (.start .refl (List.mem_singleton.mpr rfl))
    (show opening.step 0 = some (halfway, .drawn 50 1) from rfl)

end PenStream.Stage
