import PenStream.Playback.Scheduler

namespace PenStream

namespace Session

variable {p q r : Session} {current : UInt64}

theorem step_of_stale (h : p.generation ≠ current) : p.step current = (p, .cancelled) :=
  if_pos h

theorem step_of_lt (hg : p.generation = current) (h : p.executed < p.commands.size) :
    p.step current =
      (p.advance h, .drawn (p.advance h).progress (p.pacing.delay p.commands[p.executed])) := by
  rw [step, if_neg (not_not_intro hg), dif_pos h]

theorem step_of_le (hg : p.generation = current) (h : p.commands.size ≤ p.executed) :
    p.step current = (p, .finished 100) := by
  rw [step, if_neg (not_not_intro hg), dif_neg (Nat.not_lt.mpr h)]

-- Either a step changes nothing, or it executes the next command of a current session.
theorem step_cases (p : Session) (current : UInt64) :
    (p.step current).1 = p ∨
      ∃ h : p.executed < p.commands.size, p.generation = current ∧
        (p.step current).1 = p.advance h := by
  by_cases hg : p.generation = current
  case neg => exact .inl (by rw [step_of_stale hg])
  case pos =>
    by_cases h : p.executed < p.commands.size
    case pos => exact .inr ⟨h, hg, by rw [step_of_lt hg h]⟩
    case neg => exact .inl (by rw [step_of_le hg (Nat.not_lt.mp h)])

theorem run_eq {m : Type → Type} [Monad m] (watcher : Watcher m) (p : Session) :
    p.run watcher = (do
      let current ← watcher.current
      match p.step current with
      | (next, .drawn progress delay) =>
        watcher.progress progress
        if delay ≠ 0 then
          watcher.sleep delay
        next.run watcher
      | last => return last) := by
  rw [run]
  congr 1
  funext current
  split
  case h_1 h => rw [h]
  case h_2 hn =>
    split
    case h_1 h => exact absurd h (hn _ _ _)
    case h_2   => rfl

theorem finish_of_stale (h : p.generation ≠ current) : p.finish current = (p, .cancelled) := by
  rw [finish, run_eq]
  simp only [Watcher.silent, pure_bind, step_of_stale h]
  rfl

theorem finish_of_lt (hg : p.generation = current) (h : p.executed < p.commands.size) :
    p.finish current = (p.advance h).finish current := by
  rw [finish, run_eq]
  simp only [Watcher.silent, pure_bind, step_of_lt hg h, ite_self]
  rfl

theorem finish_of_le (hg : p.generation = current) (h : p.commands.size ≤ p.executed) :
    p.finish current = (p, .finished 100) := by
  rw [finish, run_eq]
  simp only [Watcher.silent, pure_bind, step_of_le hg h]
  rfl

def completed (p : Session) : Session :=
  { p with
    executed := p.commands.size
    canvas := p.canvas.executeAll p.rule (p.commands.toList.drop p.executed)
    executed_le := Nat.le_refl _ }

theorem completed_advance (h : p.executed < p.commands.size) :
    (p.advance h).completed = p.completed := by
  have hd : p.commands.toList.drop p.executed =
      p.commands[p.executed] :: p.commands.toList.drop (p.executed + 1) := by
    rw [List.drop_eq_getElem_cons (by simpa using h), Array.getElem_toList]
  simp only [completed, advance, hd, Canvas.executeAll, List.foldl_cons]

theorem completed_of_le (h : p.commands.size ≤ p.executed) : p.completed = p := by
  have he : p.executed = p.commands.size := Nat.le_antisymm p.executed_le h
  have hd : p.commands.toList.drop p.executed = [] := List.drop_of_length_le (by simpa using h)
  simp only [completed, hd, Canvas.executeAll, List.foldl_nil, ← he]

theorem finish_of_current (hg : p.generation = current) :
    p.finish current = (p.completed, .finished 100) := by
  induction hr : p.remaining generalizing p with
  | zero =>
    have h := Nat.le_of_sub_eq_zero hr
    rw [finish_of_le hg h, completed_of_le h]
  | succ n hi =>
    simp only [remaining] at hr hi
    have h : p.executed < p.commands.size := by omega
    rw [finish_of_lt hg h, hi (p := p.advance h) hg (by simp only [advance]; omega),
      completed_advance]

-- The session after a step for each time at which its generation was compared with the current one.
def after (p : Session) (seen : List UInt64) : Session :=
  seen.foldl (fun p current => (p.step current).1) p

@[simp]
theorem after_nil (p : Session) : p.after [] = p :=
  rfl

@[simp]
theorem after_cons (p : Session) (seen : List UInt64) :
    p.after (current :: seen) = (p.step current).1.after seen :=
  rfl

-- What every step keeps, any number of them keeps.
theorem after_preserves {motive : Session → Prop}
    (advance : ∀ (p : Session) (h : p.executed < p.commands.size), motive p → motive (p.advance h))
    (hp : motive p) (seen : List UInt64) : motive (p.after seen) := by
  induction seen generalizing p with
  | nil => exact hp
  | cons current seen hi =>
    rw [after_cons]
    apply hi
    rcases step_cases p current with he | ⟨h, _, he⟩
    · rwa [he]
    · rw [he]
      exact advance p h hp

-- What a session is started with stays, and it never goes back.
structure Continues (p q : Session) : Prop where
  generation : q.generation = p.generation
  commands : q.commands = p.commands
  size : q.size = p.size
  rule : q.rule = p.rule
  executed : p.executed ≤ q.executed

theorem Continues.refl (p : Session) : p.Continues p :=
  ⟨rfl, rfl, rfl, rfl, Nat.le_refl _⟩

theorem Continues.trans (h : p.Continues q) (h' : q.Continues r) : p.Continues r where
  generation := h'.generation.trans h.generation
  commands := h'.commands.trans h.commands
  size := h'.size.trans h.size
  rule := h'.rule.trans h.rule
  executed := Nat.le_trans h.executed h'.executed

theorem continues_after (p : Session) (seen : List UInt64) : p.Continues (p.after seen) :=
  after_preserves (motive := Continues p)
    (fun _ _ h => { h with executed := Nat.le_trans h.executed (Nat.le_succ _) })
    (.refl p) seen

-- A session whose generation is over stays as it is.
theorem after_of_stale {seen : List UInt64} (h : ∀ current ∈ seen, p.generation ≠ current) :
    p.after seen = p := by
  induction seen with
  | nil => rfl
  | cons current seen hi =>
    rw [after_cons, step_of_stale (h current List.mem_cons_self)]
    exact hi fun current hc => h current (List.mem_cons_of_mem _ hc)

theorem executed_after_replicate (p : Session) (n : Nat) :
    (p.after (.replicate n p.generation)).executed = min (p.executed + n) p.commands.size := by
  induction n generalizing p with
  | zero      => exact (Nat.min_eq_left p.executed_le).symm
  | succ n hi =>
    rw [List.replicate_succ, after_cons]
    by_cases h : p.executed < p.commands.size
    case pos =>
      rw [step_of_lt rfl h]
      exact (hi (p.advance h)).trans (by simp only [advance]; omega)
    case neg =>
      rw [step_of_le rfl (Nat.not_lt.mp h), hi p]
      have := p.executed_le
      omega

theorem finish_eq_after (p : Session) (current : UInt64) :
    ∃ n, (p.finish current).1 = p.after (.replicate n current) := by
  induction hr : p.remaining generalizing p with
  | zero =>
    refine ⟨0, ?_⟩
    by_cases hg : p.generation = current
    case neg => rw [finish_of_stale hg, List.replicate_zero, after_nil]
    case pos =>
      rw [finish_of_le hg (Nat.le_of_sub_eq_zero hr), List.replicate_zero, after_nil]
  | succ n hi =>
    by_cases hg : p.generation = current
    case neg => exact ⟨0, by rw [finish_of_stale hg, List.replicate_zero, after_nil]⟩
    case pos =>
      simp only [remaining] at hr hi
      have h : p.executed < p.commands.size := by omega
      obtain ⟨n, he⟩ := hi (p.advance h) (by simp only [advance]; omega)
      refine ⟨n + 1, ?_⟩
      rw [finish_of_lt hg h, List.replicate_succ, after_cons, step_of_lt hg h, he]

-- The canvas of a session is the background on which its first commands have been executed.
def Faithful (p : Session) : Prop :=
  p.canvas = (Canvas.uniform p.size Palette.background).executeAll p.rule
    (p.commands.toList.take p.executed)

theorem Faithful.advance (hf : p.Faithful) (h : p.executed < p.commands.size) :
    (p.advance h).Faithful := by
  have ht : p.commands.toList.take (p.executed + 1) =
      p.commands.toList.take p.executed ++ [p.commands[p.executed]] := by
    rw [List.take_add_one]
    simp [h]
  unfold Faithful at *
  simp only [Session.advance, ht, Canvas.executeAll, List.foldl_append, List.foldl_cons,
    List.foldl_nil]
  rw [hf]
  rfl

theorem Faithful.after (hf : p.Faithful) (seen : List UInt64) : (p.after seen).Faithful :=
  after_preserves (fun _ h hf => hf.advance h) hf seen

-- As it has just been started.
structure Opened (s : Scheduler) (commands : Array Command) (size : Size) (p : Session) : Prop where
  generation : p.generation = s.generation + 1
  commands : p.commands = commands
  size : p.size = size
  rule : p.rule = s.rule
  faithful : p.Faithful

end Session

theorem Size.ofDimensions_eq (s : Size) : ofDimensions s.width s.height = .ok s :=
  dif_pos ⟨s.width_pos, s.height_pos, s.width_lt, s.height_lt⟩

namespace Scheduler

variable (s : Scheduler) (commands : Array Command) {width height : Nat}

-- No command is executed yet, and under another rule the session would be the same but for that.
theorem exists_start {size : Size} (h : Size.ofDimensions width height = .ok size) :
    ∃ p, s.start commands width height = (s.cancel, .ok p) ∧ p.Opened s commands size ∧
      p.executed = 0 ∧ ∀ rule, { s with rule }.start commands width height =
        ({ s with rule }.cancel, .ok { p with rule }) := by
  simp only [start, h]
  exact ⟨_, rfl, ⟨rfl, rfl, rfl, rfl, rfl⟩, rfl, fun _ => rfl⟩

theorem start_of_ok {size : Size} (h : Size.ofDimensions width height = .ok size) :
    ∃ p, s.start commands width height = (s.cancel, .ok p) ∧ p.Opened s commands size :=
  have ⟨p, hs, ho, _⟩ := s.exists_start commands h
  ⟨p, hs, ho⟩

theorem start_of_error {e : SetupError} (h : Size.ofDimensions width height = .error e) :
    s.start commands width height = (s.cancel, .error e) := by
  simp only [start, h]
  rfl

theorem play_of_size (z : Size) :
    ∃ p, s.play commands z.width z.height = .ok (p, .finished 100) ∧ p.size = z ∧
      p.canvas =
        (Canvas.uniform p.size Palette.background).executeAll s.rule commands.toList := by
  have ⟨p, hs, ho⟩ := s.start_of_ok commands z.ofDimensions_eq
  have hg : p.generation = s.cancel.generation := ho.generation
  have hf := Session.finish_of_current hg
  refine ⟨p.completed, ?_, ho.size, ?_⟩
  · rw [play, hs, ← hf]
    rfl
  · -- All of the commands are the first as many as there are.
    have ⟨n, he⟩ := p.finish_eq_after s.cancel.generation
    have hc := ho.faithful.after (.replicate n s.cancel.generation)
    rw [← he, hf] at hc
    have ht : p.completed.commands.toList.take p.completed.executed = commands.toList := by
      rw [← ho.commands]
      exact List.take_of_length_le (Nat.le_of_eq Array.length_toList)
    rw [hc, ht, show p.completed.rule = s.rule from ho.rule]

end Scheduler

end PenStream
