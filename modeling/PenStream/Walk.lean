namespace PenStream.Walk

variable {σ : Type u} {α : Type v} {β : Type w} {τ : Type t}

def takeInto (next : σ → σ) (view : σ → α) : Nat → σ → List α → List α
  | 0,     _, seen => seen.reverse
  | n + 1, s, seen => takeInto next view n (next s) (view s :: seen)

-- The views from a state and its successors, `n` in all.
def take (next : σ → σ) (view : σ → α) (n : Nat) (s : σ) : List α :=
  takeInto next view n s []

def untilInto (next : σ → σ) (last : σ → Bool) : Nat → σ → List σ → List σ
  | 0,     s, seen => (s :: seen).reverse
  | n + 1, s, seen =>
    if last s then (s :: seen).reverse else untilInto next last n (next s) (s :: seen)

-- A state and its successors up to the first that is the last, but no more than `n` successors.
def takeUntil (next : σ → σ) (last : σ → Bool) (n : Nat) (s : σ) : List σ :=
  untilInto next last n s []

-- Folds over a state and its successors, `n` in all, without a list of them.
@[specialize]
def fold (next : σ → σ) (f : β → σ → β) : Nat → β → σ → β
  | 0,     b, _ => b
  | n + 1, b, s => fold next f n (f b s) (next s)

-- Folds over the states of `takeUntil`, without a list of them; also gives the last of them.
@[specialize]
def foldUntil (next : σ → σ) (last : σ → Bool) (f : β → σ → β) : Nat → β → σ → β × σ
  | 0,     b, s => (f b s, s)
  | n + 1, b, s => if last s then (f b s, s) else foldUntil next last f n (f b s) (next s)

theorem takeInto_eq (next : σ → σ) (view : σ → α) (n : Nat) (s : σ) (seen : List α) :
    takeInto next view n s seen = seen.reverse ++ take next view n s := by
  induction n generalizing s seen with
  | zero => simp [takeInto, take]
  | succ n ih => simp [takeInto, take, ih (next s) (view s :: seen), ih (next s) [view s]]

@[simp]
theorem take_zero (next : σ → σ) (view : σ → α) (s : σ) : take next view 0 s = [] :=
  rfl

@[simp]
theorem take_succ (next : σ → σ) (view : σ → α) (n : Nat) (s : σ) :
    take next view (n + 1) s = view s :: take next view n (next s) := by
  simp [take, takeInto, takeInto_eq next view n (next s) [view s]]

@[simp]
theorem length_take (next : σ → σ) (view : σ → α) (n : Nat) (s : σ) :
    (take next view n s).length = n := by
  induction n generalizing s with
  | zero => rfl
  | succ n ih => simp [ih]

theorem untilInto_eq (next : σ → σ) (last : σ → Bool) (n : Nat) (s : σ) (seen : List σ) :
    untilInto next last n s seen = seen.reverse ++ takeUntil next last n s := by
  induction n generalizing s seen with
  | zero => simp [untilInto, takeUntil]
  | succ n ih =>
    by_cases h : last s
    case pos => simp [untilInto, takeUntil, h]
    case neg => simp [untilInto, takeUntil, h, ih (next s) (s :: seen), ih (next s) [s]]

@[simp]
theorem takeUntil_zero (next : σ → σ) (last : σ → Bool) (s : σ) :
    takeUntil next last 0 s = [s] :=
  rfl

theorem takeUntil_succ (next : σ → σ) (last : σ → Bool) (n : Nat) (s : σ) :
    takeUntil next last (n + 1) s =
      if last s then [s] else s :: takeUntil next last n (next s) := by
  by_cases h : last s
  case pos => simp [takeUntil, untilInto, h]
  case neg => simp [takeUntil, untilInto, h, untilInto_eq next last n (next s) [s]]

-- What holds of a state, and of the next one as long as the walk goes on, holds all along.
theorem forall_mem_takeUntil {next : σ → σ} {last : σ → Bool} {P : σ → Prop}
    (step : ∀ s, P s → ¬last s → P (next s)) (n : Nat) {s : σ} (h : P s) :
    ∀ t ∈ takeUntil next last n s, P t := by
  induction n generalizing s with
  | zero => exact List.forall_mem_singleton.mpr h
  | succ n ih =>
    rw [takeUntil_succ]
    split
    case isTrue     => exact List.forall_mem_singleton.mpr h
    case isFalse hl => exact List.forall_mem_cons.mpr ⟨h, ih (step s h hl)⟩

theorem fold_eq (next : σ → σ) (view : σ → α) (f : β → α → β) (n : Nat) (b : β) (s : σ) :
    fold next (fun b s => f b (view s)) n b s = (take next view n s).foldl f b := by
  induction n generalizing b s with
  | zero => rfl
  | succ n ih => rw [fold, ih, take_succ, List.foldl_cons]

theorem foldUntil_eq (next : σ → σ) (last : σ → Bool) (f : β → σ → β) (n : Nat) (b : β) (s : σ) :
    (foldUntil next last f n b s).1 = (takeUntil next last n s).foldl f b ∧
      (takeUntil next last n s).getLast? = some (foldUntil next last f n b s).2 := by
  induction n generalizing b s with
  | zero => simp [foldUntil]
  | succ n ih =>
    rw [foldUntil, takeUntil_succ]
    split
    case isTrue => simp
    case isFalse =>
      have ⟨h₁, h₂⟩ := ih (f b s) (next s)
      exact ⟨by rw [List.foldl_cons, h₁], by rw [List.getLast?_cons, h₂]; rfl⟩

-- A walk in other terms comes to the same, if every step and every end is the same in them.
theorem foldUntil_map {next : σ → σ} {last : σ → Bool} {f : β → σ → β} {next' : τ → τ}
    {last' : τ → Bool} (f' : β → τ → β) (φ : σ → τ) (hn : ∀ s, φ (next s) = next' (φ s))
    (hl : ∀ s, last s = last' (φ s)) (hf : ∀ b s, f b s = f' b (φ s)) (n : Nat) (b : β) (s : σ) :
    (foldUntil next last f n b s).map id φ = foldUntil next' last' f' n b (φ s) := by
  induction n generalizing b s with
  | zero => simp [foldUntil, hf]
  | succ n ih =>
    rw [foldUntil, foldUntil, ← hl]
    split
    case isTrue => simp [hf]
    case isFalse => rw [ih, hn, hf]

end PenStream.Walk
