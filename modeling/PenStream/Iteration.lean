namespace PenStream.Iteration

variable {σ : Type u} {α : Type v}

-- The items that lead from one state to another.
inductive Gives (next? : σ → Option (α × σ)) : σ → List α → σ → Prop
  | nil : Gives next? s [] s
  | cons : next? s = some (a, t) → Gives next? t as u → Gives next? s (a :: as) u

-- All items there are, behind which the state has none left.
inductive Yields (next? : σ → Option (α × σ)) : σ → List α → Prop
  | done : next? s = none → Yields next? s []
  | next : next? s = some (a, t) → Yields next? t as → Yields next? s (a :: as)

variable {next? : σ → Option (α × σ)} {s t : σ} {as seen : List α}

-- What is to come is what there was, but for what has been seen.
theorem Yields.of_gives (h : Yields next? s as) (hg : Gives next? s seen t) :
    ∃ rest, as = seen ++ rest ∧ Yields next? t rest := by
  induction hg generalizing as with
  | nil => exact ⟨as, rfl, h⟩
  | cons hn _ hi =>
    cases h with
    | done hd    => exact absurd (hn.symm.trans hd) (Option.some_ne_none _)
    | next hm hy =>
      obtain ⟨rfl, rfl⟩ := Prod.mk.inj (Option.some_inj.mp (hn.symm.trans hm))
      have ⟨rest, he, hr⟩ := hi hy
      exact ⟨rest, congrArg _ he, hr⟩

end PenStream.Iteration
