import Mathlib.Data.List.Destutter
import Mathlib.Data.List.Perm.Subperm
import PenStream.Proofs.Playback.Driven
import PenStream.Tool.Run

namespace PenStream

-- What a watcher does when it is called.
def Call.perform (watcher : Session.Watcher m) : Call → m Unit
  | progress percent => watcher.progress percent
  | sleep delay      => watcher.sleep delay

namespace Session

variable {p : Session}

theorem upcoming_of_lt (h : p.executed < p.commands.size) :
    p.upcoming p.commands.size =
      p.commands[p.executed] :: (p.advance h).upcoming p.commands.size := by
  have hl : p.executed < p.commands.toList.length := by simpa using h
  simp only [upcoming, advance, List.take_of_length_le (Nat.le_of_eq Array.length_toList)]
  rw [List.drop_eq_getElem_cons hl, Array.getElem_toList]

theorem calls_of_lt (h : p.executed < p.commands.size) :
    p.calls p.commands.size =
      p.callsAfter p.commands[p.executed] (p.executed + 1) ++
        (p.advance h).calls p.commands.size := by
  rw [calls, upcoming_of_lt h, List.zipIdx_cons, List.flatMap_cons]
  rfl

theorem progress_advance (h : p.executed < p.commands.size) :
    (p.advance h).progress = 100 * (p.executed + 1) / p.commands.size := by
  rw [← progress_upTo h, ← advance_upTo (Nat.le_refl _) h]
  simp only [upTo_executed]

variable {m : Type → Type} [Monad m] [LawfulMonad m] {watcher : Watcher m}

-- A session that nothing happens to calls the watcher as listed in `calls`, and gets to its end.
theorem run_undisturbed (h : watcher.current = pure p.generation) :
    p.run watcher = (do
      (p.calls p.commands.size).forM (Call.perform watcher)
      return (p.completed, .finished 100)) := by
  induction hr : p.remaining generalizing p with
  | zero =>
    have hs := Nat.le_of_sub_eq_zero hr
    have he : p.calls p.commands.size = [] := by
      rw [← p.calls_executed, Nat.le_antisymm p.executed_le hs]
    rw [run_eq, h, pure_bind, step_of_le rfl hs, completed_of_le hs, he]
    simp
  | succ n hi =>
    simp only [remaining] at hr hi
    have hl : p.executed < p.commands.size := by omega
    have hn := hi (p := p.advance hl) h (by simp only [advance]; omega)
    rw [completed_advance] at hn
    rw [run_eq, h, pure_bind, step_of_lt rfl hl, calls_of_lt hl, callsAfter, progress_advance hl]
    dsimp only
    rw [hn]
    unfold Call.pause
    by_cases hd : p.pacing.delay p.commands[p.executed] = 0
    · simp [hd, Call.perform, advance]
    · simp [hd, Call.perform, advance]

end Session

namespace ProgressBar

-- The bar after some percentages, and what is written for them.
def updateAll : ProgressBar → List Nat → ProgressBar × String
  | bar, []              => (bar, "")
  | bar, percent :: rest =>
    let (next, text) := bar.update percent
    let (last, texts) := next.updateAll rest
    (last, text ++ texts)

-- Behind the percentage that it shows, a bar is drawn anew where the percentage is another.
theorem redraw_append_updateAll (shown : Nat) (percents : List Nat) :
    redraw shown ++ (updateAll ⟨some shown⟩ percents).2 =
      String.join ((percents.destutter' (· ≠ ·) shown).map redraw) := by
  induction percents generalizing shown with
  | nil => simp [updateAll]
  | cons percent rest hi =>
    by_cases h : shown = percent
    case pos =>
      rw [List.destutter'_cons_neg _ (not_not_intro h), ← hi shown]
      simp [updateAll, update, h]
    case neg =>
      rw [List.destutter'_cons_pos _ h, List.map_cons, String.join_cons, ← hi percent]
      simp [updateAll, update, h]

theorem updateAll_fresh (percents : List Nat) :
    (updateAll {} percents).2 = String.join ((percents.destutter (· ≠ ·)).map redraw) := by
  cases percents with
  | nil              => rfl
  | cons percent rest =>
    rw [List.destutter_cons', ← redraw_append_updateAll]
    simp [updateAll, update]

theorem toList_pushn (s : String) (c : Char) (n : Nat) :
    (s.pushn c n).toList = s.toList ++ List.replicate n c := by
  induction n with
  | zero      => simp [String.pushn, Nat.repeat]
  | succ n hi =>
    rw [List.replicate_succ', ← List.append_assoc, ← hi]
    exact String.toList_push ..

-- The bar has its cells from the blocks alone.
theorem count_redraw (percent : Nat) {c : Char} (h : c = '█' ∨ c = '░') :
    (redraw percent).toList.count c =
      if c = '█' then filled percent width else width - filled percent width := by
  have hd : c ∉ (toString (min percent 100)).toList := by
    intro hm
    have hm := Nat.isDigit_of_mem_toDigits (by decide) (by decide) (Nat.toList_repr ▸ hm)
    rcases h with rfl | rfl <;> contradiction
  have hd := List.count_eq_zero_of_not_mem hd
  simp only [redraw, render, String.toList_append, toList_pushn, List.count_append, hd,
    List.count_replicate]
  rcases h with rfl | rfl <;> simp

theorem filled_mono {percent percent' : Nat} (h : percent ≤ percent') :
    filled percent width ≤ filled percent' width :=
  Nat.div_le_div_right (Nat.mul_le_mul_right _ (by omega))

theorem filled_eq_width_iff {percent : Nat} (h : percent ≤ 100) :
    filled percent width = width ↔ percent = 100 := by
  simp only [filled, width]
  omega

-- The percentages that a session of so many commands passes through, each of them once.
def percentages (n : Nat) : List Nat :=
  ((List.range' 1 n).map (100 * · / n)).dedup

variable {n : Nat}

theorem le_of_mem_percentages {percent : Nat} (h : percent ∈ percentages n) : percent ≤ 100 := by
  obtain ⟨i, hi, rfl⟩ := List.mem_map.mp (List.mem_dedup.mp h)
  have ⟨_, hi⟩ := List.mem_range'_1.mp hi
  exact Nat.div_le_of_le_mul (Nat.mul_comm n 100 ▸ Nat.mul_le_mul_left 100 (by omega))

theorem pairwise_rounded (n : Nat) : ((List.range' 1 n).map (100 * · / n)).Pairwise (· ≤ ·) :=
  (List.pairwise_lt_range' 1).map _ fun _ _ hi =>
    Nat.div_le_div_right (Nat.mul_le_mul_left 100 (Nat.le_of_lt hi))

theorem percentages_eq_destutter (n : Nat) :
    percentages n = ((List.range' 1 n).map (100 * · / n)).destutter (· ≠ ·) :=
  ((pairwise_rounded n).destutter_eq_dedup).symm

theorem pairwise_percentages (n : Nat) : (percentages n).Pairwise (· < ·) :=
  ((pairwise_rounded n).sublist (List.dedup_sublist _)).imp₂ (fun _ _ => Nat.lt_of_le_of_ne)
    (List.nodup_dedup _)

-- The last of them is the end; so the end is the last.
theorem getLast?_percentages (h : 0 < n) : (percentages n).getLast? = some 100 := by
  have hm : 100 ∈ percentages n :=
    List.mem_dedup.mpr (List.mem_map.mpr
      ⟨n, List.mem_range'_1.mpr (by omega), Nat.mul_div_cancel _ h⟩)
  have hl (percent : Nat) := @le_of_mem_percentages n percent
  have hp := pairwise_percentages n
  rcases List.eq_nil_or_concat' (percentages n) with he | ⟨init, last, he⟩
  case inl => exact absurd he (List.ne_nil_of_mem hm)
  case inr =>
    rw [he] at hm hl hp ⊢
    have hi := (List.pairwise_append.mp hp).right.right
    rcases List.mem_append.mp hm with hm | hm
    · have := hi 100 hm last (List.mem_singleton_self _)
      have := hl last (by simp)
      omega
    · rw [List.getLast?_concat, List.mem_singleton.mp hm]

theorem length_percentages_le (n : Nat) : (percentages n).length ≤ 101 := by
  have hs : percentages n ⊆ List.range 101 := fun percent h =>
    List.mem_range.mpr (Nat.lt_succ_of_le (le_of_mem_percentages h))
  have hl := (List.subperm_of_subset (List.nodup_dedup _) hs).length_le
  rwa [List.length_range] at hl

end ProgressBar

namespace Tool

open ProgressBar

variable {σ : Type} {host : Host (StateM (String × σ))}

-- Surroundings that keep what is written of the bar; whatever else they keep may change at will.
structure Host.Keeps (host : Host (StateM (String × σ))) : Prop where
  showBar : ∀ text v, ((host.showBar text).run v).2.1 = v.1 ++ text
  sleep : ∀ delay v, ((host.sleep delay).run v).2.1 = v.1

theorem animate_eq_run (host : Host m) [Monad m] (generation : UInt64) (p : Session) :
    animate host generation p = (do
      let (result, bar) ← (p.run (host.watcher generation)).run {}
      host.showBar bar.finish
      return result) :=
  rfl

-- Of the calls, only those with the progress have something written.
theorem Host.Keeps.forM_perform (h : host.Keeps) (generation : UInt64) (calls : List Call)
    (bar : ProgressBar) (v : String × σ) :
    ∃ w, ((calls.forM (Call.perform (host.watcher generation))).run bar).run v =
      (((), (bar.updateAll (calls.filterMap Call.percent?)).1),
        v.1 ++ (bar.updateAll (calls.filterMap Call.percent?)).2, w) := by
  induction calls generalizing bar v with
  | nil => exact ⟨v.2, by simp [updateAll]; rfl⟩
  | cons call calls hi =>
    cases call with
    | progress percent =>
      have ⟨w, hw⟩ := hi (bar.update percent).1 ((host.showBar (bar.update percent).2).run v).2
      refine ⟨w, ?_⟩
      rw [h.showBar] at hw
      have hc : (Call.progress percent :: calls).filterMap Call.percent? =
          percent :: calls.filterMap Call.percent? := rfl
      rw [hc, updateAll, ← String.append_assoc]
      exact hw
    | sleep delay =>
      have ⟨w, hw⟩ := hi bar ((host.sleep delay).run v).2
      refine ⟨w, ?_⟩
      rw [h.sleep] at hw
      exact hw

theorem Host.Keeps.animate_eq (h : host.Keeps) (p : Session) (v : String × σ) :
    let percents := (List.range' (p.executed + 1) (p.commands.size - p.executed)).map
      (100 * · / p.commands.size)
    ∃ w, (animate host p.generation p).run v =
      ((p.completed, .finished 100), v.1 ++ (updateAll {} percents).2 ++ "\n", w) := by
  intro percents
  have ⟨w, hw⟩ := h.forM_perform p.generation (p.calls p.commands.size) {} v
  rw [Session.percents_calls (Nat.le_refl _)] at hw
  let t := (v.1 ++ (updateAll {} percents).2, w)
  have hr : ((p.run (host.watcher p.generation)).run {}).run v =
      (((p.completed, .finished 100), (updateAll {} percents).1), t) := by
    rw [Session.run_undisturbed rfl, StateT.run_bind, StateT.run_bind, hw]
    rfl
  refine ⟨((host.showBar "\n").run t).2.2, ?_⟩
  rw [animate_eq_run, StateT.run_bind, hr, ← h.showBar "\n" t]
  rfl

-- A session of `n` commands that is played from its start to its end.
theorem animate_draws_bar (keeps : host.Keeps) {p : Session} (hp : p.executed = 0)
    (v : String × σ) :
    let n := p.commands.size
    let shown := percentages n
    let full (percent : Nat) := (redraw percent).toList.count '█'
    let empty (percent : Nat) := (redraw percent).toList.count '░'
    (∃ w, (animate host p.generation p).run v =
      ((p.completed, .finished 100), v.1 ++ String.join (shown.map redraw) ++ "\n", w)) ∧
    shown.Pairwise (· < ·) ∧ shown.length ≤ 101 ∧ (n = 0 → shown = []) ∧
    (0 < n → shown.getLast? = some 100) ∧
    (shown.map full).Pairwise (· ≤ ·) ∧
    ∀ percent ∈ shown, full percent + empty percent = width ∧
      (full percent = width ↔ shown.getLast? = some percent) := by
  intro n shown full empty
  have ⟨w, hw⟩ := keeps.animate_eq p v
  rw [hp, updateAll_fresh, Nat.zero_add, Nat.sub_zero, ← percentages_eq_destutter] at hw
  have hf (percent : Nat) : full percent = filled percent width :=
    count_redraw percent (.inl rfl)
  have he (percent : Nat) : empty percent = width - filled percent width :=
    count_redraw percent (.inr rfl)
  refine ⟨⟨w, hw⟩, pairwise_percentages n, length_percentages_le n, fun hn => ?_,
    getLast?_percentages, ?_, fun percent hm => ⟨?_, ?_⟩⟩
  · simp [shown, percentages, hn]
  · refine (pairwise_percentages n).map full fun percent percent' hl => ?_
    rw [hf, hf]
    exact filled_mono (Nat.le_of_lt hl)
  · have := filled_le percent width
    rw [hf, he]
    omega
  · have hn : 0 < n := Nat.pos_of_ne_zero fun hn => by simp [shown, percentages, hn] at hm
    rw [hf, filled_eq_width_iff (le_of_mem_percentages hm), getLast?_percentages hn,
      Option.some_inj, eq_comm]

-- Surroundings that keep what is written of the bar and how often they have slept.
def terminal : Host (StateM (String × Nat)) where
  fileBytes _ := pure (.error .notFound)
  inputBytes := pure (.error .notFound)
  putImage _ _ _ := pure (.error .notFound)
  write _ := pure ()
  log _ _ := pure ()
  showBar text := modify fun (written, sleeps) => (written ++ text, sleeps)
  sleep _ := modify fun (written, sleeps) => (written, sleeps + 1)

theorem animate_draws_bar_terminal :
    terminal.Keeps ∧ ∃ p, Stage.opening.sessions[0]? = some p ∧ p.executed = 0 ∧
      ∃ w, (animate terminal p.generation p).run ("", 0) =
        ((p.completed, .finished 100),
          "\rDRAW: ██████████░░░░░░░░░░ 50%\rDRAW: ████████████████████ 100%\n", w) := by
  have hk : terminal.Keeps := ⟨fun _ _ => rfl, fun _ _ => rfl⟩
  have ht : "" ++ String.join ((percentages 2).map redraw) ++ "\n" =
      "\rDRAW: ██████████░░░░░░░░░░ 50%\rDRAW: ████████████████████ 100%\n" := by decide +kernel
  have ⟨⟨w, hw⟩, _⟩ := animate_draws_bar hk (p := Stage.opening.sessions[0]) rfl ("", 0)
  exact ⟨hk, _, rfl, rfl, w, ht ▸ hw⟩

end Tool

end PenStream
