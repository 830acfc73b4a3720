import Mathlib.Data.Nat.Find
import PenStream.Proofs.Playback.Currency

namespace PenStream

-- What a callback is called with.
inductive Call
  | progress (percent : Nat)
  | sleep (delay : Nat)
deriving DecidableEq, Repr

namespace Call

def percent? : Call → Option Nat
  | progress percent => some percent
  | sleep _          => none

def delay? : Call → Option Nat
  | progress _  => none
  | sleep delay => some delay

-- Nobody sleeps for no time.
def pause (delay : Nat) : List Call :=
  if delay = 0 then [] else [sleep delay]

theorem percents_pause (delay : Nat) : (pause delay).filterMap percent? = [] := by
  unfold pause
  split <;> rfl

theorem delays_pause (delay : Nat) :
    (pause delay).filterMap delay? = [delay].filter (· ≠ 0) := by
  unfold pause
  split
  case isTrue h  => rw [List.filter_cons_of_neg (by simpa using h)]; rfl
  case isFalse h => rw [List.filter_cons_of_pos (by simpa using h)]; rfl

end Call

namespace Session

variable {p : Session} {j : Nat}

-- The commands that are left of the first `m`.
def upcoming (p : Session) (m : Nat) : List Command :=
  (p.commands.toList.take m).drop p.executed

-- The session when all of these have been executed.
def upTo (p : Session) (m : Nat) (h : m ≤ p.commands.size) : Session :=
  { p with
    executed := m
    canvas := p.canvas.executeAll p.rule (p.upcoming m)
    executed_le := h }

-- The calls that follow a command, which is the `i`th of all.
def callsAfter (p : Session) (command : Command) (i : Nat) : List Call :=
  .progress (100 * i / p.commands.size) :: Call.pause (p.pacing.delay command)

-- The calls that follow the commands up to the `m`th.
def calls (p : Session) (m : Nat) : List Call :=
  ((p.upcoming m).zipIdx (p.executed + 1)).flatMap fun (command, i) => p.callsAfter command i

theorem upcoming_executed (p : Session) : p.upcoming p.executed = [] :=
  List.drop_of_length_le (List.length_take_le ..)

theorem upcoming_succ (hj : p.executed ≤ j) (h : j < p.commands.size) :
    p.upcoming (j + 1) = p.upcoming j ++ [p.commands[j]] := by
  have hl : j < p.commands.toList.length := by simpa using h
  have ht : p.executed ≤ (p.commands.toList.take j).length := by
    rw [List.length_take_of_le (Nat.le_of_lt hl)]
    exact hj
  rw [upcoming, ← List.take_append_getElem hl, List.drop_append_of_le_length ht,
    Array.getElem_toList]
  rfl

theorem length_upcoming (h : j ≤ p.commands.size) : (p.upcoming j).length = j - p.executed := by
  rw [upcoming, List.length_drop, List.length_take_of_le (by simpa using h)]

theorem upTo_executed (p : Session) : p.upTo p.executed p.executed_le = p := by
  simp only [upTo, upcoming_executed, Canvas.executeAll, List.foldl_nil]

theorem advance_upTo (hj : p.executed ≤ j) (h : j < p.commands.size) :
    (p.upTo j (Nat.le_of_lt h)).advance h = p.upTo (j + 1) h := by
  simp only [upTo, advance, upcoming_succ hj h, Canvas.executeAll, List.foldl_append,
    List.foldl_cons, List.foldl_nil]

theorem progress_upTo (h : j < p.commands.size) :
    (p.upTo (j + 1) h).progress = 100 * (j + 1) / p.commands.size := by
  have he : ¬(p.upTo (j + 1) h).commands.isEmpty := by
    rw [Array.isEmpty_iff_size_eq_zero]
    exact Nat.ne_of_gt (Nat.zero_lt_of_lt h)
  rw [progress, if_neg he, Nat.mul_comm]
  rfl

theorem calls_executed (p : Session) : p.calls p.executed = [] := by
  rw [calls, upcoming_executed]
  rfl

theorem calls_succ (hj : p.executed ≤ j) (h : j < p.commands.size) :
    p.calls (j + 1) = p.calls j ++ p.callsAfter p.commands[j] (j + 1) := by
  have hi : p.executed + 1 + (p.upcoming j).length = j + 1 := by
    rw [length_upcoming (Nat.le_of_lt h)]
    omega
  rw [calls, upcoming_succ hj h, List.zipIdx_append, List.flatMap_append, hi]
  exact congrArg _ (List.append_nil _)

theorem percents_calls {m : Nat} (h : m ≤ p.commands.size) :
    (p.calls m).filterMap Call.percent? =
      (List.range' (p.executed + 1) (m - p.executed)).map (100 * · / p.commands.size) := by
  have hc (command : Command) (i : Nat) :
      (p.callsAfter command i).filterMap Call.percent? = [100 * i / p.commands.size] :=
    congrArg _ (Call.percents_pause _)
  rw [calls, List.filterMap_flatMap, ← length_upcoming h, ← List.zipIdx_map_snd, List.map_map,
    List.map_eq_flatMap]
  simp only [hc, Function.comp_def]

theorem delays_calls (p : Session) (m : Nat) :
    (p.calls m).filterMap Call.delay? =
      ((p.upcoming m).map p.pacing.delay).filter (· ≠ 0) := by
  have hc (command : Command) (i : Nat) :
      (p.callsAfter command i).filterMap Call.delay? =
        [p.pacing.delay command].filter (· ≠ 0) :=
    Call.delays_pause _
  have hu := List.zipIdx_map_fst (p.executed + 1) (p.upcoming m)
  rw [calls, List.filterMap_flatMap]
  conv_rhs => rw [← hu, List.map_map, List.map_eq_flatMap, List.filter_flatMap]
  simp only [hc, Function.comp_def]

-- Only the last command brings the progress to its end.
theorem percent_eq_iff {i : Nat} (hi : 0 < i) (h : i ≤ p.commands.size) :
    100 * i / p.commands.size = 100 ↔ i = p.commands.size := by
  have hs : 0 < p.commands.size := Nat.lt_of_lt_of_le hi h
  constructor
  case mp =>
    intro he
    have := (Nat.le_div_iff_mul_le hs).mp (Nat.le_of_eq he.symm)
    omega
  case mpr =>
    intro he
    rw [he, Nat.mul_div_cancel _ hs]

theorem pairwise_percents {m : Nat} (h : m ≤ p.commands.size) :
    ((p.calls m).filterMap Call.percent?).Pairwise (· ≤ ·) := by
  rw [percents_calls h]
  refine (List.pairwise_lt_range' 1).map _ fun i i' hi => ?_
  exact Nat.div_le_div_right (Nat.mul_le_mul_left 100 (Nat.le_of_lt hi))

end Session

namespace Stage

variable {s t : Stage} {p : Session}

-- The generation moves on with every beginning, and with nothing else.
theorem Evolves.generation_eq (h : Evolves s t) :
    ∃ n, t.beginnings = s.beginnings + n ∧ t.generation = s.generation + .ofNat n := by
  induction h with
  | refl | clone | lend => exact ⟨0, rfl, (UInt64.add_zero _).symm⟩
  | cancel              => exact ⟨1, List.countP_cons_of_pos rfl, rfl⟩
  | @start c s commands width height =>
    rcases s.start_cases c commands width height with ⟨_, p, _, he⟩ | he
    all_goals
      rw [he]
      exact ⟨1, List.countP_cons_of_pos rfl, rfl⟩
  | trans _ _ hi hi' =>
    have ⟨n, hb, hg⟩ := hi
    have ⟨n', hb', hg'⟩ := hi'
    refine ⟨n + n', by rw [hb', hb, Nat.add_assoc], ?_⟩
    rw [hg', hg, UInt64.ofNat_add, UInt64.add_assoc]
  | drive hp _ _ _ hi =>
    have ⟨n, hb, hg⟩ := hi
    exact ⟨n, by rw [beginnings_put]; exact hb, hg⟩

namespace Callbacks

variable {σ : Type} {k : Callbacks σ} {v : Stage × σ} {m : Nat}

-- What a call makes of the stage and of what the callbacks remember.
def answer (k : Callbacks σ) (v : Stage × σ) : Call → Stage × σ
  | .progress percent => ((k.progress percent).run v).2
  | .sleep delay      => ((k.sleep delay).run v).2

def answerAll (k : Callbacks σ) (v : Stage × σ) (calls : List Call) : Stage × σ :=
  calls.foldl k.answer v

-- The same callbacks with a list of the calls that they have received.
def recorded (k : Callbacks σ) : Callbacks (σ × List Call) where
  progress percent := record (.progress percent)
  sleep delay := record (.sleep delay)
where
  record (call : Call) : StateM (Stage × σ × List Call) Unit :=
    modify fun (s, memory, calls) =>
      let v := k.answer (s, memory) call
      (v.1, v.2, calls ++ [call])

theorem answerAll_append (k : Callbacks σ) (v : Stage × σ) (calls calls' : List Call) :
    k.answerAll v (calls ++ calls') = k.answerAll (k.answerAll v calls) calls' :=
  List.foldl_append

theorem paused_eq_answerAll (k : Callbacks σ) (percent delay : Nat) (v : Stage × σ) :
    k.paused percent delay v = k.answerAll v (.progress percent :: Call.pause delay) := by
  unfold paused Call.pause
  by_cases hd : delay = 0
  case pos => rw [if_pos hd, if_neg (not_not_intro hd)]; rfl
  case neg => rw [if_neg hd, if_pos hd]; rfl

theorem answerAll_recorded (k : Callbacks σ) (s : Stage) (memory : σ) (received calls : List Call) :
    k.recorded.answerAll (s, memory, received) calls =
      ((k.answerAll (s, memory) calls).1, (k.answerAll (s, memory) calls).2,
        received ++ calls) := by
  induction calls generalizing s memory received with
  | nil => rw [List.append_nil]; rfl
  | cons call calls hi =>
    have hc : k.recorded.answer (s, memory, received) call =
        ((k.answer (s, memory) call).1, (k.answer (s, memory) call).2, received ++ [call]) := by
      cases call <;> rfl
    rw [answerAll, List.foldl_cons, hc]
    exact (hi ..).trans (by rw [List.append_assoc]; rfl)

-- A session gets as far as `m` commands: it is current before each of them, and is not any more
-- after the last, unless it has come to its end.
structure Stops (k : Callbacks σ) (p : Session) (v : Stage × σ) (m : Nat) : Prop where
  executed_le : p.executed ≤ m
  le_size : m ≤ p.commands.size
  current : ∀ j, p.executed ≤ j → j < m → (k.answerAll v (p.calls j)).1.isCurrent p
  last : (k.answerAll v (p.calls m)).1.isCurrent p → m = p.commands.size

theorem exists_stops (k : Callbacks σ) (p : Session) (v : Stage × σ) : ∃ m, Stops k p v m := by
  classical
  have he : ∃ m, p.executed ≤ m ∧
      ((k.answerAll v (p.calls m)).1.isCurrent p → m = p.commands.size) :=
    ⟨p.commands.size, p.executed_le, fun _ => rfl⟩
  have hf := Nat.find_spec he
  refine ⟨Nat.find he, hf.left, ?_, fun j hj hm => ?_, hf.right⟩
  · exact Nat.find_min' he ⟨p.executed_le, fun _ => rfl⟩
  · by_contra hc
    exact Nat.find_min he hm ⟨hj, fun h => absurd h hc⟩

namespace Stops

theorem recorded {s : Stage} {memory : σ} (h : Stops k p (s, memory) m) (received : List Call) :
    Stops k.recorded p (s, memory, received) m where
  executed_le := h.executed_le
  le_size := h.le_size
  current j hj hm := by
    rw [answerAll_recorded]
    exact h.current j hj hm
  last := by
    rw [answerAll_recorded]
    exact h.last

theorem step_upTo (h : Stops k p v m) :
    (p.upTo m h.le_size).step (k.answerAll v (p.calls m)).1.generation =
      (p.upTo m h.le_size,
        if (k.answerAll v (p.calls m)).1.isCurrent p then .finished 100 else .cancelled) := by
  split
  case isTrue hc =>
    exact Session.step_of_le (isCurrent_iff.mp hc) (Nat.le_of_eq (h.last hc).symm)
  case isFalse hc => exact Session.step_of_stale (mt isCurrent_iff.mpr hc)

-- From any of the commands on the way.
theorem run_upTo (h : Stops k p v m) {j : Nat} (hj : p.executed ≤ j) (hm : j ≤ m) :
    ((p.upTo j (Nat.le_trans hm h.le_size)).run k.watcher).run (k.answerAll v (p.calls j)) =
      ((p.upTo m h.le_size,
          if (k.answerAll v (p.calls m)).1.isCurrent p then .finished 100 else .cancelled),
        k.answerAll v (p.calls m)) := by
  induction hn : m - j generalizing j with
  | zero =>
    obtain rfl : j = m := by omega
    have hl (percent delay : Nat) :
        ((p.upTo j h.le_size).step (k.answerAll v (p.calls j)).1.generation).2 ≠
          .drawn percent delay := by
      rw [h.step_upTo]
      split <;> exact Step.noConfusion
    rw [← h.step_upTo]
    exact run_of_last hl
  | succ n hi =>
    have hm : j < m := by omega
    have hl : j < p.commands.size := Nat.lt_of_lt_of_le hm h.le_size
    have hc := isCurrent_iff.mp (h.current j hj hm)
    have hs := Session.step_of_lt (p := p.upTo j (Nat.le_of_lt hl)) hc hl
    rw [Session.advance_upTo hj hl, Session.progress_upTo hl] at hs
    refine (run_of_drawn hs).trans ?_
    rw [← hi (Nat.le_succ_of_le hj) hm (by omega), p.calls_succ hj hl, answerAll_append]
    exact congrArg _ (paused_eq_answerAll ..)

theorem run_eq (h : Stops k p v m) :
    (p.run k.watcher).run v =
      ((p.upTo m h.le_size,
          if (k.answerAll v (p.calls m)).1.isCurrent p then .finished 100 else .cancelled),
        k.answerAll v (p.calls m)) := by
  have hr := h.run_upTo (Nat.le_refl _) h.executed_le
  rwa [p.calls_executed, p.upTo_executed] at hr

end Stops

section

variable (progress : ∀ n v m, Evolves v ((k.progress n).run (v, m)).2.1)
variable (sleep : ∀ n v m, Evolves v ((k.sleep n).run (v, m)).2.1)

include progress sleep

theorem answerAll_evolves (v : Stage × σ) (calls : List Call) :
    Evolves v.1 (k.answerAll v calls).1 := by
  induction calls generalizing v with
  | nil => exact .refl
  | cons call calls hi =>
    have hc : Evolves v.1 (k.answer v call).1 := by
      cases call with
      | progress percent => exact progress percent v.1 v.2
      | sleep delay      => exact sleep delay v.1 v.2
    exact hc.trans (hi _)

-- When a generation has begun after a command, that was the last one.
theorem Stops.eq_succ (h : Stops k p v m) {j : Nat} (hj : p.executed ≤ j) (hm : j < m)
    (hb : (k.answerAll v (p.calls j)).1.beginnings < (k.answerAll v (p.calls (j + 1))).1.beginnings)
    (few : (k.answerAll v (p.calls (j + 1))).1.beginnings <
      (k.answerAll v (p.calls j)).1.beginnings + UInt64.size) : m = j + 1 := by
  by_contra hn
  have hc := isCurrent_iff.mp (h.current j hj hm)
  have hc' := isCurrent_iff.mp (h.current (j + 1) (by omega) (by omega))
  have hl : j < p.commands.size := Nat.lt_of_lt_of_le hm h.le_size
  have he := answerAll_evolves progress sleep (k.answerAll v (p.calls j))
    (p.callsAfter p.commands[j] (j + 1))
  rw [← answerAll_append, ← p.calls_succ hj] at he
  have ⟨n, hn, hg⟩ := he.generation_eq
  rw [← hc, ← hc', UInt64.left_eq_add] at hg
  have hz : n = 0 := (ofNat_inj (n := 0) (by omega) (by decide)).mp hg
  omega

end

-- Callbacks that may do anything with the scheduler are called, one after the other, as listed in
-- `calls`: up to the last command there is, or up to the one after which a generation has begun.
-- Generations are words, so this is not to be seen if they have gone all the way around.
theorem run_calls_back (progress : ∀ n v m, Reaches v ((k.progress n).run (v, m)).2.1)
    (sleep : ∀ n v m, Reaches v ((k.sleep n).run (v, m)).2.1) (p : Session) (s : Stage)
    (memory : σ) :
    let world (j : Nat) : Stage × σ := k.answerAll (s, memory) (p.calls j)
    ∃ (m : Nat) (hm : m ≤ p.commands.size) (last : Step), p.executed ≤ m ∧
      (p.run k.watcher).run (s, memory) = ((p.upTo m hm, last), world m) ∧
      (p.run k.recorded.watcher).run (s, memory, []) =
        ((p.upTo m hm, last), (world m).1, (world m).2, p.calls m) ∧
      ((world m).1.isCurrent p → last = .finished 100 ∧ m = p.commands.size) ∧
      (¬(world m).1.isCurrent p → last = .cancelled) ∧
      (p.calls m).filterMap Call.percent? =
        (List.range' (p.executed + 1) (m - p.executed)).map (100 * · / p.commands.size) ∧
      ((p.calls m).filterMap Call.percent?).Pairwise (· ≤ ·) ∧
      (∀ i, p.executed < i → i ≤ m →
        (100 * i / p.commands.size = 100 ↔ i = p.commands.size)) ∧
      (p.calls m).filterMap Call.delay? =
        ((p.upcoming m).map p.pacing.delay).filter (· ≠ 0) ∧
      ∀ j, p.executed ≤ j → j < m →
        (world j).1.isCurrent p ∧
        ((world j).1.beginnings < (world (j + 1)).1.beginnings →
          (world (j + 1)).1.beginnings < (world j).1.beginnings + UInt64.size → m = j + 1) := by
  intro world
  have ⟨m, h⟩ := exists_stops k p (s, memory)
  have hr := (h.recorded []).run_eq
  rw [answerAll_recorded, List.nil_append] at hr
  refine ⟨m, h.le_size, _, h.executed_le, h.run_eq, hr, fun hc => ⟨if_pos hc, h.last hc⟩,
    fun hc => if_neg hc, Session.percents_calls h.le_size, Session.pairwise_percents h.le_size,
    fun i hi hm => ?_, p.delays_calls m, fun j hj hm => ⟨h.current j hj hm, ?_⟩⟩
  · exact Session.percent_eq_iff (Nat.zero_lt_of_lt hi) (Nat.le_trans hm h.le_size)
  · exact h.eq_succ (fun n v m => (progress n v m).evolves)
      (fun n v m => (sleep n v m).evolves) hj hm

-- From the half on, every progress is answered with another start.
def impatient : Callbacks Nat where
  progress percent := modify fun (s, count) => (if 50 ≤ percent then restart s else s, count + 1)
  sleep _ := modify fun (s, count) => (s, count + 1)
where
  restart (s : Stage) : Stage :=
    match s.clones with
    | []     => s
    | c :: _ => s.start c #[] 1 1

theorem run_calls_back_impatient :
    (∀ n v m, Reaches v ((impatient.progress n).run (v, m)).2.1) ∧
    (∀ n v m, Reaches v ((impatient.sleep n).run (v, m)).2.1) ∧
    ∃ p, opening.sessions[0]? = some p ∧ ∃ (hm : 1 ≤ p.commands.size) (t : Stage),
      (p.run impatient.recorded.watcher).run (opening, 0, []) =
        ((p.upTo 1 hm, .cancelled), t, 2, [.progress 50, .sleep 1]) := by
  have restarted (v : Stage) : Reaches v (impatient.restart v) := by
    unfold impatient.restart
    split
    case h_1        => exact .refl
    case h_2 c cs h => exact .start .refl (h ▸ List.mem_cons_self)
  have progress (n : Nat) (v : Stage) (m : Nat) :
      Reaches v ((impatient.progress n).run (v, m)).2.1 := by
    change Reaches v (if 50 ≤ n then impatient.restart v else v)
    split
    case isTrue  => exact restarted v
    case isFalse => exact .refl
  have sleep (n : Nat) (v : Stage) (m : Nat) : Reaches v ((impatient.sleep n).run (v, m)).2.1 :=
    .refl
  let p : Session := opening.sessions[0]
  have ⟨m, hm, last, _, _, hr, _, hc, _⟩ := run_calls_back progress sleep p opening 0
  have he : ((p.run impatient.recorded.watcher).run (opening, 0, [])).1.1.executed = 1 := by
    decide +kernel
  rw [hr] at he
  obtain rfl : m = 1 := he
  obtain rfl : last = .cancelled := hc (by decide +kernel)
  have hk : p.calls 1 = [.progress 50, .sleep 1] := by decide +kernel
  have hw : (impatient.answerAll (opening, 0) (p.calls 1)).2 = 2 := by decide +kernel
  dsimp only at hr
  rw [hw, hk] at hr
  exact ⟨progress, sleep, p, rfl, hm, _, hr⟩

end Callbacks

end Stage

end PenStream
