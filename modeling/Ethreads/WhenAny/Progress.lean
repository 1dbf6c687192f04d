import Ethreads.CoroTask.Readiness
import Ethreads.WhenAny.Outcome

/-!
# `when_any` returns

Once a task is ready, each step of the coroutine brings it nearer to its end,
whatever the tasks do: it finishes at most one sweep that has passed the task,
and leaves the next one at the task or before it.
-/

namespace Ethreads
namespace WhenAny

open CoroTask (Completion Handle)
open WhenAll (Party Allowed Used)

variable {υ T E R : Type*} [DecidableEq υ] {noop : BitVec 64}
  {F : Combinator T R} {h : Handle noop} {L : List (Completion T E)}

/-! ## The steps of the coroutine -/

/-- The step is one of the coroutine itself.  What it does inside `start` and
inside the `co_await` are steps of the task. -/
def Action.own {n : ℕ} : Action n υ T E → Bool
  | task _ _ => false
  | _ => true

/-- How many steps the coroutine takes at most once task `k` of `n` is
ready. -/
def Pc.remaining (n k : ℕ) : Pc R E → ℕ
  | testEmpty => n + k + 4
  | start i => n - i + k + 3
  | poll i => if i ≤ k then k - i + 2 else n - i + k + 5
  | yield => k + 4
  | scheduled => k + 3
  | await _ => 1
  | returned _ => 0

theorem remaining_le {n k : ℕ} (hk : k < n) (p : Pc R E) :
    p.remaining n k ≤ n + k + 4 := by
  cases p <;> simp only [Pc.remaining]
  case poll => split <;> omega
  all_goals omega

/-- A step of the coroutine brings it nearer to its end. -/
theorem remaining_next {s : State L.length υ T E R}
    {a : Action L.length υ T E} {k : Fin L.length}
    (hk : (s.task k).ready = true) (ha : Enabled h L s a) :
    (next F h s a).pc.remaining L.length k + a.own.toNat ≤
      s.pc.remaining L.length k := by
  have hlt := k.isLt
  cases a with
  | task i b => exact Nat.le_refl _
  | throwEmpty =>
      rw [ha.1]
      simp only [next, Pc.remaining, Action.own, Bool.toNat_true]
      omega
  | notEmpty =>
      rw [ha.1]
      simp only [next, Pc.remaining, Action.own, Bool.toNat_true]
      omega
  | nextStart i =>
      have hi := i.isLt
      rw [ha.1]
      simp only [next, Pc.remaining, Action.own, Bool.toNat_true]
      omega
  | startsDone =>
      rw [show s.pc = .start L.length from ha]
      simp only [next, State.sweep, Pc.remaining, Action.own, Bool.toNat_true,
        Nat.zero_le, if_true]
      omega
  | pollReady i =>
      rw [ha.1]
      simp only [next, Pc.remaining, Action.own, Bool.toNat_true]
      split <;> omega
  | pollNotReady i =>
      have hi := i.isLt
      have hne : (i : ℕ) ≠ k := by
        intro hik
        cases Fin.ext hik
        cases hk.symm.trans ha.2
      rw [ha.1]
      simp only [next, Pc.remaining, Action.own, Bool.toNat_true]
      split <;> split <;> omega
  | sweepDone =>
      rw [show s.pc = .poll L.length from ha]
      simp only [next, Pc.remaining, Action.own, Bool.toNat_true]
      split <;> omega
  | schedule =>
      rw [show s.pc = .yield from ha]
      simp only [next, Pc.remaining, Action.own, Bool.toNat_true]
      omega
  | resume =>
      rw [show s.pc = .scheduled from ha]
      simp only [next, State.sweep, Pc.remaining, Action.own, Bool.toNat_true,
        Nat.zero_le, if_true]
      omega
  | awaitDone i b c =>
      rw [ha.1]
      exact Nat.le_refl _

/-- A task that is ready stays so. -/
theorem ready_next {s : State L.length υ T E R} {a : Action L.length υ T E}
    {k : Fin L.length} (hk : (s.task k).ready = true) :
    ((next F h s a).task k).ready = true := by
  cases a with
  | task i b => exact task_ready_next hk
  | _ => exact hk

/-- Once a task is ready the coroutine takes a bounded number of steps. -/
theorem countP_own_le {s : State L.length υ T E R} {k : Fin L.length}
    (hk : (s.task k).ready = true) {l : List (Action L.length υ T E)}
    (hl : (system υ F h L).Executes s l) :
    l.countP Action.own ≤ s.pc.remaining L.length k := by
  have hcount := hl.countP_add_le (I := fun s => (s.task k).ready = true)
    (fun s => s.pc.remaining L.length k) Action.own
    (fun s a hk _ => ready_next hk) (fun s a hk ha => remaining_next hk ha) hk
  exact (Nat.le_add_right _ _).trans hcount

/-! ## The loops -/

/-- How many tasks have been started. -/
def Pc.begun (n : ℕ) : Pc R E → ℕ
  | start i => i
  | poll _ | await _ | yield | scheduled => n
  | testEmpty | returned _ => 0

theorem task_started_next {s : State L.length υ T E R} {i j : Fin L.length}
    {a : CoroTask.Action (Party υ) T E} (hj : (s.task j).started = true) :
    ((next F h s (.task i a)).task j).started = true := by
  refine (loops υ F h L).keeps_act (I := fun t => t.started = true) hj ?_
  intro _
  cases a <;> first | exact hj | rfl

variable [Fintype υ]

/-- The tasks that the loop has passed were started. -/
theorem started_reachable {s : State L.length υ T E R}
    (hs : (system υ F h L).Reachable s) (j : Fin L.length)
    (hj : j < s.pc.begun L.length) : (s.task j).started = true := by
  refine TransitionSystem.Reachable.invariant_of hs
    (fun s => ∀ j : Fin L.length, j < s.pc.begun L.length →
      (s.task j).started = true)
    (fun s hs => hs) ?_ (fun s a hs hbegun ha => ?_) j hj
  · rintro s rfl j hj
    cases hj
  · intro j hj
    cases a with
    | task i b => exact task_started_next (F := F) (hbegun j hj)
    | nextStart i =>
        rcases Nat.lt_succ_iff_lt_or_eq.mp hj with hlt | heq
        · refine hbegun j ?_
          rw [ha.1]
          exact hlt
        · cases Fin.ext heq
          have htask := (loops υ F h L).reachable hs j
          refine (CoroTask.launched_reachable htask).updated .starter ?_
          change ((s.task j).pc .starter).updated = true
          rw [ha.2]
          rfl
    | startsDone =>
        refine hbegun j ?_
        rw [show s.pc = .start L.length from ha]
        exact hj
    | pollReady i =>
        refine hbegun j ?_
        rw [ha.1]
        exact hj
    | pollNotReady i =>
        refine hbegun j ?_
        rw [ha.1]
        exact hj
    | sweepDone =>
        refine hbegun j ?_
        rw [show s.pc = .poll L.length from ha]
        exact hj
    | schedule =>
        refine hbegun j ?_
        rw [show s.pc = .yield from ha]
        exact hj
    | resume =>
        refine hbegun j ?_
        rw [show s.pc = .scheduled from ha]
        exact hj
    | _ => cases hj

/-! ## The end -/

/-- The function has returned or thrown. -/
def State.Returned {n : ℕ} (s : State n υ T E R) : Prop :=
  ∃ r, s.pc = .returned r

/-- The `co_await` ends, and the function returns. -/
theorem mayReach_of_await {s : State L.length υ T E R}
    (hs : (system υ F h L).Reachable s) {i : Fin L.length}
    (hpc : s.pc = .await i) :
    (system υ F h L).MayReach s State.Returned := by
  refine ((loops υ F h L).mayReach_result (i := i) hs (Or.inl rfl)
    ⟨rfl, hpc⟩).trans ?_
  rintro s' ⟨hsame, b, hb⟩
  have ha : (system υ F h L).Enabled s' (.awaitDone i b (L.get i)) :=
    ⟨hsame.trans hpc, hb⟩
  exact .of_next ha (.of_now ⟨_, rfl⟩)

/-- The coroutine looks at the tasks, or is about to do so again. -/
def Pc.sweeping : Pc R E → Bool
  | poll _ | yield | scheduled => true
  | _ => false

omit [Fintype υ] in
/-- A sweep goes on, and comes to a `co_await` if a task is ready. -/
theorem exists_sweeping {s : State L.length υ T E R}
    (hs : (system υ F h L).Reachable s) (hsweeping : s.pc.sweeping = true) :
    ∃ a, (system υ F h L).Enabled s a ∧ a.own = true ∧
      ((next F h s a).pc.sweeping = true ∨
        ∃ i : Fin L.length, (next F h s a).pc = .await i) := by
  cases hpc : s.pc with
  | poll i =>
      have hok := (swept_reachable hs).ok
      rw [hpc] at hok
      rcases Nat.lt_or_eq_of_le hok.1 with hi | rfl
      · cases hready : (s.task ⟨i, hi⟩).ready with
        | true =>
            exact ⟨.pollReady ⟨i, hi⟩, ⟨hpc, hready⟩, rfl,
              Or.inr ⟨⟨i, hi⟩, rfl⟩⟩
        | false =>
            exact ⟨.pollNotReady ⟨i, hi⟩, ⟨hpc, hready⟩, rfl, Or.inl rfl⟩
      · exact ⟨.sweepDone, hpc, rfl, Or.inl rfl⟩
  | yield => exact ⟨.schedule, hpc, rfl, Or.inl rfl⟩
  | scheduled => exact ⟨.resume, hpc, rfl, Or.inl rfl⟩
  | _ =>
      rw [hpc] at hsweeping
      cases hsweeping

omit [Fintype υ] in
/-- Once a task is ready the coroutine comes to a `co_await`. -/
theorem mayReach_await {s : State L.length υ T E R}
    (hs : (system υ F h L).Reachable s) (hsweeping : s.pc.sweeping = true)
    {k : Fin L.length} (hk : (s.task k).ready = true) :
    (system υ F h L).MayReach s fun s' =>
      ∃ i : Fin L.length, s'.pc = .await i := by
  have hstart : (system υ F h L).Reachable s ∧ (s.task k).ready = true ∧
      (s.pc.sweeping = true ∨ ∃ i : Fin L.length, s.pc = .await i) :=
    ⟨hs, hk, Or.inl hsweeping⟩
  refine TransitionSystem.MayReach.of_variant
    (I := fun s => (system υ F h L).Reachable s ∧ (s.task k).ready = true ∧
      (s.pc.sweeping = true ∨ ∃ i : Fin L.length, s.pc = .await i))
    (fun s => s.pc.remaining L.length k) ?_ hstart
  rintro s ⟨hs, hk, hsweeping | hawait⟩ hnot
  · obtain ⟨a, ha, hown, hnext⟩ := exists_sweeping hs hsweeping
    refine ⟨a, ha, ⟨.step hs ha trivial, ready_next hk, hnext⟩, ?_⟩
    have hstep := remaining_next (F := F) hk ha
    rw [hown, Bool.toNat_true] at hstep
    exact hstep
  · exact absurd hawait hnot

/-- A sweep leads to the end, since a task may get ready meanwhile. -/
theorem mayReach_of_sweeping {s : State L.length υ T E R}
    (hs : (system υ F h L).Reachable s) (hsweeping : s.pc.sweeping = true) :
    (system υ F h L).MayReach s State.Returned := by
  have hok := (swept_reachable hs).ok
  have hall : L ≠ [] ∧ Unconsumed s ∧ s.pc.begun L.length = L.length := by
    cases hpc : s.pc <;> rw [hpc] at hok hsweeping
    case poll => exact ⟨hok.2.1, hok.2.2.2, rfl⟩
    case yield => exact ⟨hok.1, hok.2, rfl⟩
    case scheduled => exact ⟨hok.1, hok.2, rfl⟩
    all_goals cases hsweeping
  obtain ⟨hne, hnone, hbegun⟩ := hall
  let k : Fin L.length := ⟨0, List.length_pos_iff.mpr hne⟩
  have hstarted : (s.task k).started = true := by
    refine started_reachable hs k ?_
    rw [hbegun]
    exact k.isLt
  have htask := (loops υ F h L).reachable hs k
  have hready := (loops υ F h L).mayReach_task k
    (CoroTask.mayReach_ready htask (L.get k) hstarted (hnone k))
  refine (hready.reachable hs).trans ?_
  rintro s' ⟨hs', hready, hsame⟩
  change s'.pc = s.pc at hsame
  refine (mayReach_await hs' (by rw [hsame]; exact hsweeping) hready).reachable
    hs' |>.trans ?_
  rintro s'' ⟨hs'', i, hi⟩
  exact mayReach_of_await hs'' hi

/-- The loop that starts the tasks comes to an end, and so does the function
after it. -/
theorem mayReach_of_start {s : State L.length υ T E R}
    (hs : (system υ F h L).Reachable s) {i : ℕ} (hpc : s.pc = .start i) :
    (system υ F h L).MayReach s State.Returned := by
  have hok := (swept_reachable hs).ok
  rw [hpc] at hok
  refine ((loops υ F h L).mayReach_startsDone hok.1 hs hpc).trans ?_
  rintro s ⟨hs, hpc⟩
  have ha : (system υ F h L).Enabled s .startsDone := hpc
  exact .of_next ha (mayReach_of_sweeping (.step hs ha trivial) rfl)

/-- From every state the function can go on until it returns. -/
theorem mayReach_returned {s : State L.length υ T E R}
    (hs : (system υ F h L).Reachable s) :
    (system υ F h L).MayReach s State.Returned := by
  cases hpc : s.pc with
  | testEmpty =>
      by_cases hL : L.length = 0
      · have ha : (system υ F h L).Enabled s .throwEmpty := ⟨hpc, hL⟩
        exact .of_next ha (.of_now ⟨_, rfl⟩)
      · have ha : (system υ F h L).Enabled s .notEmpty := ⟨hpc, hL⟩
        exact .of_next ha (mayReach_of_start (.step hs ha trivial) rfl)
  | start i => exact mayReach_of_start hs hpc
  | await i =>
      have hok := (swept_reachable hs).ok
      rw [hpc] at hok
      obtain ⟨k, rfl, -⟩ := hok
      exact mayReach_of_await hs hpc
  | returned r => exact .of_now ⟨r, hpc⟩
  | _ => exact mayReach_of_sweeping hs (by rw [hpc]; rfl)

/-- What holds in every state of every run.  What is returned is the result of
a ready task, and no task before it was ready when the last sweep began.  At
most one result is consumed, without suspending.  Once a task is ready the
coroutine takes few steps of its own, and in any case it can go on until the
function returns. -/
structure FirstReady (F : Combinator T R) (h : Handle noop)
    (L : List (Completion T E)) (s : State L.length υ T E R) : Prop where
  returned : ∀ r, s.pc = .returned r →
    L = [] ∧ r = .invalidArgument "when_any called with empty task list" ∨
      ∃ i : Fin L.length, r = F.settle i (L.get i) ∧
        (s.task i).ready = true ∧ ∀ j < i, s.atSweep j = false
  consumed : ∀ i j, (s.task i).consumer ≠ none →
    (s.task j).consumer ≠ none → i = j
  suspended : ∀ j, (s.task j).pc .consumer ≠ .suspended
  bounded : ∀ (k : Fin L.length) (l : List (Action L.length υ T E)),
    (s.task k).ready = true → (system υ F h L).Executes s l →
      l.countP Action.own ≤ L.length + k + 4
  returns : (system υ F h L).MayReach s State.Returned

omit [Fintype υ] in
/-- Nobody asks for two results. -/
theorem consumed_reachable {s : State L.length υ T E R}
    (hs : (system υ F h L).Reachable s) {i j : Fin L.length}
    (hi : (s.task i).consumer ≠ none) (hj : (s.task j).consumer ≠ none) :
    i = j := by
  have hwon : ∀ k, Won s k → i = j := by
    intro k hk
    have hik : i = k := by_contra fun hne => hi (hk.others i hne)
    have hjk : j = k := by_contra fun hne => hj (hk.others j hne)
    exact hik.trans hjk.symm
  have hok := (swept_reachable hs).ok
  cases hpc : s.pc <;> rw [hpc] at hok
  case testEmpty => exact absurd (hok i) hi
  case start => exact absurd (hok.2.2 i) hi
  case poll => exact absurd (hok.2.2.2 i) hi
  case await =>
      obtain ⟨k, -, hk⟩ := hok
      exact hwon k hk
  case yield => exact absurd (hok.2 i) hi
  case scheduled => exact absurd (hok.2 i) hi
  case returned =>
      rcases hok with ⟨rfl, -⟩ | ⟨k, -, hk⟩
      · exact i.elim0
      · exact hwon k hk

/-- `when_any` returns the result of a task that was among the first to get
ready, and nothing else, whenever the tasks complete. -/
theorem firstReady_of_reachable {s : State L.length υ T E R}
    (hs : (system υ F h L).Reachable s) : FirstReady F h L s where
  returned := by
    intro r hr
    have hok := (swept_reachable hs).ok
    rw [hr] at hok
    rcases hok with hempty | ⟨i, hi, hwon⟩
    · exact Or.inl hempty
    · exact Or.inr ⟨i, hi, hwon.ready, hwon.first⟩
  consumed _ _ hi hj := consumed_reachable hs hi hj
  suspended := by
    intro j hj
    have hprompt := prompt_reachable hs j
    rw [hj] at hprompt
    cases hprompt
  bounded k _ hk hl := (countP_own_le hk hl).trans (remaining_le k.isLt _)
  returns := mayReach_returned hs

/-! ## A run

The first of two tasks is still running when the second one is found ready. -/

def secondReady : List (Action 2 Empty ℕ Unit) :=
  [.notEmpty, .task 0 (.callStart .starter),
    .task 0 (.startFirst .starter .start), .task 0 (.notDone .starter .start),
    .task 0 (.schedule .starter .start), .nextStart 0,
    .task 1 (.callStart .starter), .task 1 (.startFirst .starter .start),
    .task 1 (.notDone .starter .start), .task 1 (.schedule .starter .start),
    .nextStart 1, .startsDone, .pollNotReady 0, .task 1 .resumeTask,
    .task 1 (.complete (.value 5)), .task 1 (.coroLock (.value 5)),
    .task 1 (.storeResult (.value 5)), .task 1 .storeReady, .pollReady 1,
    .task 1 .notifyAll, .task 1 .coroUnlock, .task 1 (.coAwait .consumer),
    .task 1 (.awaitReadyTrue .consumer), .task 1 (.lockState .consumer true),
    .task 1 (.testTrue .consumer true), .task 1 (.readResult .consumer true),
    .task 1 (.unlockState .consumer true (some (.value 5))),
    .awaitDone 1 true (.value 5)]

/-- The state that the run ends in. -/
def secondReturned : State 2 Empty ℕ Unit (AnyResult ℕ) :=
  (system Empty (whenAny ℕ) (CoroTask.sampleHandle 0)
    [.exception (), .value 5]).after (initialState 2 Empty ℕ Unit _)
      secondReady

theorem firstReady_secondReturned :
    secondReturned.pc = .returned (.value ⟨1, 5⟩) ∧
      FirstReady (whenAny ℕ) (CoroTask.sampleHandle 0)
        [.exception (), .value 5] secondReturned :=
  ⟨by decide, firstReady_of_reachable
    (TransitionSystem.Executes.reachable (.init rfl) (by decide))⟩

end WhenAny
end Ethreads
