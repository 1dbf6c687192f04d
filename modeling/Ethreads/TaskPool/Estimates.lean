import Ethreads.TaskPool.Dispatch

/-!
# Estimates

This module follows `available_at` through the calls of `add_task`.  Between
them other tasks are sent by `schedule_task`, workers take tasks from their
queues, and tasks that have run record how long they took.

The last fields of the state are not part of the program: the time of the
latest call, and for each worker the time until which the work queued on it by
`add_task` is estimated to last.  The work of a call begins when the work
before it has ended, but not before the call, and lasts as long as recorded.
-/

namespace Ethreads
namespace TaskPool
namespace Estimates

open Dispatch

variable {n : ℕ} {K T : Type*}

structure State (n : ℕ) (K T : Type*) where
  scheduler : Scheduler n K T
  clock : ℤ
  queuedUntil : Fin n → ℤ

inductive Action (n : ℕ) (K T : Type*)
  | addTask (task : T) (funcPtr : K) (now : ℤ)
  | scheduleTask (task : T) (now : ℤ)
  | receive (w : Fin n)
  | record (funcPtr : K) (duration : ℤ)
  deriving DecidableEq, Repr

/-- The time at which a worker is expected to be available. -/
def State.availableAt (s : State n K T) (w : Fin n) : ℤ :=
  (s.scheduler.workers w).availableAt

/-- The duration that `add_task` finds for a function. -/
def State.duration (s : State n K T) (funcPtr : K) : ℤ :=
  (s.scheduler.taskDurations funcPtr).getD 0

/-- The queue of the worker has grown. -/
def Receives (s s' : Scheduler n K T) (w : Fin n) : Prop :=
  (s.workers w).queue.length < (s'.workers w).queue.length

instance (s s' : Scheduler n K T) (w : Fin n) : Decidable (Receives s s' w) :=
  inferInstanceAs (Decidable (_ < _))

/-- A worker takes the first task from its queue. -/
def receive (s : Scheduler n K T) (w : Fin n) : Scheduler n K T :=
  { s with
    workers := Function.update s.workers w
      { s.workers w with queue := (s.workers w).queue.tail } }

/-- When a step may be taken.  The times of the calls do not decrease, and the
recorded durations are not negative. -/
def Enabled (s : State n K T) : Action n K T → Prop
  | .addTask _ _ now | .scheduleTask _ now => s.clock ≤ now
  | .receive w => (s.scheduler.workers w).queue.isEmpty = false
  | .record _ duration => 0 ≤ duration

instance (s : State n K T) (a : Action n K T) : Decidable (Enabled s a) := by
  cases a <;> dsimp only [Enabled] <;> infer_instance

/-- What the work queued on each worker comes to, when the tables before and
after a call at time `now` are `s` and `s'`. -/
def extend (queuedUntil : Fin n → ℤ) (s s' : Scheduler n K T)
    (now duration : ℤ) (w : Fin n) : ℤ :=
  if Receives s s' w then max now (queuedUntil w) + duration
  else queuedUntil w

theorem availableAt_update (s : State n K T) (w v : Fin n)
    (worker : Dispatch.WorkerInfo T) (clock : ℤ) (queuedUntil : Fin n → ℤ) :
    State.availableAt
        ⟨{ s.scheduler with
          workers := Function.update s.scheduler.workers w worker }, clock,
            queuedUntil⟩ v =
      if v = w then worker.availableAt else s.availableAt v := by
  by_cases hv : v = w
  · subst hv
    simp [State.availableAt]
  · simp [State.availableAt, hv]

section System

variable [DecidableEq K]

def next (s : State n K T) : Action n K T → State n K T
  | .addTask task funcPtr now =>
      { scheduler := addTask s.scheduler task funcPtr now
        clock := now
        queuedUntil := extend s.queuedUntil s.scheduler
          (addTask s.scheduler task funcPtr now) now (s.duration funcPtr) }
  | .scheduleTask task now =>
      { s with
        scheduler := (scheduleTask s.scheduler task now).1
        clock := now }
  | .receive w => { s with scheduler := receive s.scheduler w }
  | .record funcPtr duration =>
      { s with
        scheduler := { s.scheduler with
          taskDurations := Function.update s.scheduler.taskDurations funcPtr
            (some duration) } }

/-- The estimates cover the queued work, and no recorded duration is
negative. -/
structure Covers (s : State n K T) : Prop where
  queued : ∀ w, s.queuedUntil w ≤ s.availableAt w
  duration : ∀ funcPtr, 0 ≤ s.duration funcPtr

/-- The calls of a scheduler with any table of workers. -/
def system (n : ℕ) (K T : Type*) [DecidableEq K] :
    TransitionSystem (State n K T) (Action n K T) where
  Initial := Covers
  Enabled := Enabled
  next := next

/-- No worker looks free earlier after the step, the worker that gets a task
looks busy for its duration after what it was busy with before, and none looks
free before the end of the work queued on it. -/
structure KeepsEstimates (s : State n K T) (a : Action n K T) : Prop where
  notEarlier : ∀ w, s.availableAt w ≤ (next s a).availableAt w
  extended : ∀ task funcPtr now, a = .addTask task funcPtr now →
    ∀ w, Receives s.scheduler (next s a).scheduler w →
      max now (s.availableAt w) + s.duration funcPtr ≤
        (next s a).availableAt w
  covered : ∀ w, (next s a).queuedUntil w ≤ (next s a).availableAt w

/-- `add_task` finds a worker that is available, unless there are no workers at
all. -/
def FindsIdle (s : State n K T) : Action n K T → Prop
  | .addTask _ _ now => n = 0 ∨ ∃ w, s.availableAt w ≤ now
  | _ => True

instance (s : State n K T) (a : Action n K T) : Decidable (FindsIdle s a) := by
  cases a <;> dsimp only [FindsIdle] <;> infer_instance

instance (s : State n K T) (a : Action n K T) :
    Decidable ((system n K T).Enabled s a) :=
  inferInstanceAs (Decidable (Enabled s a))

/-! ## One step -/

theorem keepsEstimates_of_availableAt_eq {s : State n K T} {a : Action n K T}
    (hs : Covers s) (ha : ∀ task funcPtr now, a ≠ .addTask task funcPtr now)
    (havailable : (next s a).availableAt = s.availableAt)
    (hqueued : (next s a).queuedUntil = s.queuedUntil) :
    KeepsEstimates s a where
  notEarlier w := by rw [havailable]
  extended task funcPtr now h := absurd h (ha task funcPtr now)
  covered w := by
    rw [havailable, hqueued]
    exact hs.queued w

theorem availableAt_scheduleTask (s : State n K T) (task : T) (now : ℤ) :
    (next s (.scheduleTask task now)).availableAt = s.availableAt := by
  funext v
  by_cases hn : n = 0
  · exact (Fin.cast hn v).elim0
  · obtain ⟨w, -, -, hschedule⟩ := exists_leastLoaded s.scheduler now hn
    simp only [next, hschedule]
    rw [availableAt_update]
    split
    · rename_i hv
      rw [hv]
      rfl
    · rfl

theorem availableAt_receive (s : State n K T) (w : Fin n) :
    (next s (.receive w)).availableAt = s.availableAt := by
  funext v
  simp only [next, receive]
  rw [availableAt_update]
  split
  · rename_i hv
    rw [hv]
    rfl
  · rfl

/-- The worker that `add_task` chooses, and what it is expected to do. -/
theorem exists_availableAt_addTask (s : State n K T) (task : T) (funcPtr : K)
    (now : ℤ) (hn : n ≠ 0) :
    ∃ w, IsLeastLoaded s.scheduler now w ∧
      (∀ v, Receives s.scheduler
        (next s (.addTask task funcPtr now)).scheduler v ↔ v = w) ∧
      ∀ v, (next s (.addTask task funcPtr now)).availableAt v =
        if v = w then now + s.duration funcPtr else s.availableAt v := by
  obtain ⟨w, hw, hadd, -⟩ := exists_leastLoaded s.scheduler now hn
  refine ⟨w, hw, fun v => ?_, fun v => ?_⟩
  · simp only [next, hadd, Receives]
    by_cases hv : v = w
    · subst hv
      simp [WorkerInfo.send]
    · simp [hv]
  · simp only [next, hadd]
    exact availableAt_update s w v _ now _

theorem queuedUntil_addTask {s : State n K T} {task : T} {funcPtr : K}
    {now : ℤ} {w : Fin n} (hreceives : ∀ v, Receives s.scheduler
      (next s (.addTask task funcPtr now)).scheduler v ↔ v = w) (v : Fin n) :
    (next s (.addTask task funcPtr now)).queuedUntil v =
      if v = w then max now (s.queuedUntil v) + s.duration funcPtr
      else s.queuedUntil v :=
  if_congr (hreceives v) rfl rfl

theorem keepsEstimates_addTask {s : State n K T} (hs : Covers s) (task : T)
    (funcPtr : K) (now : ℤ) (hidle : n = 0 ∨ ∃ w, s.availableAt w ≤ now) :
    KeepsEstimates s (.addTask task funcPtr now) := by
  by_cases hn : n = 0
  · exact ⟨fun w => (Fin.cast hn w).elim0,
      fun _ _ _ _ w => (Fin.cast hn w).elim0, fun w => (Fin.cast hn w).elim0⟩
  · obtain ⟨w, hw, hreceives, havailable⟩ :=
      exists_availableAt_addTask s task funcPtr now hn
    have hle : s.availableAt w ≤ now := by
      cases hw with
      | idle hload _ => exact hload
      | least hbusy _ _ =>
          obtain ⟨v, hv⟩ := hidle.resolve_left hn
          exact absurd hv (hbusy v).not_ge
    have hduration := hs.duration funcPtr
    refine ⟨fun v => ?_, ?_, fun v => ?_⟩
    · rw [havailable]
      split
      · rename_i hv
        rw [hv]
        omega
      · exact le_rfl
    · rintro _ _ _ ⟨⟩ v hv
      obtain rfl := (hreceives v).mp hv
      rw [havailable, if_pos rfl, max_eq_left hle]
    · rw [havailable, queuedUntil_addTask hreceives]
      split
      · rename_i hv
        rw [hv, max_eq_left ((hs.queued w).trans hle)]
      · exact hs.queued v

/-- On the other branch the work that the worker is busy with is lost from its
estimate. -/
theorem not_keepsEstimates_addTask {s : State n K T} {task : T} {funcPtr : K}
    {now : ℤ} (hn : n ≠ 0) (hbusy : ∀ w, now < s.availableAt w) :
    ¬KeepsEstimates s (.addTask task funcPtr now) := by
  intro hkeeps
  obtain ⟨w, -, hreceives, havailable⟩ :=
    exists_availableAt_addTask s task funcPtr now hn
  have hextended :=
    hkeeps.extended task funcPtr now rfl w ((hreceives w).mpr rfl)
  rw [havailable, if_pos rfl, max_eq_right (hbusy w).le] at hextended
  have hlt := hbusy w
  omega

theorem keepsEstimates_iff {s : State n K T} (hs : Covers s)
    (a : Action n K T) : KeepsEstimates s a ↔ FindsIdle s a := by
  cases a with
  | addTask task funcPtr now =>
      refine ⟨fun hkeeps => ?_, keepsEstimates_addTask hs task funcPtr now⟩
      by_contra hidle
      obtain ⟨hn, hnone⟩ := not_or.mp hidle
      exact not_keepsEstimates_addTask hn
        (fun w => lt_of_not_ge fun hw => hnone ⟨w, hw⟩) hkeeps
  | scheduleTask task now =>
      exact iff_of_true (keepsEstimates_of_availableAt_eq hs nofun
        (availableAt_scheduleTask s task now) rfl) trivial
  | receive w =>
      exact iff_of_true (keepsEstimates_of_availableAt_eq hs nofun
        (availableAt_receive s w) rfl) trivial
  | record funcPtr duration =>
      exact iff_of_true (keepsEstimates_of_availableAt_eq hs nofun rfl rfl)
        trivial

/-! ## Runs -/

theorem duration_next {s : State n K T} {a : Action n K T}
    (hs : ∀ funcPtr, 0 ≤ s.duration funcPtr) (ha : Enabled s a)
    (funcPtr : K) : 0 ≤ (next s a).duration funcPtr := by
  unfold State.duration
  cases a with
  | addTask task k now =>
      simp only [next, taskDurations_addTask]
      exact hs funcPtr
  | scheduleTask task now =>
      simp only [next, taskDurations_scheduleTask]
      exact hs funcPtr
  | receive w => exact hs funcPtr
  | record k d =>
      by_cases hk : funcPtr = k
      · subst hk
        have hd : 0 ≤ d := ha
        simpa [next] using hd
      · simp only [next, Function.update_of_ne hk]
        exact hs funcPtr

theorem covers_next {s : State n K T} {a : Action n K T} (hs : Covers s)
    (ha : Enabled s a) (hidle : FindsIdle s a) : Covers (next s a) where
  queued := ((keepsEstimates_iff hs a).mpr hidle).covered
  duration := duration_next hs.duration ha

/-- A run keeps the estimates in each of its steps if and only if every call of
`add_task` finds a worker that is available. -/
theorem keepsEstimates_iff_findsIdle {s₀ : State n K T}
    (h₀ : (system n K T).Initial s₀) (actions : List (Action n K T)) :
    ((system n K T).restrict KeepsEstimates).Executes s₀ actions ↔
      ((system n K T).restrict FindsIdle).Executes s₀ actions :=
  TransitionSystem.executes_restrict_congr Covers
    (fun _ a hs _ => keepsEstimates_iff hs a)
    (fun _ _ hs ha hidle => covers_next hs ha hidle) h₀ actions

end System

/-- Workers that are available from time 0 on, and functions that take ten
units of time. -/
def available (n : ℕ) : State n Unit ℕ where
  scheduler := ⟨fun _ => ⟨[], 0⟩, fun _ => some 10⟩
  clock := 0
  queuedUntil := fun _ => 0

theorem covers_available (n : ℕ) : Covers (available n) where
  queued _ := le_rfl
  duration _ := show (0 : ℤ) ≤ 10 by decide

/-- Two tasks at once, and a third one when the first worker is available
again. -/
def threeTasks : List (Action 2 Unit ℕ) :=
  [.addTask 7 () 0, .addTask 8 () 0, .receive 0, .record () 12,
    .addTask 9 () 10]

theorem keepsEstimates_threeTasks :
    ((system 2 Unit ℕ).restrict KeepsEstimates).Executes (available 2)
      threeTasks :=
  (keepsEstimates_iff_findsIdle (covers_available 2) threeTasks).mpr
    (by decide)

/-- Two tasks at once for one worker: after the second call the worker is
expected to be available when the first task ends. -/
theorem not_forall_keepsEstimates :
    ¬∀ (n : ℕ) (s₀ : State n Unit ℕ), (system n Unit ℕ).Initial s₀ →
      ∀ actions, (system n Unit ℕ).Executes s₀ actions →
        ((system n Unit ℕ).restrict KeepsEstimates).Executes s₀ actions := by
  intro hall
  obtain ⟨-, ⟨-, hkeeps⟩, -⟩ := hall 1 (available 1) (covers_available 1)
    [.addTask 7 () 0, .addTask 8 () 0] (by decide)
  exact not_keepsEstimates_addTask Nat.one_ne_zero (by decide) hkeeps

end Estimates
end TaskPool
end Ethreads
