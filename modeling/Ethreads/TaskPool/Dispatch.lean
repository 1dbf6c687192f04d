import Ethreads.Support.LeastLoaded
import Ethreads.TaskPool.Model
import Mathlib.Algebra.Order.Group.Unbundled.Int

/-!
# Dispatching

This module models how `add_task` of `include/task_scheduler.hpp` and
`schedule_task` of `src/coro_scheduler.cpp` hand a task to a worker, for any
table of workers.  The time that a call reads from the clock is an argument of
it.  The steps of the task pool that send a task are these functions.
-/

namespace Ethreads
namespace TaskPool
namespace Dispatch

/-- What the submission functions use of `worker_info`. -/
structure WorkerInfo (T : Type*) where
  queue : List T
  availableAt : ℤ
  deriving DecidableEq, Repr

/-- `queue->send`. -/
def WorkerInfo.send {T : Type*} (worker : WorkerInfo T) (task : T) :
    WorkerInfo T :=
  { worker with queue := worker.queue ++ [task] }

/-- What the submission functions use of `task_scheduler`. -/
structure Scheduler (n : ℕ) (K T : Type*) where
  workers : Fin n → WorkerInfo T
  taskDurations : K → Option ℤ

variable {n : ℕ} {K T : Type*}

/-- The loop of `add_task` over the rest of the workers, and what follows
it. -/
def addTaskFrom (workers : Fin n → WorkerInfo T) (task : T)
    (now taskDuration : ℤ) : Fin n → List (Fin n) → Fin n → WorkerInfo T
  | leastBusy, [] =>
      Function.update workers leastBusy
        { (workers leastBusy).send task with
          availableAt := now + taskDuration }
  | leastBusy, w :: ws =>
      if (workers w).availableAt ≤ now then
        Function.update workers w
          { (workers w).send task with availableAt := now + taskDuration }
      else
        addTaskFrom workers task now taskDuration
          (if (workers w).availableAt < (workers leastBusy).availableAt then w
            else leastBusy) ws

/-- `add_task`, from the time `now` on. -/
def addTask (s : Scheduler n K T) (task : T) (funcPtr : K) (now : ℤ) :
    Scheduler n K T :=
  let taskDuration := (s.taskDurations funcPtr).getD 0
  match List.finRange n with
  | [] => s
  | w :: ws =>
      { s with
        workers := addTaskFrom s.workers task now taskDuration w (w :: ws) }

/-- The loop of `schedule_task` over the rest of the workers, and what follows
it. -/
def scheduleTaskFrom (workers : Fin n → WorkerInfo T) (task : T) (now : ℤ) :
    Fin n → List (Fin n) → Fin n → WorkerInfo T
  | leastBusy, [] =>
      Function.update workers leastBusy ((workers leastBusy).send task)
  | leastBusy, w :: ws =>
      if (workers w).availableAt ≤ now then
        Function.update workers w ((workers w).send task)
      else
        scheduleTaskFrom workers task now
          (if (workers w).availableAt < (workers leastBusy).availableAt then w
            else leastBusy) ws

/-- `schedule_task`, with the task if it is run inline. -/
def scheduleTask (s : Scheduler n K T) (task : T) (now : ℤ) :
    Scheduler n K T × Option T :=
  match List.finRange n with
  | [] => (s, some task)
  | w :: ws =>
      ({ s with workers := scheduleTaskFrom s.workers task now w (w :: ws) },
        none)

theorem taskDurations_addTask (s : Scheduler n K T) (task : T) (funcPtr : K)
    (now : ℤ) : (addTask s task funcPtr now).taskDurations =
      s.taskDurations := by
  unfold addTask
  cases List.finRange n <;> rfl

theorem taskDurations_scheduleTask (s : Scheduler n K T) (task : T) (now : ℤ) :
    (scheduleTask s task now).1.taskDurations = s.taskDurations := by
  unfold scheduleTask
  cases List.finRange n <;> rfl

/-! ## The choice of a worker -/

/-- The loads that the loops compare. -/
def load (workers : Fin n → WorkerInfo T) (w : Fin n) : ℤ :=
  (workers w).availableAt

theorem addTaskFrom_eq (workers : Fin n → WorkerInfo T) (task : T)
    (now taskDuration : ℤ) (leastBusy : Fin n) (ws : List (Fin n)) :
    addTaskFrom workers task now taskDuration leastBusy ws =
      Function.update workers
        (LeastLoaded.search (load workers) now leastBusy ws)
        { (workers (LeastLoaded.search (load workers) now leastBusy ws)).send
            task with availableAt := now + taskDuration } := by
  induction ws generalizing leastBusy with
  | nil => rfl
  | cons w ws ih =>
      rw [addTaskFrom, LeastLoaded.search]
      by_cases hidle : (workers w).availableAt ≤ now
      · rw [if_pos hidle, if_pos (show load workers w ≤ now from hidle)]
      · rw [if_neg hidle, if_neg (show ¬load workers w ≤ now from hidle)]
        exact ih _

theorem scheduleTaskFrom_eq (workers : Fin n → WorkerInfo T) (task : T)
    (now : ℤ) (leastBusy : Fin n) (ws : List (Fin n)) :
    scheduleTaskFrom workers task now leastBusy ws =
      Function.update workers
        (LeastLoaded.search (load workers) now leastBusy ws)
        ((workers (LeastLoaded.search (load workers) now leastBusy ws)).send
          task) := by
  induction ws generalizing leastBusy with
  | nil => rfl
  | cons w ws ih =>
      rw [scheduleTaskFrom, LeastLoaded.search]
      by_cases hidle : (workers w).availableAt ≤ now
      · rw [if_pos hidle, if_pos (show load workers w ≤ now from hidle)]
      · rw [if_neg hidle, if_neg (show ¬load workers w ≤ now from hidle)]
        exact ih _

/-- The first worker that is available, or else the first of those that are so
earliest. -/
def IsLeastLoaded (s : Scheduler n K T) (now : ℤ) (w : Fin n) : Prop :=
  LeastLoaded.IsChoice (load s.workers) now w

/-- What both functions do with a table that has a worker. -/
theorem exists_leastLoaded (s : Scheduler n K T) (now : ℤ) (hn : n ≠ 0) :
    ∃ w, IsLeastLoaded s now w ∧
      (∀ (task : T) (funcPtr : K), addTask s task funcPtr now =
        { s with
          workers := Function.update s.workers w
            { (s.workers w).send task with
              availableAt :=
                now + (s.taskDurations funcPtr).getD 0 } }) ∧
      ∀ task : T, scheduleTask s task now =
        ({ s with
          workers := Function.update s.workers w ((s.workers w).send task) },
          none) := by
  obtain ⟨w, ws, hws⟩ := List.exists_cons_of_ne_nil
    (mt List.finRange_eq_nil_iff.mp hn)
  refine ⟨LeastLoaded.search (load s.workers) now w (w :: ws), ?_, ?_, ?_⟩
  · refine LeastLoaded.isChoice_search_cons ?_ fun v => ?_
    · rw [← hws]
      exact List.pairwise_lt_finRange n
    · rw [← hws]
      exact List.mem_finRange v
  · intro task funcPtr
    unfold addTask
    rw [hws]
    dsimp only
    rw [addTaskFrom_eq]
  · intro task
    unfold scheduleTask
    rw [hws]
    dsimp only
    rw [scheduleTaskFrom_eq]

/-- The queues after a call: the task is in the queue of worker `w`, and no
other queue has changed. -/
structure SendsTo (s s' : Scheduler n K T) (task : T) (w : Fin n) : Prop where
  sent : (s'.workers w).queue = (s.workers w).queue ++ [task]
  others : ∀ v, v ≠ w → (s'.workers v).queue = (s.workers v).queue

theorem SendsTo.of_update {s : Scheduler n K T} {w : Fin n} {task : T}
    {worker : WorkerInfo T} (hworker : worker.queue =
      (s.workers w).queue ++ [task]) :
    SendsTo s { s with workers := Function.update s.workers w worker } task
      w where
  sent := by
    change (Function.update s.workers w worker w).queue = _
    rw [Function.update_self, hworker]
  others v hv := by
    change (Function.update s.workers w worker v).queue = _
    rw [Function.update_of_ne hv]

/-- Both functions send their task to the least loaded worker, which is the
same for both. -/
theorem dispatch_leastLoaded (s : Scheduler (n + 1) K T) (now : ℤ)
    (task task' : T) (funcPtr : K) :
    ∃ w, (∀ v, IsLeastLoaded s now v ↔ v = w) ∧
      SendsTo s (addTask s task funcPtr now) task w ∧
      SendsTo s (scheduleTask s task' now).1 task' w ∧
      (scheduleTask s task' now).2 = none := by
  obtain ⟨w, hw, hadd, hschedule⟩ :=
    exists_leastLoaded s now (Nat.succ_ne_zero n)
  refine ⟨w, fun v => ⟨fun hv => hv.unique hw, fun hv => hv ▸ hw⟩, ?_, ?_, ?_⟩
  · rw [hadd]
    exact .of_update rfl
  · rw [hschedule]
    exact .of_update rfl
  · rw [hschedule]

/-! ## The steps of the task pool -/

section Pool

variable {C V E : Type*}

def ofPool (s : State n C K V E) : Scheduler n K C where
  workers w := ⟨(s.workers w).queue, (s.workers w).availableAt⟩
  taskDurations k := (s.taskDurations k).map Nat.cast

theorem pickFrom_eq (workers : Fin n → TaskPool.WorkerInfo C) (now : ℕ)
    (leastBusy : Fin n) (ws : List (Fin n)) :
    pickFrom workers now leastBusy ws =
      LeastLoaded.search (fun w => (workers w).availableAt) now leastBusy
        ws := by
  induction ws generalizing leastBusy with
  | nil => rfl
  | cons w ws ih =>
      rw [pickFrom, LeastLoaded.search, ih]

/-- The pool picks the least loaded worker. -/
theorem isLeastLoaded_of_pick {s : State n C K V E} {now : ℕ} {w : Fin n}
    (hpick : pick s.workers now = some w) :
    IsLeastLoaded (ofPool s) now w := by
  unfold pick at hpick
  split at hpick
  · exact nomatch hpick
  · rename_i v vs hvs
    have hw := Option.some.inj hpick
    have hsearch := LeastLoaded.search_strictMono Int.natCast_strictMono
      (fun w => (s.workers w).availableAt) now v (v :: vs)
    rw [pickFrom_eq, ← hsearch] at hw
    rw [← hw]
    refine LeastLoaded.isChoice_search_cons ?_ fun u => ?_
    · rw [← hvs]
      exact List.pairwise_lt_finRange n
    · rw [← hvs]
      exact List.mem_finRange u

theorem ofPool_workerTo (s : State n C K V E) (w : Fin n)
    (i : TaskPool.WorkerInfo C) :
    ofPool (s.workerTo w i) =
      { ofPool s with
        workers := Function.update (ofPool s).workers w
          ⟨i.queue, i.availableAt⟩ } := by
  unfold ofPool
  congr 1
  funext v
  by_cases hv : v = w
  · subst hv
    simp only [State.workerTo, Function.update_self]
  · simp only [State.workerTo, Function.update_of_ne hv]

variable [DecidableEq C] [DecidableEq K]

theorem ofPool_addSend {cfg : Config C K V E} {s : State n C K V E} {c : C}
    {now : ℕ} {w : Fin n} {funcPtr : K} (hjob : cfg.job c = .addTask funcPtr)
    (ha : Enabled cfg s (.addSend c now w)) :
    ofPool (next cfg s (.addSend c now w)) =
      addTask (ofPool s) c funcPtr now := by
  obtain ⟨v, hv, hadd, -⟩ := exists_leastLoaded (ofPool s) now
    (fun hn => (Fin.cast hn w).elim0)
  obtain rfl := hv.unique (isLeastLoaded_of_pick ha.2.1)
  rw [hadd]
  refine (ofPool_workerTo s v _).trans ?_
  rw [hjob]
  cases hduration : s.taskDurations funcPtr <;>
    simp [ofPool, WorkerInfo.send, State.expected, hduration]

theorem ofPool_scheduleSend {cfg : Config C K V E} {s : State n C K V E}
    {c : C} {w : Fin n} (ha : Enabled cfg s (.scheduleSend c w)) :
    ofPool (next cfg s (.scheduleSend c w)) =
      (scheduleTask (ofPool s) c s.clock).1 := by
  obtain ⟨v, hv, -, hschedule⟩ := exists_leastLoaded (ofPool s) s.clock
    (fun hn => (Fin.cast hn w).elim0)
  obtain rfl := hv.unique (isLeastLoaded_of_pick ha.2.2.1)
  rw [hschedule]
  exact ofPool_workerTo s v _

end Pool

end Dispatch
end TaskPool
end Ethreads
