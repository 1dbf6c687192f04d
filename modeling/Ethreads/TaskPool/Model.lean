import Ethreads.Support.TransitionSystem
import Mathlib.Data.Fin.Basic
import Mathlib.Data.List.FinRange

/-!
# The task pool

This module models the pool of task workers of `task_scheduler`: `add_task` of
`include/task_scheduler.hpp`, `schedule_task` of `src/coro_scheduler.cpp`, and
`worker` and `~task_scheduler` of `src/task_scheduler.cpp`.

Every call of `add_task` or `schedule_task` is an agent, so any number of
threads, coroutines and tasks may call; the task of a call is represented by
the call.  The queues are unbounded channels, so `send` does not wait, and
what a call does under `access_mutex` is one step, as is a call of
`receive_for`.  An exception that leaves a task on a worker ends the program.
The shutdown of the other services is one step.
-/

namespace Ethreads
namespace TaskPool

/-- What a call submits: the promise-setting wrapper of `add_task`, with the
address under which its duration is recorded, the task of `run_blocking`, which
reschedules its coroutine, or any other function. -/
inductive Job (K : Type*)
  | addTask (funcPtr : K)
  | runBlocking
  | scheduleTask
  deriving DecidableEq, Repr

/-- The calls, and what their functions return or throw. -/
structure Config (C K V E : Type*) where
  job : C → Job K
  outcome : C → Except E V

/-- Where a worker stands in its loop, or in a task that it runs. -/
inductive WorkerPc (C : Type*)
  | loadFlag
  | receiveFor
  | invoke (c : C)
  | invoked (c : C) (start : ℕ)
  | record (c : C) (start : ℕ)
  | isClosed
  | exited
  deriving DecidableEq, Repr

structure WorkerInfo (C : Type*) where
  pc : WorkerPc C
  queue : List C
  closed : Bool
  availableAt : ℕ
  deriving DecidableEq, Repr

/-- Where a call stands.  The flag of `returned` tells whether it has passed
its task on or run it. -/
inductive CallPc
  | idle
  | entered
  | readClock (now : ℕ)
  | inline
  | invokedInline
  | returned (accepted : Bool)
  | sendThrew
  | taskThrew
  deriving DecidableEq, Repr

inductive DestructorPc
  | idle
  | services
  | closing (k : ℕ)
  | joining (k : ℕ)
  | joined
  deriving DecidableEq, Repr

/-- The pool of `n` workers, the promises and coroutines of the calls, and how
often the function of each call has been run. -/
structure State (n : ℕ) (C K V E : Type*) where
  workers : Fin n → WorkerInfo C
  taskDurations : K → Option ℕ
  shuttingDown : Bool
  clock : ℕ
  call : C → CallPc
  destructor : DestructorPc
  terminated : Bool
  runs : C → ℕ
  future : C → Option (Except E V)
  rescheduled : C → ℕ

/-- The pool after its constructor, at time `clock`. -/
def initialState (n : ℕ) (C K V E : Type*) (clock : ℕ) :
    State n C K V E where
  workers := fun _ => ⟨.loadFlag, [], false, clock⟩
  taskDurations := fun _ => none
  shuttingDown := false
  clock := clock
  call := fun _ => .idle
  destructor := .idle
  terminated := false
  runs := fun _ => 0
  future := fun _ => none
  rescheduled := fun _ => 0

variable {n : ℕ} {C K V E : Type*}

/-- The loop of both submission functions over the rest of the workers. -/
def pickFrom (workers : Fin n → WorkerInfo C) (now : ℕ) :
    Fin n → List (Fin n) → Fin n
  | leastBusy, [] => leastBusy
  | leastBusy, w :: ws =>
      if (workers w).availableAt ≤ now then w
      else pickFrom workers now
        (if (workers w).availableAt < (workers leastBusy).availableAt then w
          else leastBusy) ws

/-- The worker that a submission function chooses: the first that is
available, or else the one that is so first. -/
def pick (workers : Fin n → WorkerInfo C) (now : ℕ) : Option (Fin n) :=
  match List.finRange n with
  | [] => none
  | w :: ws => some (pickFrom workers now w (w :: ws))

/-- The time at which `add_task` expects a worker to be available again. -/
def State.expected (s : State n C K V E) (now : ℕ) : Job K → ℕ
  | .addTask funcPtr => now + (s.taskDurations funcPtr).getD 0
  | _ => now

/-! ## Atomic actions -/

inductive Action (n : ℕ) (C : Type*)
  | tick
  | enter (c : C)
  | readClock (c : C)
  | addNoWorkers (c : C)
  | addSend (c : C) (now : ℕ) (w : Fin n)
  | addSendThrows (c : C) (now : ℕ) (w : Fin n)
  | scheduleNoWorkers (c : C)
  | scheduleSend (c : C) (w : Fin n)
  | scheduleSendThrows (c : C) (w : Fin n)
  | invokeInline (c : C)
  | returnInline (c : C)
  | throwInline (c : C)
  | loadTrue (w : Fin n)
  | loadFalse (w : Fin n)
  | receive (w : Fin n) (c : C)
  | receiveNothing (w : Fin n)
  | closedTrue (w : Fin n)
  | closedFalse (w : Fin n)
  | invoke (w : Fin n) (c : C)
  | finish (w : Fin n) (c : C) (start : ℕ)
  | throw (w : Fin n) (c : C) (start : ℕ)
  | record (w : Fin n) (c : C) (start : ℕ)
  | storeFlag
  | shutdownServices
  | close (w : Fin n)
  | closedAll
  | join (w : Fin n)
  | joinedAll
  deriving DecidableEq, Repr

/-- A function that is run without a `try` throws. -/
def Config.Throws (cfg : Config C K V E) (c : C) : Prop :=
  cfg.job c = .scheduleTask ∧ (cfg.outcome c).toBool = false

/-- `schedule_coro_handle` may throw, as its queue may be closed. -/
def State.RescheduleThrows (cfg : Config C K V E) (s : State n C K V E)
    (c : C) : Prop :=
  cfg.job c = .runBlocking ∧ s.destructor ≠ .idle ∧ s.destructor ≠ .services

def Job.isAddTask : Job K → Bool
  | addTask _ => true
  | _ => false

def Enabled (cfg : Config C K V E) (s : State n C K V E) :
    Action n C → Prop
  | .tick => True
  | .enter c => s.call c = .idle
  | .readClock c => s.call c = .entered ∧ (cfg.job c).isAddTask = true
  | .addNoWorkers c => (∃ now, s.call c = .readClock now) ∧ n = 0
  | .addSend c now w =>
      s.call c = .readClock now ∧ pick s.workers now = some w ∧
        (s.workers w).closed = false
  | .addSendThrows c now w =>
      s.call c = .readClock now ∧ pick s.workers now = some w ∧
        (s.workers w).closed = true
  | .scheduleNoWorkers c =>
      s.call c = .entered ∧ (cfg.job c).isAddTask = false ∧ n = 0
  | .scheduleSend c w =>
      s.call c = .entered ∧ (cfg.job c).isAddTask = false ∧
        pick s.workers s.clock = some w ∧ (s.workers w).closed = false
  | .scheduleSendThrows c w =>
      s.call c = .entered ∧ (cfg.job c).isAddTask = false ∧
        pick s.workers s.clock = some w ∧ (s.workers w).closed = true
  | .invokeInline c => s.call c = .inline
  | .returnInline c => s.call c = .invokedInline ∧ ¬cfg.Throws c
  | .throwInline c =>
      s.call c = .invokedInline ∧ (cfg.Throws c ∨ s.RescheduleThrows cfg c)
  | .loadTrue w => (s.workers w).pc = .loadFlag ∧ s.shuttingDown = true
  | .loadFalse w => (s.workers w).pc = .loadFlag ∧ s.shuttingDown = false
  | .receive w c =>
      (s.workers w).pc = .receiveFor ∧ (s.workers w).queue.head? = some c
  | .receiveNothing w =>
      (s.workers w).pc = .receiveFor ∧ (s.workers w).queue = []
  | .closedTrue w => (s.workers w).pc = .isClosed ∧ (s.workers w).closed = true
  | .closedFalse w =>
      (s.workers w).pc = .isClosed ∧ (s.workers w).closed = false
  | .invoke w c => (s.workers w).pc = .invoke c
  | .finish w c start => (s.workers w).pc = .invoked c start ∧ ¬cfg.Throws c
  | .throw w c start =>
      (s.workers w).pc = .invoked c start ∧
        (cfg.Throws c ∨ s.RescheduleThrows cfg c)
  | .record w c start => (s.workers w).pc = .record c start
  | .storeFlag => s.destructor = .idle
  | .shutdownServices => s.destructor = .services
  | .close w => s.destructor = .closing w
  | .closedAll => s.destructor = .closing n
  | .join w => s.destructor = .joining w ∧ (s.workers w).pc = .exited
  | .joinedAll => s.destructor = .joining n

section Effects

variable [DecidableEq C] [DecidableEq K]

def State.workerTo (s : State n C K V E) (w : Fin n) (i : WorkerInfo C) :
    State n C K V E :=
  { s with workers := Function.update s.workers w i }

/-- The thread of a worker moves. -/
def State.threadTo (s : State n C K V E) (w : Fin n) (q : WorkerPc C) :
    State n C K V E :=
  s.workerTo w { s.workers w with pc := q }

/-- Call `c` moves to the program point `q`. -/
def State.callTo (s : State n C K V E) (c : C) (q : CallPc) :
    State n C K V E :=
  { s with call := Function.update s.call c q }

def State.run (s : State n C K V E) (c : C) : State n C K V E :=
  { s with runs := Function.update s.runs c (s.runs c + 1) }

/-- The task of a call goes on after its function: it sets the promise, or
reschedules the coroutine. -/
def State.report (cfg : Config C K V E) (s : State n C K V E) (c : C) :
    State n C K V E :=
  match cfg.job c with
  | .addTask _ =>
      { s with future := Function.update s.future c (some (cfg.outcome c)) }
  | .runBlocking =>
      { s with
        rescheduled := Function.update s.rescheduled c
          (s.rescheduled c + 1) }
  | .scheduleTask => s

def afterReport (c : C) (start : ℕ) : Job K → WorkerPc C
  | .addTask _ => .record c start
  | _ => .loadFlag

def State.recorded (s : State n C K V E) (start : ℕ) :
    Job K → K → Option ℕ
  | .addTask funcPtr =>
      Function.update s.taskDurations funcPtr (some (s.clock - start))
  | _ => s.taskDurations

def next (cfg : Config C K V E) (s : State n C K V E) :
    Action n C → State n C K V E
  | .tick => { s with clock := s.clock + 1 }
  | .enter c => s.callTo c .entered
  | .readClock c => s.callTo c (.readClock s.clock)
  | .addNoWorkers c => s.callTo c (.returned false)
  | .addSend c now w =>
      (s.workerTo w
        { s.workers w with
          queue := (s.workers w).queue ++ [c]
          availableAt := s.expected now (cfg.job c) }).callTo c
            (.returned true)
  | .addSendThrows c _ _ => s.callTo c .sendThrew
  | .scheduleNoWorkers c => s.callTo c .inline
  | .scheduleSend c w =>
      (s.workerTo w
        { s.workers w with queue := (s.workers w).queue ++ [c] }).callTo c
          (.returned true)
  | .scheduleSendThrows c _ => s.callTo c .sendThrew
  | .invokeInline c => (s.run c).callTo c .invokedInline
  | .returnInline c => (s.report cfg c).callTo c (.returned true)
  | .throwInline c => s.callTo c .taskThrew
  | .loadTrue w => s.threadTo w .exited
  | .loadFalse w => s.threadTo w .receiveFor
  | .receive w c =>
      s.workerTo w
        { s.workers w with
          pc := .invoke c
          queue := (s.workers w).queue.tail }
  | .receiveNothing w => s.threadTo w .isClosed
  | .closedTrue w => s.threadTo w .exited
  | .closedFalse w => s.threadTo w .loadFlag
  | .invoke w c => (s.run c).threadTo w (.invoked c s.clock)
  | .finish w c start =>
      (s.report cfg c).threadTo w (afterReport c start (cfg.job c))
  | .throw _ _ _ => { s with terminated := true }
  | .record w c start =>
      { s.threadTo w .loadFlag with
        taskDurations := s.recorded start (cfg.job c) }
  | .storeFlag => { s with shuttingDown := true, destructor := .services }
  | .shutdownServices => { s with destructor := .closing 0 }
  | .close w =>
      { s.workerTo w { s.workers w with closed := true } with
        destructor := .closing (w + 1) }
  | .closedAll => { s with destructor := .joining 0 }
  | .join w => { s with destructor := .joining (w + 1) }
  | .joinedAll => { s with destructor := .joined }

def system (cfg : Config C K V E) (n : ℕ) :
    TransitionSystem (State n C K V E) (Action n C) where
  Initial s := ∃ clock, s = initialState n C K V E clock
  Enabled s a := s.terminated = false ∧ Enabled cfg s a
  next := next cfg

end Effects

/-! ## Evaluating runs -/

section Decide

variable [DecidableEq C] [DecidableEq K]

instance (cfg : Config C K V E) (c : C) : Decidable (cfg.Throws c) :=
  inferInstanceAs (Decidable (_ ∧ _))

instance (cfg : Config C K V E) (s : State n C K V E) (c : C) :
    Decidable (s.RescheduleThrows cfg c) :=
  inferInstanceAs (Decidable (_ ∧ _ ∧ _))

instance (p : CallPc) : Decidable (∃ now, p = .readClock now) :=
  match p with
  | .readClock now => isTrue ⟨now, rfl⟩
  | .idle | .entered | .inline | .invokedInline | .returned _
  | .sendThrew | .taskThrew => isFalse nofun

instance (cfg : Config C K V E) (s : State n C K V E) (a : Action n C) :
    Decidable ((system cfg n).Enabled s a) := by
  refine @instDecidableAnd _ _ _ ?_
  cases a <;> dsimp only [Enabled] <;> infer_instance

end Decide

end TaskPool
end Ethreads
