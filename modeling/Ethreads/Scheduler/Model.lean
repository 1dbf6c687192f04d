import Ethreads.Support.TransitionSystem
import Mathlib.Data.Fintype.Basic

/-!
# The coroutine scheduler

This module models `src/coro_scheduler.cpp`, that is `coro_worker`,
`task_scheduler::schedule_coro_handle` and `shutdown_coro_workers`, together
with the part of `~task_scheduler` that leads to it.

Every load, store, queue operation and notification is one step, and
`coro_work_cv.wait` releases `coro_work_mutex` and joins the wait set in one
step.  A call of `schedule_coro_handle` is an agent of its own, so any number
of threads may call, from inside a resumed coroutine or not.  A handle is
represented by the call that submits it; `resumed` counts, for each call, how
often its handle has been resumed on its behalf.  Whether a coroutine is done
may change at any time.  Memory is taken to be available for every
`push_back`.
-/

namespace Ethreads
namespace Scheduler

/-- The handles that the calls submit, as addresses, and the address of
`std::noop_coroutine()`. -/
structure Config (C : Type*) where
  address : C → ℕ
  noopAddress : ℕ

inductive WorkerPc (C : Type*)
  | loadFlag
  | popOwn
  | tryReceive
  | found (c : C)
  | resuming
  | seekVictim
  | steal (start i : ℕ)
  | stolen (c : C) (start i : ℕ)
  | lockWork
  | enterWait
  | waiting
  | notified
  | woken
  | unlockWork
  | exited
  deriving DecidableEq, Repr

/-- Where a call stands in `schedule_coro_handle`.  The flag of `inline` says
whether `done()` is tested once more. -/
inductive CallPc
  | idle
  | validate
  | loadFlag
  | inline (recheck : Bool)
  | resuming
  | checkWorkers
  | loadClosed
  | push
  | notify
  | returned
  | rejected
  | threw
  deriving DecidableEq, Repr

inductive DestructorPc
  | alive
  | notifyAll
  | close
  | join (i : ℕ)
  | cleared
  deriving DecidableEq, Repr

/-- The scheduler with `k` workers.  `localQueue` holds the workers' own
deques by worker id. -/
structure State (k : ℕ) (C : Type*) where
  shuttingDown : Bool
  externalCoroQueue : List C
  closed : Bool
  coroWorkMutex : Option (Fin k)
  coroWorkersEmpty : Bool
  localQueue : ℕ → List C
  worker : Fin k → WorkerPc C
  call : C → CallPc
  destructor : DestructorPc
  isDone : ℕ → Bool
  resumed : C → ℕ

def initialState (k : ℕ) (C : Type*) (isDone : ℕ → Bool) : State k C where
  shuttingDown := false
  externalCoroQueue := []
  closed := false
  coroWorkMutex := none
  coroWorkersEmpty := false
  localQueue := fun _ => []
  worker := fun _ => .loadFlag
  call := fun _ => .idle
  destructor := .alive
  isDone := isDone
  resumed := fun _ => 0

variable {k : ℕ} {C : Type*}

/-- The checks at the top of `schedule_coro_handle`. -/
def validToSchedule (cfg : Config C) (s : State k C) (c : C) : Bool :=
  cfg.address c != 0 && !s.isDone (cfg.address c) &&
    decide (0x1000 ≤ cfg.address c)

/-- The checks of a worker before it resumes a handle. -/
def validToResume (cfg : Config C) (s : State k C) (c : C) : Bool :=
  cfg.address c != 0 && cfg.address c != cfg.noopAddress &&
    !s.isDone (cfg.address c)

/-! ## Atomic actions -/

inductive Action (k : ℕ) (C : Type*)
  | enterLoop (w : Fin k)
  | leaveLoop (w : Fin k)
  | popOwn (w : Fin k) (c : C)
  | popOwnEmpty (w : Fin k)
  | receive (w : Fin k) (c : C)
  | receiveEmpty (w : Fin k)
  | resume (w : Fin k) (c : C)
  | discard (w : Fin k) (c : C)
  | suspend (w : Fin k)
  | chooseStart (w : Fin k) (start : ℕ)
  | seekNobody (w : Fin k)
  | skipSelf (w : Fin k) (start i : ℕ)
  | steal (w : Fin k) (start i : ℕ) (c : C)
  | stealEmpty (w : Fin k) (start i : ℕ)
  | stealDone (w : Fin k) (start i : ℕ)
  | resumeStolen (w : Fin k) (c : C) (start i : ℕ)
  | discardStolen (w : Fin k) (c : C) (start i : ℕ)
  | lockWork (w : Fin k)
  | wait (w : Fin k)
  | wake (w : Fin k)
  | relock (w : Fin k)
  | unlockWork (w : Fin k)
  | call (c : C)
  | reject (c : C)
  | accept (c : C)
  | loadSet (c : C)
  | loadClear (c : C)
  | resumeInline (c : C) (recheck : Bool)
  | discardInline (c : C)
  | suspendInline (c : C)
  | workersGone (c : C)
  | workersPresent (c : C)
  | sendThrows (c : C)
  | sendOpen (c : C)
  | push (c : C)
  | notifyOne (c : C) (w : Fin k)
  | notifyNobody (c : C)
  | storeShuttingDown
  | notifyAll
  | close
  | join (w : Fin k)
  | clear
  | setDone (a : ℕ) (b : Bool)
  deriving DecidableEq, Repr

/-- When a step may be taken.  `pop` takes from the back of a worker's own
deque and `steal` from the front of another's. -/
def Enabled (cfg : Config C) (s : State k C) : Action k C → Prop
  | .enterLoop w => s.worker w = .loadFlag ∧ s.shuttingDown = false
  | .leaveLoop w => s.worker w = .loadFlag ∧ s.shuttingDown = true
  | .popOwn w c =>
      s.worker w = .popOwn ∧ (s.localQueue w).getLast? = some c
  | .popOwnEmpty w => s.worker w = .popOwn ∧ s.localQueue w = []
  | .receive w c =>
      s.worker w = .tryReceive ∧ s.externalCoroQueue.head? = some c
  | .receiveEmpty w =>
      s.worker w = .tryReceive ∧ s.externalCoroQueue = []
  | .resume w c =>
      s.worker w = .found c ∧ validToResume cfg s c = true
  | .discard w c =>
      s.worker w = .found c ∧ validToResume cfg s c = false
  | .suspend w => s.worker w = .resuming
  | .chooseStart w start =>
      s.worker w = .seekVictim ∧ 1 < k ∧ start < k
  | .seekNobody w => s.worker w = .seekVictim ∧ k ≤ 1
  | .skipSelf w start i =>
      s.worker w = .steal start i ∧ i < k ∧ (start + i) % k = w
  | .steal w start i c =>
      s.worker w = .steal start i ∧ i < k ∧ (start + i) % k ≠ w ∧
        (s.localQueue ((start + i) % k)).head? = some c
  | .stealEmpty w start i =>
      s.worker w = .steal start i ∧ i < k ∧ (start + i) % k ≠ w ∧
        s.localQueue ((start + i) % k) = []
  | .stealDone w start i => s.worker w = .steal start i ∧ k ≤ i
  | .resumeStolen w c start i =>
      s.worker w = .stolen c start i ∧ validToResume cfg s c = true
  | .discardStolen w c start i =>
      s.worker w = .stolen c start i ∧ validToResume cfg s c = false
  | .lockWork w => s.worker w = .lockWork ∧ s.coroWorkMutex = none
  | .wait w => s.worker w = .enterWait
  | .wake w => s.worker w = .waiting
  | .relock w =>
      (s.worker w = .notified ∨ s.worker w = .woken) ∧
        s.coroWorkMutex = none
  | .unlockWork w => s.worker w = .unlockWork
  | .call c => s.call c = .idle
  | .reject c => s.call c = .validate ∧ validToSchedule cfg s c = false
  | .accept c => s.call c = .validate ∧ validToSchedule cfg s c = true
  | .loadSet c => s.call c = .loadFlag ∧ s.shuttingDown = true
  | .loadClear c => s.call c = .loadFlag ∧ s.shuttingDown = false
  | .resumeInline c recheck =>
      s.call c = .inline recheck ∧
        (recheck = true → s.isDone (cfg.address c) = false)
  | .discardInline c =>
      s.call c = .inline true ∧ s.isDone (cfg.address c) = true
  | .suspendInline c => s.call c = .resuming
  | .workersGone c => s.call c = .checkWorkers ∧ s.coroWorkersEmpty = true
  | .workersPresent c =>
      s.call c = .checkWorkers ∧ s.coroWorkersEmpty = false
  | .sendThrows c => s.call c = .loadClosed ∧ s.closed = true
  | .sendOpen c => s.call c = .loadClosed ∧ s.closed = false
  | .push c => s.call c = .push
  | .notifyOne c w => s.call c = .notify ∧ s.worker w = .waiting
  | .notifyNobody c => s.call c = .notify ∧ ∀ w, s.worker w ≠ .waiting
  | .storeShuttingDown => s.destructor = .alive
  | .notifyAll => s.destructor = .notifyAll
  | .close => s.destructor = .close
  | .join w => s.destructor = .join w ∧ s.worker w = .exited
  | .clear => s.destructor = .join k
  | .setDone _ _ => True

instance [DecidableEq C] (cfg : Config C) (s : State k C) (a : Action k C) :
    Decidable (Enabled cfg s a) := by
  cases a <;> dsimp only [Enabled] <;> infer_instance

def State.workerTo (s : State k C) (w : Fin k) (q : WorkerPc C) :
    State k C :=
  { s with worker := Function.update s.worker w q }

def WorkerPc.mark : WorkerPc C → WorkerPc C
  | waiting => notified
  | p => p

variable [DecidableEq C]

def State.callTo (s : State k C) (c : C) (q : CallPc) : State k C :=
  { s with call := Function.update s.call c q }

def State.countResumed (s : State k C) (c : C) : State k C :=
  { s with resumed := Function.update s.resumed c (s.resumed c + 1) }

def next (s : State k C) : Action k C → State k C
  | .enterLoop w => s.workerTo w .popOwn
  | .leaveLoop w => s.workerTo w .exited
  | .popOwn w c =>
      { s.workerTo w (.found c) with
        localQueue := Function.update s.localQueue w
          (s.localQueue w).dropLast }
  | .popOwnEmpty w => s.workerTo w .tryReceive
  | .receive w c =>
      { s.workerTo w (.found c) with
        externalCoroQueue := s.externalCoroQueue.tail }
  | .receiveEmpty w => s.workerTo w .seekVictim
  | .resume w c => (s.workerTo w .resuming).countResumed c
  | .discard w _ => s.workerTo w .loadFlag
  | .suspend w => s.workerTo w .loadFlag
  | .chooseStart w start => s.workerTo w (.steal start 0)
  | .seekNobody w => s.workerTo w .lockWork
  | .skipSelf w start i => s.workerTo w (.steal start (i + 1))
  | .steal w start i c =>
      { s.workerTo w (.stolen c start i) with
        localQueue := Function.update s.localQueue ((start + i) % k)
          (s.localQueue ((start + i) % k)).tail }
  | .stealEmpty w start i => s.workerTo w (.steal start (i + 1))
  | .stealDone w _ _ => s.workerTo w .lockWork
  | .resumeStolen w c _ _ => (s.workerTo w .resuming).countResumed c
  | .discardStolen w _ start i => s.workerTo w (.steal start (i + 1))
  | .lockWork w => { s.workerTo w .enterWait with coroWorkMutex := some w }
  | .wait w => { s.workerTo w .waiting with coroWorkMutex := none }
  | .wake w => s.workerTo w .woken
  | .relock w => { s.workerTo w .unlockWork with coroWorkMutex := some w }
  | .unlockWork w => { s.workerTo w .loadFlag with coroWorkMutex := none }
  | .call c => s.callTo c .validate
  | .reject c => s.callTo c .rejected
  | .accept c => s.callTo c .loadFlag
  | .loadSet c => s.callTo c (.inline true)
  | .loadClear c => s.callTo c .checkWorkers
  | .resumeInline c _ => (s.callTo c .resuming).countResumed c
  | .discardInline c => s.callTo c .returned
  | .suspendInline c => s.callTo c .returned
  | .workersGone c => s.callTo c (.inline false)
  | .workersPresent c => s.callTo c .loadClosed
  | .sendThrows c => s.callTo c .threw
  | .sendOpen c => s.callTo c .push
  | .push c =>
      { s.callTo c .notify with
        externalCoroQueue := s.externalCoroQueue ++ [c] }
  | .notifyOne c w => (s.workerTo w .notified).callTo c .returned
  | .notifyNobody c => s.callTo c .returned
  | .storeShuttingDown =>
      { s with shuttingDown := true, destructor := .notifyAll }
  | .notifyAll =>
      { s with worker := fun w => (s.worker w).mark, destructor := .close }
  | .close => { s with closed := true, destructor := .join 0 }
  | .join w => { s with destructor := .join (w + 1) }
  | .clear => { s with coroWorkersEmpty := true, destructor := .cleared }
  | .setDone a b => { s with isDone := Function.update s.isDone a b }

def system (cfg : Config C) (k : ℕ) :
    TransitionSystem (State k C) (Action k C) where
  Initial s := ∃ isDone, s = initialState k C isDone
  Enabled := Enabled cfg
  next := next

instance (cfg : Config C) (s : State k C) (a : Action k C) :
    Decidable ((system cfg k).Enabled s a) :=
  inferInstanceAs (Decidable (Enabled cfg s a))

end Scheduler
end Ethreads
