import Ethreads.CoroTask.Handoff
import Ethreads.Support.TransitionSystem
import Mathlib.Data.Fintype.Basic
import Mathlib.Tactic.DeriveFintype

/-!
# Completion of a coroutine task

This module models `coro_task` and `coro_shared_state` of
`include/coro_task.hpp` for one task that is not moved any more.

The agents are the callers, the coroutine of the task and the destructor.  A
caller makes one call: `start`, `is_ready`, `get`, or the three parts of a
`co_await`.  At most one call consumes the result.  A thread or coroutine that
makes several calls is represented by one agent for each of them.  Every load,
store, exchange and every attempt of a weak compare-exchange is one step, and
a wait on `cv` releases `mutex` and joins the wait set in one step.

The body of the coroutine runs once it was resumed by the scheduler, and ends
with a value or an exception.  The coroutine may be resumed by
`schedule_coro_handle` itself or later by a worker.  The counters and
`completion` are not part of the program: they count scheduling,
continuations and destructions, and record how the body has ended.
-/

namespace Ethreads
namespace CoroTask

/-- How the body of a task ends: with a value or with an exception. -/
inductive Completion (T E : Type*)
  | value (v : T)
  | exception (e : E)
  deriving DecidableEq, Repr

/-- Who needs the task to be scheduled. -/
inductive Purpose
  | start
  | get
  | awaitSuspend
  deriving DecidableEq, Repr

/-- Where a caller stands.  From `lockState` on it is in
`coro_shared_state::get`, called by `await_resume` if the flag is set; what it
returns is `none` if the variant holds no result. -/
inductive Pc (T E : Type*)
  | idle
  | loadReady
  | answered (ready : Bool)
  | casStarted (purpose : Purpose)
  | checkDone (purpose : Purpose)
  | schedule (purpose : Purpose)
  | started
  | awaitReady
  | exchangeStarted
  | loadWord
  | casWord (oldVal : BitVec 64)
  | returnAwaiting
  | suspended
  | lockState (awaited : Bool)
  | testReady (awaited : Bool)
  | wait (awaited : Bool)
  | waiting (awaited : Bool)
  | notified (awaited : Bool)
  | readResult (awaited : Bool)
  | unlockState (awaited : Bool) (result : Option (Completion T E))
  | returned (awaited : Bool) (result : Option (Completion T E))
  deriving DecidableEq, Repr

/-- Where the coroutine of the task stands.  From `loadWord` on it is
suspended at its final suspend point. -/
inductive CoroPc (T E : Type*)
  | initial
  | running
  | lockState (c : Completion T E)
  | storeResult (c : Completion T E)
  | storeReady
  | notifyAll
  | unlockState
  | loadWord
  | casWord (oldVal : BitVec 64)
  | getContinuation
  | storeFinal (continuation : BitVec 64)
  | transfer (continuation : BitVec 64)
  | finished
  deriving DecidableEq, Repr

inductive DestructorPc
  | idle
  | loadStarted
  | loadFinal
  | destroy
  | destroyed
  deriving DecidableEq, Repr

inductive Owner (τ : Type*)
  | coroutine
  | caller (t : τ)
  deriving DecidableEq, Repr

structure State (τ T E : Type*) where
  started : Bool
  ready : Bool
  result : Option (Completion T E)
  word : BitVec 64
  finalSuspendReached : Bool
  mutex : Option (Owner τ)
  pc : τ → Pc T E
  coro : CoroPc T E
  destructor : DestructorPc
  consumer : Option τ
  scheduled : ℕ
  byReady : ℕ
  bySuspend : ℕ
  byFinal : ℕ
  destroyed : ℕ
  completion : Option (Completion T E)

def initialState (τ T E : Type*) : State τ T E where
  started := false
  ready := false
  result := none
  word := 0
  finalSuspendReached := false
  mutex := none
  pc := fun _ => .idle
  coro := .initial
  destructor := .idle
  consumer := none
  scheduled := 0
  byReady := 0
  bySuspend := 0
  byFinal := 0
  destroyed := 0
  completion := none

variable {τ T E : Type*}

/-- `handle_.done()`. -/
def CoroPc.isDone : CoroPc T E → Bool
  | loadWord | casWord _ | getContinuation | storeFinal _ | transfer _
  | finished => true
  | _ => false

def afterStart : Purpose → Pc T E
  | .start => .started
  | .get => .lockState false
  | .awaitSuspend => .loadWord

/-- Where `await_suspend` goes with the handle that `try_set_continuation` has
returned. -/
def afterSetContinuation (noop toResume : BitVec 64) : Pc T E :=
  if toResume ≠ 0 ∧ toResume ≠ noop then .returnAwaiting else .suspended

/-- The calls that the owner has to wait for before it destroys the task. -/
def Pc.inCall : Pc T E → Bool
  | idle | answered _ | started | returned _ _ => false
  | _ => true

def Pc.mark : Pc T E → Pc T E
  | waiting awaited => notified awaited
  | p => p

/-! ## Atomic actions -/

inductive Action (τ T E : Type*)
  | callIsReady (t : τ)
  | callStart (t : τ)
  | callGet (t : τ)
  | coAwait (t : τ)
  | loadReady (t : τ)
  | startFirst (t : τ) (purpose : Purpose)
  | startAgain (t : τ) (purpose : Purpose)
  | notDone (t : τ) (purpose : Purpose)
  | isDone (t : τ) (purpose : Purpose)
  | schedule (t : τ) (purpose : Purpose)
  | awaitReadyTrue (t : τ)
  | awaitReadyFalse (t : τ)
  | exchangeFirst (t : τ)
  | exchangeAgain (t : τ)
  | loadWord (t : τ)
  | continuationTaken (t : τ) (oldVal : BitVec 64)
  | setContinuation (t : τ) (oldVal : BitVec 64)
  | setContinuationFails (t : τ) (oldVal : BitVec 64)
  | returnAwaiting (t : τ)
  | lockState (t : τ) (awaited : Bool)
  | testTrue (t : τ) (awaited : Bool)
  | testFalse (t : τ) (awaited : Bool)
  | wait (t : τ) (awaited : Bool)
  | wake (t : τ) (awaited : Bool)
  | relock (t : τ) (awaited : Bool)
  | readResult (t : τ) (awaited : Bool)
  | unlockState (t : τ) (awaited : Bool) (result : Option (Completion T E))
  | resumeTask
  | complete (c : Completion T E)
  | coroLock (c : Completion T E)
  | storeResult (c : Completion T E)
  | storeReady
  | notifyAll
  | coroUnlock
  | coroLoadWord
  | alreadyReady (oldVal : BitVec 64)
  | setReady (oldVal : BitVec 64)
  | setReadyFails (oldVal : BitVec 64)
  | getContinuation
  | storeFinal (continuation : BitVec 64)
  | transferNoop (continuation : BitVec 64)
  | transferTo (continuation : BitVec 64) (t : τ)
  | destruct
  | foundUnstarted
  | foundStarted
  | foundFinal
  | destroy
  deriving DecidableEq, Repr

variable {noop : BitVec 64}

/-- When a step may be taken.  A weak compare-exchange may fail at any time,
also when the word still has the expected value.  No call is made once the
destructor runs, and the destructor does not run during a call. -/
def Enabled (handle : τ → Handle noop) (s : State τ T E) :
    Action τ T E → Prop
  | .callIsReady t => s.pc t = .idle ∧ s.destructor = .idle
  | .callStart t => s.pc t = .idle ∧ s.destructor = .idle
  | .callGet t =>
      s.pc t = .idle ∧ s.destructor = .idle ∧ s.consumer = none
  | .coAwait t =>
      s.pc t = .idle ∧ s.destructor = .idle ∧ s.consumer = none
  | .loadReady t => s.pc t = .loadReady
  | .startFirst t p => s.pc t = .casStarted p ∧ s.started = false
  | .startAgain t p => s.pc t = .casStarted p ∧ s.started = true
  | .notDone t p => s.pc t = .checkDone p ∧ s.coro.isDone = false
  | .isDone t p => s.pc t = .checkDone p ∧ s.coro.isDone = true
  | .schedule t p => s.pc t = .schedule p
  | .awaitReadyTrue t => s.pc t = .awaitReady ∧ s.ready = true
  | .awaitReadyFalse t => s.pc t = .awaitReady ∧ s.ready = false
  | .exchangeFirst t => s.pc t = .exchangeStarted ∧ s.started = false
  | .exchangeAgain t => s.pc t = .exchangeStarted ∧ s.started = true
  | .loadWord t => s.pc t = .loadWord
  | .continuationTaken t old =>
      s.pc t = .casWord old ∧ hasContinuation old = true
  | .setContinuation t old =>
      s.pc t = .casWord old ∧ hasContinuation old = false ∧ s.word = old
  | .setContinuationFails t old =>
      s.pc t = .casWord old ∧ hasContinuation old = false
  | .returnAwaiting t => s.pc t = .returnAwaiting
  | .lockState t b => s.pc t = .lockState b ∧ s.mutex = none
  | .testTrue t b => s.pc t = .testReady b ∧ s.ready = true
  | .testFalse t b => s.pc t = .testReady b ∧ s.ready = false
  | .wait t b => s.pc t = .wait b
  | .wake t b => s.pc t = .waiting b
  | .relock t b => s.pc t = .notified b ∧ s.mutex = none
  | .readResult t b => s.pc t = .readResult b
  | .unlockState t b r => s.pc t = .unlockState b r
  | .resumeTask => s.coro = .initial ∧ 0 < s.scheduled
  | .complete _ => s.coro = .running
  | .coroLock c => s.coro = .lockState c ∧ s.mutex = none
  | .storeResult c => s.coro = .storeResult c
  | .storeReady => s.coro = .storeReady
  | .notifyAll => s.coro = .notifyAll
  | .coroUnlock => s.coro = .unlockState
  | .coroLoadWord => s.coro = .loadWord
  | .alreadyReady old => s.coro = .casWord old ∧ isReady old = true
  | .setReady old =>
      s.coro = .casWord old ∧ isReady old = false ∧ s.word = old
  | .setReadyFails old => s.coro = .casWord old ∧ isReady old = false
  | .getContinuation => s.coro = .getContinuation
  | .storeFinal c => s.coro = .storeFinal c
  | .transferNoop c => s.coro = .transfer c ∧ c = noop
  | .transferTo c t =>
      s.coro = .transfer c ∧ c ≠ noop ∧ s.consumer = some t ∧
        (handle t).address = c
  | .destruct =>
      s.destructor = .idle ∧ ∀ t, (s.pc t).inCall = false
  | .foundUnstarted => s.destructor = .loadStarted ∧ s.started = false
  | .foundStarted => s.destructor = .loadStarted ∧ s.started = true
  | .foundFinal =>
      s.destructor = .loadFinal ∧ s.finalSuspendReached = true
  | .destroy => s.destructor = .destroy

variable [DecidableEq τ]

instance [Fintype τ] [DecidableEq T] [DecidableEq E] (handle : τ → Handle noop)
    (s : State τ T E) (a : Action τ T E) : Decidable (Enabled handle s a) := by
  cases a <;> dsimp only [Enabled] <;> infer_instance

def State.goto (s : State τ T E) (t : τ) (q : Pc T E) : State τ T E :=
  { s with pc := Function.update s.pc t q }

def next (handle : τ → Handle noop) (s : State τ T E) :
    Action τ T E → State τ T E
  | .callIsReady t => s.goto t .loadReady
  | .callStart t => s.goto t (.casStarted .start)
  | .callGet t =>
      { s.goto t (.casStarted .get) with consumer := some t }
  | .coAwait t => { s.goto t .awaitReady with consumer := some t }
  | .loadReady t => s.goto t (.answered s.ready)
  | .startFirst t p => { s.goto t (.checkDone p) with started := true }
  | .startAgain t p => s.goto t (afterStart p)
  | .notDone t p => s.goto t (.schedule p)
  | .isDone t p => s.goto t (afterStart p)
  | .schedule t p =>
      { s.goto t (afterStart p) with scheduled := s.scheduled + 1 }
  | .awaitReadyTrue t =>
      { s.goto t (.lockState true) with byReady := s.byReady + 1 }
  | .awaitReadyFalse t => s.goto t .exchangeStarted
  | .exchangeFirst t =>
      { s.goto t (.schedule .awaitSuspend) with started := true }
  | .exchangeAgain t => s.goto t .loadWord
  | .loadWord t => s.goto t (.casWord s.word)
  | .continuationTaken t _ => s.goto t (afterSetContinuation noop noop)
  | .setContinuation t old =>
      { s.goto t (afterSetContinuation noop
          (afterExchange noop old (handle t).address)) with
        word := withContinuation old (handle t).address }
  | .setContinuationFails t _ => s.goto t (.casWord s.word)
  | .returnAwaiting t =>
      { s.goto t (.lockState true) with bySuspend := s.bySuspend + 1 }
  | .lockState t b =>
      { s.goto t (.testReady b) with mutex := some (.caller t) }
  | .testTrue t b => s.goto t (.readResult b)
  | .testFalse t b => s.goto t (.wait b)
  | .wait t b => { s.goto t (.waiting b) with mutex := none }
  | .wake t b => s.goto t (.notified b)
  | .relock t b =>
      { s.goto t (.testReady b) with mutex := some (.caller t) }
  | .readResult t b => s.goto t (.unlockState b s.result)
  | .unlockState t b r => { s.goto t (.returned b r) with mutex := none }
  | .resumeTask => { s with coro := .running }
  | .complete c => { s with coro := .lockState c, completion := some c }
  | .coroLock c =>
      { s with coro := .storeResult c, mutex := some .coroutine }
  | .storeResult c => { s with coro := .storeReady, result := some c }
  | .storeReady => { s with coro := .notifyAll, ready := true }
  | .notifyAll =>
      { s with coro := .unlockState, pc := fun t => (s.pc t).mark }
  | .coroUnlock => { s with coro := .loadWord, mutex := none }
  | .coroLoadWord => { s with coro := .casWord s.word }
  | .alreadyReady _ => { s with coro := .storeFinal noop }
  | .setReady old =>
      { s with
        coro := if hasContinuation old then .getContinuation
          else .storeFinal noop
        word := withReady old }
  | .setReadyFails _ => { s with coro := .casWord s.word }
  | .getContinuation =>
      { s with coro := .storeFinal (getContinuation noop s.word) }
  | .storeFinal c =>
      { s with coro := .transfer c, finalSuspendReached := true }
  | .transferNoop _ => { s with coro := .finished }
  | .transferTo _ t =>
      { s.goto t (.lockState true) with
        coro := .finished, byFinal := s.byFinal + 1 }
  | .destruct => { s with destructor := .loadStarted }
  | .foundUnstarted => { s with destructor := .destroy }
  | .foundStarted => { s with destructor := .loadFinal }
  | .foundFinal => { s with destructor := .destroy }
  | .destroy =>
      { s with destructor := .destroyed, destroyed := s.destroyed + 1 }

/-- The task as a transition system.  Every caller that is a coroutine has a
handle of its own. -/
def system (T E : Type*) (handle : τ → Handle noop) :
    TransitionSystem (State τ T E) (Action τ T E) where
  Initial s := s = initialState τ T E
  Enabled := Enabled handle
  next := next handle

instance [Fintype τ] [DecidableEq T] [DecidableEq E] (handle : τ → Handle noop)
    (s : State τ T E) (a : Action τ T E) :
    Decidable ((system T E handle).Enabled s a) :=
  inferInstanceAs (Decidable (Enabled handle s a))

end CoroTask
end Ethreads
