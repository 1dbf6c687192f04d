import Ethreads.Support.TransitionSystem
import Mathlib.Data.Fintype.Basic

/-!
# The timer service

This module models `include/timer_service.hpp` and `src/timer_service.cpp`:
`add_timer`, the loop `run` of the timer thread, and `shutdown`.

Each call of `add_timer` is an agent of its own, and an entry of the heap is
represented by the call that adds it.  `heap_` is a binary heap of which the
service only ever takes a least deadline; here it is a list from which some
entry with a least deadline is taken.  `cv_.wait` releases the mutex and
joins the wait set in one step, the wait for a deadline may end at any time,
and time passes by steps of its own.  The flags that entries refer to are
memory of others, who may write them at any time.
-/

namespace Ethreads
namespace TimerService

/-- `sleep_waiter_state`, which is written before the timer is added. -/
structure Waiter (γ η : Type*) where
  handle : Option η
  fired : γ
  deriving DecidableEq, Repr

/-- `timer_entry`, with flags `γ` and coroutine handles `η`. -/
structure Entry (γ η : Type*) where
  deadline : ℕ
  handle : Option η
  fired : Option γ
  waiter : Option (Waiter γ η)
  deriving DecidableEq, Repr

structure FireView (γ η : Type*) where
  handle : Option η
  fired : Option γ
  deriving DecidableEq, Repr

def viewOf {γ η : Type*} (e : Entry γ η) : FireView γ η :=
  match e.waiter with
  | some w => ⟨w.handle, some w.fired⟩
  | none => ⟨e.handle, e.fired⟩

/-- Where the timer thread stands in `run`. -/
inductive TimerPc (ι : Type*)
  | lock
  | loadRunning
  | testHeap
  | predicateHeap
  | predicateRunning
  | enterWait
  | waiting
  | notified
  | woken
  | readClock
  | compare (now : ℕ)
  | enterTimedWait
  | timedWaiting
  | timedWoken
  | fire (i : ι)
  | unlockFired (i : ι)
  | schedule (i : ι)
  | relock
  | unlockExit
  | exited
  deriving DecidableEq, Repr

inductive AddPc
  | idle
  | lock
  | push
  | unlock
  | notify
  | returned
  deriving DecidableEq, Repr

/-- Where the thread that shuts the service down stands in `shutdown`.  The
entries that it has not looked at yet are those of `rest`. -/
inductive ShutdownPc (ι : Type*)
  | idle
  | exchange
  | notify
  | join
  | lock
  | drain (rest : List ι)
  | fire (i : ι) (rest : List ι)
  | schedule (i : ι) (rest : List ι)
  | unlock
  | returned
  deriving DecidableEq, Repr

inductive Holder (ι : Type*)
  | timer
  | shutdown
  | caller (i : ι)
  deriving DecidableEq, Repr

/-- The members of `timer_service`, its threads, the flags and the clock.
`scheduled` counts, for each call of `add_timer`, how often its handle was
passed to `schedule_coro_handle`. -/
structure State (ι γ : Type*) where
  heap : List ι
  mutex : Option (Holder ι)
  running : Bool
  timer : TimerPc ι
  add : ι → AddPc
  shutdown : ShutdownPc ι
  fired : γ → Bool
  clock : ℕ
  scheduled : ι → ℕ

def initialState (ι γ : Type*) (fired : γ → Bool) (clock : ℕ) :
    State ι γ where
  heap := []
  mutex := none
  running := true
  timer := .lock
  add := fun _ => .idle
  shutdown := .idle
  fired := fired
  clock := clock
  scheduled := fun _ => 0

/-! ## Atomic actions -/

inductive Action (ι γ : Type*)
  | lockTimer
  | loadRunningTrue
  | loadRunningFalse
  | heapEmpty
  | heapNotEmpty
  | predicateHeapTrue
  | predicateHeapFalse
  | predicateStopped
  | predicateRunning
  | wait
  | wake
  | relockWait
  | readClock
  | pop (now : ℕ) (i : ι)
  | popNothing (now : ℕ) (i : ι)
  | notDue (now : ℕ)
  | timedWait
  | timedWake
  | relockTimedWait
  | fireWon (i : ι) (g : γ)
  | fireLost (i : ι) (g : γ)
  | unlockFired (i : ι)
  | schedule (i : ι)
  | relock
  | unlockExit
  | callAdd (i : ι)
  | lockAdd (i : ι)
  | push (i : ι)
  | unlockAdd (i : ι)
  | notifyAdd (i : ι)
  | callShutdown
  | exchangeFirst
  | exchangeAgain
  | notifyShutdown
  | join
  | lockShutdown
  | drainNothing (i : ι) (rest : List ι)
  | drain (i : ι) (rest : List ι)
  | drainWon (i : ι) (rest : List ι) (g : γ)
  | drainLost (i : ι) (rest : List ι) (g : γ)
  | drainSchedule (i : ι) (rest : List ι)
  | clear
  | unlockShutdown
  | store (g : γ) (b : Bool)
  | tick
  deriving DecidableEq, Repr

variable {ι γ η : Type*}

/-- The entry has a flag and a handle. -/
def canFire (entry : ι → Entry γ η) (i : ι) : Bool :=
  (viewOf (entry i)).fired.isSome && (viewOf (entry i)).handle.isSome

/-- The entry is one of least deadline. -/
def IsEarliest (entry : ι → Entry γ η) (heap : List ι) (i : ι) : Prop :=
  i ∈ heap ∧ ∀ j ∈ heap, (entry i).deadline ≤ (entry j).deadline

/-- When a step may be taken.  The timer thread looks at the heap only while it
holds the mutex. -/
def Enabled (entry : ι → Entry γ η) (s : State ι γ) : Action ι γ → Prop
  | .lockTimer => s.timer = .lock ∧ s.mutex = none
  | .loadRunningTrue => s.timer = .loadRunning ∧ s.running = true
  | .loadRunningFalse => s.timer = .loadRunning ∧ s.running = false
  | .heapEmpty => s.timer = .testHeap ∧ s.heap = []
  | .heapNotEmpty => s.timer = .testHeap ∧ s.heap ≠ []
  | .predicateHeapTrue => s.timer = .predicateHeap ∧ s.heap ≠ []
  | .predicateHeapFalse => s.timer = .predicateHeap ∧ s.heap = []
  | .predicateStopped => s.timer = .predicateRunning ∧ s.running = false
  | .predicateRunning => s.timer = .predicateRunning ∧ s.running = true
  | .wait => s.timer = .enterWait
  | .wake => s.timer = .waiting
  | .relockWait =>
      (s.timer = .notified ∨ s.timer = .woken) ∧ s.mutex = none
  | .readClock => s.timer = .readClock
  | .pop now i =>
      s.timer = .compare now ∧ IsEarliest entry s.heap i ∧
        (entry i).deadline ≤ now ∧ canFire entry i = true
  | .popNothing now i =>
      s.timer = .compare now ∧ IsEarliest entry s.heap i ∧
        (entry i).deadline ≤ now ∧ canFire entry i = false
  | .notDue now =>
      s.timer = .compare now ∧ ∀ i ∈ s.heap, now < (entry i).deadline
  | .timedWait => s.timer = .enterTimedWait
  | .timedWake => s.timer = .timedWaiting
  | .relockTimedWait => s.timer = .timedWoken ∧ s.mutex = none
  | .fireWon i g =>
      s.timer = .fire i ∧ (viewOf (entry i)).fired = some g ∧
        s.fired g = false
  | .fireLost i g =>
      s.timer = .fire i ∧ (viewOf (entry i)).fired = some g ∧
        s.fired g = true
  | .unlockFired i => s.timer = .unlockFired i
  | .schedule i => s.timer = .schedule i
  | .relock => s.timer = .relock ∧ s.mutex = none
  | .unlockExit => s.timer = .unlockExit
  | .callAdd i => s.add i = .idle
  | .lockAdd i => s.add i = .lock ∧ s.mutex = none
  | .push i => s.add i = .push
  | .unlockAdd i => s.add i = .unlock
  | .notifyAdd i => s.add i = .notify
  | .callShutdown => s.shutdown = .idle ∨ s.shutdown = .returned
  | .exchangeFirst => s.shutdown = .exchange ∧ s.running = true
  | .exchangeAgain => s.shutdown = .exchange ∧ s.running = false
  | .notifyShutdown => s.shutdown = .notify
  | .join => s.shutdown = .join ∧ s.timer = .exited
  | .lockShutdown => s.shutdown = .lock ∧ s.mutex = none
  | .drainNothing i rest =>
      s.shutdown = .drain rest ∧ i ∈ rest ∧ canFire entry i = false
  | .drain i rest =>
      s.shutdown = .drain rest ∧ i ∈ rest ∧ canFire entry i = true
  | .drainWon i rest g =>
      s.shutdown = .fire i rest ∧ (viewOf (entry i)).fired = some g ∧
        s.fired g = false
  | .drainLost i rest g =>
      s.shutdown = .fire i rest ∧ (viewOf (entry i)).fired = some g ∧
        s.fired g = true
  | .drainSchedule i rest => s.shutdown = .schedule i rest
  | .clear => s.shutdown = .drain []
  | .unlockShutdown => s.shutdown = .unlock
  | .store _ _ => True
  | .tick => True

/-- The effect of `notify_one`, for which only the timer thread waits. -/
def TimerPc.notify : TimerPc ι → TimerPc ι
  | waiting => notified
  | timedWaiting => timedWoken
  | p => p

def next [DecidableEq ι] [DecidableEq γ] (s : State ι γ) :
    Action ι γ → State ι γ
  | .lockTimer => { s with timer := .loadRunning, mutex := some .timer }
  | .loadRunningTrue => { s with timer := .testHeap }
  | .loadRunningFalse => { s with timer := .unlockExit }
  | .heapEmpty => { s with timer := .predicateHeap }
  | .heapNotEmpty => { s with timer := .readClock }
  | .predicateHeapTrue => { s with timer := .loadRunning }
  | .predicateHeapFalse => { s with timer := .predicateRunning }
  | .predicateStopped => { s with timer := .loadRunning }
  | .predicateRunning => { s with timer := .enterWait }
  | .wait => { s with timer := .waiting, mutex := none }
  | .wake => { s with timer := .woken }
  | .relockWait =>
      { s with timer := .predicateHeap, mutex := some .timer }
  | .readClock => { s with timer := .compare s.clock }
  | .pop _ i => { s with timer := .fire i, heap := s.heap.erase i }
  | .popNothing _ i =>
      { s with timer := .loadRunning, heap := s.heap.erase i }
  | .notDue _ => { s with timer := .enterTimedWait }
  | .timedWait => { s with timer := .timedWaiting, mutex := none }
  | .timedWake => { s with timer := .timedWoken }
  | .relockTimedWait =>
      { s with timer := .loadRunning, mutex := some .timer }
  | .fireWon i g =>
      { s with
        timer := .unlockFired i
        fired := Function.update s.fired g true }
  | .fireLost _ _ => { s with timer := .loadRunning }
  | .unlockFired i => { s with timer := .schedule i, mutex := none }
  | .schedule i =>
      { s with
        timer := .relock
        scheduled := Function.update s.scheduled i (s.scheduled i + 1) }
  | .relock => { s with timer := .loadRunning, mutex := some .timer }
  | .unlockExit => { s with timer := .exited, mutex := none }
  | .callAdd i => { s with add := Function.update s.add i .lock }
  | .lockAdd i =>
      { s with
        add := Function.update s.add i .push
        mutex := some (.caller i) }
  | .push i =>
      { s with
        add := Function.update s.add i .unlock
        heap := s.heap ++ [i] }
  | .unlockAdd i =>
      { s with add := Function.update s.add i .notify, mutex := none }
  | .notifyAdd i =>
      { s with
        add := Function.update s.add i .returned
        timer := s.timer.notify }
  | .callShutdown => { s with shutdown := .exchange }
  | .exchangeFirst => { s with shutdown := .notify, running := false }
  | .exchangeAgain => { s with shutdown := .returned }
  | .notifyShutdown =>
      { s with shutdown := .join, timer := s.timer.notify }
  | .join => { s with shutdown := .lock }
  | .lockShutdown =>
      { s with shutdown := .drain s.heap, mutex := some .shutdown }
  | .drainNothing i rest => { s with shutdown := .drain (rest.erase i) }
  | .drain i rest => { s with shutdown := .fire i (rest.erase i) }
  | .drainWon i rest g =>
      { s with
        shutdown := .schedule i rest
        fired := Function.update s.fired g true }
  | .drainLost _ rest _ => { s with shutdown := .drain rest }
  | .drainSchedule i rest =>
      { s with
        shutdown := .drain rest
        scheduled := Function.update s.scheduled i (s.scheduled i + 1) }
  | .clear => { s with shutdown := .unlock, heap := [] }
  | .unlockShutdown => { s with shutdown := .returned, mutex := none }
  | .store g b => { s with fired := Function.update s.fired g b }
  | .tick => { s with clock := s.clock + 1 }

variable [DecidableEq ι] [DecidableEq γ]

instance (entry : ι → Entry γ η) (heap : List ι) (i : ι) :
    Decidable (IsEarliest entry heap i) :=
  inferInstanceAs (Decidable (_ ∧ ∀ j ∈ heap, _ ≤ _))

instance (entry : ι → Entry γ η) (s : State ι γ) (a : Action ι γ) :
    Decidable (Enabled entry s a) := by
  cases a <;> dsimp only [Enabled] <;> infer_instance

def system (entry : ι → Entry γ η) :
    TransitionSystem (State ι γ) (Action ι γ) where
  Initial s := ∃ fired clock, s = initialState ι γ fired clock
  Enabled := Enabled entry
  next := next

instance (entry : ι → Entry γ η) (s : State ι γ) (a : Action ι γ) :
    Decidable ((system entry).Enabled s a) :=
  inferInstanceAs (Decidable (Enabled entry s a))

end TimerService
end Ethreads
