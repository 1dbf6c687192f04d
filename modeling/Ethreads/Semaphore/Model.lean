import Ethreads.AsyncPrimitive.Model
import Mathlib.Data.Int.Order.Basic

/-!
# The asynchronous semaphore

This module models `sync_semaphore`, `semaphore_acquire_awaiter` and
`async_semaphore` of `include/shared_state/semaphore.hpp`.

An agent runs one public operation at a time: a call of a thread, or one
`co_await acquire_async()` with the awaiter it creates.  A coroutine that goes
on to a second `co_await` is a second agent, so an agent may still be in its
`suspend_impl` after its coroutine was resumed.

The count is only touched under the mutex, hence every critical section is one
step, except that of `release`, which notifies while it holds the mutex.
Waiting threads wake by notification, spuriously or because their time is up.
`count_` is an integer without bounds; a `release` that makes it overflow
`ptrdiff_t` is not modelled.

The counters `completed`, `released` and `unpaid` are not part of the program.
The last one counts the `co_await`s that have returned and whose `suspend_impl`
has ended without a permit.
-/

namespace Ethreads
namespace Semaphore

inductive AcquireKind
  | acquire
  | tryAcquireFor
  | tryAcquireUntil
  deriving DecidableEq, Repr

def AcquireKind.timed : AcquireKind → Bool
  | acquire => false
  | tryAcquireFor => true
  | tryAcquireUntil => true

/-- Where an agent stands.  A suspended `co_await` records the result of the
re-check in `suspend_impl`; `resumed` says that the coroutine has gone on
before the re-check. -/
inductive Pc
  | idle
  | acquire (kind : AcquireKind) (expired : Bool)
  | waiting (kind : AcquireKind)
  | tryAcquire
  | release (n : ℕ)
  | notify (n i : ℕ)
  | wakeLoop (n i : ℕ)
  | wakeOne (n i : ℕ)
  | ready
  | addAcquireWaiter
  | suspended (recheck : Option Bool)
  | resumed
  deriving DecidableEq, Repr

/-- The semaphore, its waiter list, and what its users have done so far. -/
structure State (τ : Type*) where
  count : ℤ
  mutex : Option τ
  list : AsyncPrimitive.State τ τ Empty
  pc : τ → Pc
  completed : ℕ
  released : ℕ
  unpaid : ℕ

def initialState (initial : ℤ) (τ : Type*) : State τ where
  count := initial
  mutex := none
  list := AsyncPrimitive.initialState τ τ Empty
  pc := fun _ => .idle
  completed := 0
  released := 0
  unpaid := 0

variable {τ : Type*}

def State.available (s : State τ) : ℤ :=
  s.count

def Pc.isWaiting : Pc → Bool
  | waiting _ => true
  | _ => false

/-- What follows a completed `add_waiter` or `wake_one`. -/
def Pc.afterList : Pc → Pc
  | addAcquireWaiter => suspended none
  | wakeOne n i => wakeLoop n (i + 1)
  | pc => pc

/-- What follows the re-check of `suspend_impl`. -/
def Pc.afterRecheck (acquired : Bool) : Pc → Pc
  | suspended _ => suspended (some acquired)
  | _ => idle

/-- What follows the resumption of the coroutine: `resume_impl` does
nothing, so the `co_await` returns. -/
def Pc.afterResume : Option Bool → Pc
  | none => resumed
  | some _ => idle

inductive Action (τ : Type*)
  | callAcquire (t : τ) (kind : AcquireKind)
  | acquireTake (t : τ) (kind : AcquireKind) (expired : Bool)
  | acquireWait (t : τ) (kind : AcquireKind)
  | acquireExpired (t : τ) (kind : AcquireKind)
  | wake (t : τ) (kind : AcquireKind) (expired : Bool)
  | callTryAcquire (t : τ)
  | tryTake (t : τ)
  | tryFail (t : τ)
  | callRelease (t : τ) (n : ℕ)
  | releaseAdd (t : τ) (n : ℕ)
  | notifyOne (t : τ) (n i : ℕ) (u : τ) (kind : AcquireKind)
  | notifyNobody (t : τ) (n i : ℕ)
  | unlock (t : τ) (n i : ℕ)
  | loopWake (t : τ) (n i : ℕ)
  | loopDone (t : τ) (n i : ℕ)
  | callAcquireAsync (t : τ)
  | readyTake (t : τ)
  | readyFail (t : τ)
  | list (t : τ) (a : AsyncPrimitive.Action τ τ Empty)
  | recheckTake (t : τ)
  | recheckFail (t : τ)
  | resume (t : τ) (recheck : Option Bool)
  deriving DecidableEq, Repr

variable [DecidableEq τ]

/-- A critical section may be entered and finds a permit. -/
def State.FindsPermit (s : State τ) : Prop :=
  s.mutex = none ∧ 0 < s.count

/-- A critical section may be entered and finds no permit. -/
def State.FindsNone (s : State τ) : Prop :=
  s.mutex = none ∧ s.count ≤ 0

instance (s : State τ) : Decidable s.FindsPermit :=
  inferInstanceAs (Decidable (_ ∧ _))

instance (s : State τ) : Decidable s.FindsNone :=
  inferInstanceAs (Decidable (_ ∧ _))

def Enabled (s : State τ) : Action τ → Prop
  | .callAcquire t _ => s.pc t = .idle
  | .acquireTake t k e => s.pc t = .acquire k e ∧ s.FindsPermit
  | .acquireWait t k => s.pc t = .acquire k false ∧ s.FindsNone
  | .acquireExpired t k => s.pc t = .acquire k true ∧ s.FindsNone
  | .wake t k e => s.pc t = .waiting k ∧ (e = true → k.timed = true)
  | .callTryAcquire t => s.pc t = .idle
  | .tryTake t => s.pc t = .tryAcquire ∧ s.FindsPermit
  | .tryFail t => s.pc t = .tryAcquire ∧ s.FindsNone
  | .callRelease t _ => s.pc t = .idle
  | .releaseAdd t n => s.pc t = .release n ∧ s.mutex = none
  | .notifyOne t n i u k =>
      s.pc t = .notify n i ∧ i < n ∧ s.pc u = .waiting k
  | .notifyNobody t n i =>
      s.pc t = .notify n i ∧ i < n ∧ ∀ u, (s.pc u).isWaiting = false
  | .unlock t n i => s.pc t = .notify n i ∧ n ≤ i
  | .loopWake t n i =>
      s.pc t = .wakeLoop n i ∧ i < n ∧ s.list.hasWaiters = true ∧
        AsyncPrimitive.Enabled AsyncPrimitive.ungated s.list (.callWakeOne t)
  | .loopDone t n i =>
      s.pc t = .wakeLoop n i ∧ (i < n → s.list.hasWaiters = false)
  | .callAcquireAsync t => s.pc t = .idle
  | .readyTake t => s.pc t = .ready ∧ s.FindsPermit
  | .readyFail t =>
      s.pc t = .ready ∧ s.FindsNone ∧
        AsyncPrimitive.Enabled AsyncPrimitive.ungated s.list (.callAdd t t)
  | .list t a =>
      a.runner = some t ∧
        AsyncPrimitive.Enabled AsyncPrimitive.ungated s.list a
  | .recheckTake t =>
      (s.pc t = .suspended none ∨ s.pc t = .resumed) ∧ s.FindsPermit
  | .recheckFail t =>
      (s.pc t = .suspended none ∨ s.pc t = .resumed) ∧ s.FindsNone
  | .resume t r =>
      s.pc t = .suspended r ∧
        AsyncPrimitive.Enabled AsyncPrimitive.ungated s.list (.resume t)

instance [Fintype τ] (s : State τ) (a : Action τ) :
    Decidable (Enabled s a) := by
  cases a <;> dsimp only [Enabled] <;> infer_instance

def State.goto (s : State τ) (t : τ) (q : Pc) : State τ :=
  { s with pc := Function.update s.pc t q }

/-- Agent `t` takes a permit and moves to the program point `q`. -/
def State.take (s : State τ) (t : τ) (q : Pc) : State τ :=
  { s.goto t q with count := s.count - 1 }

/-- Agent `t` takes a permit and its operation completes. -/
def State.takeAndReturn (s : State τ) (t : τ) : State τ :=
  { s.take t .idle with completed := s.completed + 1 }

def State.listNext (s : State τ) (a : AsyncPrimitive.Action τ τ Empty) :
    AsyncPrimitive.State τ τ Empty :=
  AsyncPrimitive.next AsyncPrimitive.ungated s.list a

def next (s : State τ) : Action τ → State τ
  | .callAcquire t k => s.goto t (.acquire k false)
  | .acquireTake t _ _ => s.takeAndReturn t
  | .acquireWait t k => s.goto t (.waiting k)
  | .acquireExpired t _ => s.goto t .idle
  | .wake t k e => s.goto t (.acquire k e)
  | .callTryAcquire t => s.goto t .tryAcquire
  | .tryTake t => s.takeAndReturn t
  | .tryFail t => s.goto t .idle
  | .callRelease t n => s.goto t (.release n)
  | .releaseAdd t n =>
      { s.goto t (.notify n 0) with
        count := s.count + n
        mutex := some t
        released := s.released + n }
  | .notifyOne t n i u k =>
      (s.goto u (.acquire k false)).goto t (.notify n (i + 1))
  | .notifyNobody t n i => s.goto t (.notify n (i + 1))
  | .unlock t n _ => { s.goto t (.wakeLoop n 0) with mutex := none }
  | .loopWake t n i =>
      { s.goto t (.wakeOne n i) with list := s.listNext (.callWakeOne t) }
  | .loopDone t _ _ => s.goto t .idle
  | .callAcquireAsync t => s.goto t .ready
  | .readyTake t => s.takeAndReturn t
  | .readyFail t =>
      { s.goto t .addAcquireWaiter with list := s.listNext (.callAdd t t) }
  | .list t a =>
      let list := s.listNext a
      let q := if list.pc t = .idle then (s.pc t).afterList else s.pc t
      { s.goto t q with list := list }
  | .recheckTake t => s.take t ((s.pc t).afterRecheck true)
  | .recheckFail t =>
      { s.goto t ((s.pc t).afterRecheck false) with
        unpaid := if s.pc t = .resumed then s.unpaid + 1 else s.unpaid }
  | .resume t r =>
      { s.goto t (.afterResume r) with
        list := s.listNext (.resume t)
        completed := s.completed + 1
        unpaid := if r = some false then s.unpaid + 1 else s.unpaid }

def system (initial : ℤ) (τ : Type*) [DecidableEq τ] :
    TransitionSystem (State τ) (Action τ) where
  Initial s := s = initialState initial τ
  Enabled := Enabled
  next := next

instance [Fintype τ] (initial : ℤ) (s : State τ) (a : Action τ) :
    Decidable ((system initial τ).Enabled s a) :=
  inferInstanceAs (Decidable (Enabled s a))

end Semaphore
end Ethreads
