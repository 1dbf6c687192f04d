import Ethreads.Support.Family
import Mathlib.Data.Int.Order.Basic

/-!
# Timed attempts

This module models `timed_event_wait_awaiter` and
`timed_semaphore_acquire_awaiter` of `shared_state/timed_awaiter.hpp`, over
the parts of `sync_event` and `sync_semaphore` that they call.  The two
awaiters differ in the attempt they make and in what `resume_impl` does when
its attempt has failed.

Each wait has two agents.  The first runs `ready_impl` and `suspend_impl`.  The
second runs `resume_impl`; it may start once `gate_` is won, which the timer or
a wake-up of the primitive does after the timer is registered, or the first
agent after a successful re-check.  A call of the primitive is one step: it
holds the mutex.  The memory of a wait is not used again after it.
-/

namespace Ethreads
namespace TimedAttempt

/-- What a timed awaiter waits for.  An attempt gives the state after it, or
none if it fails; `confirm` is what `resume_impl` calls after a failed attempt,
and `other` an operation of others, none if it has to wait. -/
structure Primitive (σ ε : Type*) where
  attempt : σ → Option σ
  confirm : Option (σ → Bool)
  other : ε → σ → Option σ

/-- Where the agent of `ready_impl` and `suspend_impl` stands. -/
inductive SuspendPc
  | idle
  | ready
  | deadline
  | addTimer
  | addNode
  | recheck
  | exchange
  | finished
  deriving DecidableEq, Repr

/-- Where the agent of `resume_impl` stands. -/
inductive ResumePc
  | waiting
  | begin
  | confirm
  | done
  deriving DecidableEq, Repr

/-- A wait.  `taken` and `returned` are not part of the program: how many of
its attempts have succeeded, and what `resume_impl` has returned. -/
structure Wait where
  suspend : SuspendPc
  resume : ResumePc
  registered : Bool
  gate : Bool
  taken : ℕ
  returned : Option Bool
  deriving DecidableEq, Repr

/-- Steps of the agents of one wait, with the results of their calls. -/
inductive Step
  | coAwait
  | ready (success : Bool)
  | deadlinePassed
  | deadlineAhead
  | addTimer
  | addNode
  | recheck (success : Bool)
  | exchange
  | fire
  | resume
  | retry (success : Bool)
  | confirm (result : Bool)
  deriving DecidableEq, Repr

variable {ω σ ε : Type*}

namespace Wait

def initial : Wait where
  suspend := .idle
  resume := .waiting
  registered := false
  gate := false
  taken := 0
  returned := none

def Enabled (P : Primitive σ ε) (s : σ) (x : Wait) : Step → Prop
  | .coAwait => x.suspend = .idle
  | .ready ok => x.suspend = .ready ∧ ok = (P.attempt s).isSome
  | .deadlinePassed => x.suspend = .deadline
  | .deadlineAhead => x.suspend = .deadline
  | .addTimer => x.suspend = .addTimer
  | .addNode => x.suspend = .addNode
  | .recheck ok => x.suspend = .recheck ∧ ok = (P.attempt s).isSome
  | .exchange => x.suspend = .exchange
  | .fire => x.registered = true ∧ x.gate = false
  | .resume => x.resume = .waiting ∧ x.gate = true
  | .retry ok => x.resume = .begin ∧ ok = (P.attempt s).isSome
  | .confirm b => x.resume = .confirm ∧ P.confirm.map (· s) = some b

instance (P : Primitive σ ε) (s : σ) (x : Wait) (b : Step) :
    Decidable (x.Enabled P s b) := by
  cases b <;> dsimp only [Enabled] <;> infer_instance

def next (P : Primitive σ ε) (x : Wait) : Step → Wait
  | .coAwait => { x with suspend := .ready }
  | .ready true =>
      { x with suspend := .finished, resume := .begin, taken := x.taken + 1 }
  | .ready false => { x with suspend := .deadline }
  | .deadlinePassed => { x with suspend := .finished, resume := .begin }
  | .deadlineAhead => { x with suspend := .addTimer, gate := false }
  | .addTimer => { x with suspend := .addNode, registered := true }
  | .addNode => { x with suspend := .recheck }
  | .recheck true => { x with suspend := .exchange, taken := x.taken + 1 }
  | .recheck false => { x with suspend := .finished }
  | .exchange => { x with suspend := .finished, gate := true }
  | .fire => { x with gate := true }
  | .resume => { x with resume := .begin }
  | .retry true =>
      { x with resume := .done, taken := x.taken + 1, returned := some true }
  | .retry false =>
      if P.confirm.isSome then { x with resume := .confirm }
      else { x with resume := .done, returned := some false }
  | .confirm b => { x with resume := .done, returned := some b }

end Wait

/-- The effect of a step on the primitive. -/
def Step.sharedAfter (P : Primitive σ ε) (s : σ) : Step → σ
  | ready _ | recheck _ | retry _ => (P.attempt s).getD s
  | _ => s

/-- Any number of timed waits for one primitive. -/
def Primitive.waits (P : Primitive σ ε) (ω : Type*) :
    Family ω σ Wait ε Step where
  initial _ := .initial
  OtherEnabled s e := (P.other e s).isSome
  otherNext s e := (P.other e s).getD s
  PartEnabled _ s x b := x.Enabled P s b
  sharedNext _ s _ b := b.sharedAfter P s
  partNext _ _ x b := x.next P b

instance (P : Primitive σ ε) (s : σ) (e : ε) :
    Decidable ((P.waits ω).OtherEnabled s e) :=
  inferInstanceAs (Decidable ((P.other e s).isSome = true))

instance (P : Primitive σ ε) (w : ω) (s : σ) (x : Wait) (b : Step) :
    Decidable ((P.waits ω).PartEnabled w s x b) :=
  inferInstanceAs (Decidable (x.Enabled P s b))

/-! ## The semaphore -/

/-- `sync_semaphore::try_acquire` on `count_`. -/
def tryAcquire (count : ℤ) : Option ℤ :=
  if 0 < count then some (count - 1) else none

/-- What others do with a semaphore: the acquiring operations take a permit
under the mutex once there is one. -/
inductive SemaphoreOp
  | acquire
  | release (n : ℤ)
  deriving DecidableEq, Repr

/-- `timed_semaphore_acquire_awaiter` on a semaphore. -/
def semaphore : Primitive ℤ SemaphoreOp where
  attempt := tryAcquire
  confirm := none
  other
    | .acquire, count => tryAcquire count
    | .release n, count => some (count + n)

/-! ## The event -/

/-- `sync_event::try_wait` on `signaled_`. -/
def tryWait (autoReset : Bool) (signaled : Bool) : Option Bool :=
  if signaled then some (!autoReset) else none

/-- What others do with an event: the waiting operations end under the mutex
once it is signaled, like `try_wait`. -/
inductive EventOp
  | set
  | reset
  | wait
  deriving DecidableEq, Repr

/-- `timed_event_wait_awaiter` on an event; `resume_impl` calls `is_set` after
a failed `try_wait`. -/
def event (autoReset : Bool) : Primitive Bool EventOp where
  attempt := tryWait autoReset
  confirm := some fun signaled => signaled
  other
    | .set, _ => some true
    | .reset, _ => some false
    | .wait, signaled => tryWait autoReset signaled

/-! ## What is taken and what is returned -/

/-- A wait that returns true has taken exactly once, and one that returns
false has not. -/
def Wait.Truthful (x : Wait) : Prop :=
  ∀ r, x.returned = some r → x.taken = r.toNat

/-- Only `resume_impl` takes, and it returns true only if it has: `ready_impl`
and the re-check find nothing, nor does `confirm`. -/
def Step.OnlyRetryTakes : Step → Prop
  | ready ok => ok = false
  | recheck ok => ok = false
  | confirm result => result = false
  | _ => True

instance (b : Step) : Decidable b.OnlyRetryTakes := by
  cases b <;> dsimp only [Step.OnlyRetryTakes] <;> infer_instance

end TimedAttempt
end Ethreads
