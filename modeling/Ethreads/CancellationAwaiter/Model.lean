import Ethreads.AsyncPrimitive.Account

/-!
# Awaiting a cancellation

This module models `cancellation_awaiter` of `include/cancellation.hpp` together
with `cancel`, as far as the flag and the waiter list of `cancellation_state`
are concerned.

An agent is one call of `cancel`, or one `co_await token.cancelled()` with its
awaiter.  The loads and the exchange of `cancelled_` are steps of their own, and
between the exchange of `cancel` and its `wake_all` the callbacks run for as
long as they like.  A coroutine whose handle was scheduled may be resumed at any
time, also while its `suspend_impl` goes on; `resume_impl` has no effect.  After
the push `suspend_impl` still reads `state_` of the awaiter, which is taken to
outlive it.
-/

namespace Ethreads
namespace CancellationAwaiter

open AsyncPrimitive (Account ungated)

/-- Where an agent stands.  At `passed` and at `notReady` it has returned from
`ready_impl`, and at `suspended` from `suspend_impl`. -/
inductive Pc
  | idle
  | ready
  | passed
  | notReady
  | adding
  | recheck
  | waking
  | suspended
  | exchange
  | callbacks
  | wakingAll
  | returned (first : Bool)
  deriving DecidableEq, Repr

/-- The flag, the waiter list with its account, and the agents. -/
structure State (τ : Type*) where
  cancelled : Bool
  account : Account τ τ Empty
  pc : τ → Pc

def initialState (τ : Type*) : State τ where
  cancelled := false
  account := AsyncPrimitive.initialAccount τ τ Empty
  pc := fun _ => .idle

inductive Action (τ : Type*)
  | coAwait (t : τ)
  | ready (t : τ)
  | suspend (t : τ)
  | list (t : τ) (a : AsyncPrimitive.Action τ τ Empty)
  | recheck (t : τ)
  | callCancel (t : τ)
  | exchange (t : τ)
  | callbacksDone (t : τ)
  | resume (t : τ)
  deriving DecidableEq, Repr

variable {τ : Type*}

def Enabled (s : State τ) : Action τ → Prop
  | .coAwait t => s.pc t = .idle
  | .ready t => s.pc t = .ready
  | .suspend t => s.pc t = .notReady
  | .list t a =>
      a.runner = some t ∧ AsyncPrimitive.Enabled ungated s.account.list a
  | .recheck t => s.pc t = .recheck
  | .callCancel t => s.pc t = .idle
  | .exchange t => s.pc t = .exchange
  | .callbacksDone t => s.pc t = .callbacks
  | .resume t => t ∈ s.account.list.scheduled

/-- What follows a completed `add_waiter` or `wake_all`. -/
def Pc.afterList : Pc → Pc
  | adding => recheck
  | waking => suspended
  | wakingAll => returned true
  | p => p

variable [DecidableEq τ]

instance (s : State τ) (a : Action τ) : Decidable (Enabled s a) := by
  cases a <;> dsimp only [Enabled] <;> infer_instance

def State.goto (s : State τ) (t : τ) (q : Pc) : State τ :=
  { s with pc := Function.update s.pc t q }

def State.withList (s : State τ) (a : AsyncPrimitive.Action τ τ Empty) :
    State τ :=
  { s with account := s.account.next ungated a }

def next (s : State τ) : Action τ → State τ
  | .coAwait t => s.goto t .ready
  | .ready t => s.goto t (if s.cancelled then .passed else .notReady)
  | .suspend t => (s.goto t .adding).withList (.callAdd t t)
  | .list t a =>
      let s' := s.withList a
      if s'.account.list.pc t = .idle then s'.goto t (s.pc t).afterList else s'
  | .recheck t =>
      if s.cancelled then (s.goto t .waking).withList (.callWakeAll t)
      else s.goto t .suspended
  | .callCancel t => s.goto t .exchange
  | .exchange t =>
      { s.goto t (if s.cancelled then .returned false else .callbacks) with
        cancelled := true }
  | .callbacksDone t => (s.goto t .wakingAll).withList (.callWakeAll t)
  | .resume t => s.withList (.resume t)

def system (τ : Type*) [DecidableEq τ] :
    TransitionSystem (State τ) (Action τ) where
  Initial s := s = initialState τ
  Enabled := Enabled
  next := next

instance (s : State τ) (a : Action τ) : Decidable ((system τ).Enabled s a) :=
  inferInstanceAs (Decidable (Enabled s a))

end CancellationAwaiter
end Ethreads
