import Ethreads.CoroTask.Handoff
import Ethreads.Support.TransitionSystem

/-!
# The continuation handoff

This module models `continuation_handoff` of
`include/shared_state/continuation_handoff.hpp` for any number of calls of
`set_ready` and of `set_continuation` on one object.

Every load and every attempt of a weak compare-exchange is one step.  A failed
attempt, which may be spurious, leaves the current word in `old_val`.  What a
call returns is computed from `old_val` and decided together with the step
before it.  A call of `set_ready` that has returned `true` may load the
continuation with `get_continuation`.

The field `first` is not part of the program.  It records the first
`set_continuation` whose compare-exchange succeeded.
-/

namespace Ethreads
namespace ContinuationHandoff

open CoroTask (Handle isReady hasContinuation withReady withContinuation
  afterExchange)

/-- Where a call of `set_ready` stands. -/
inductive ProducerPc
  | idle
  | loop (oldVal : BitVec 64)
  | returned (resume : Bool)
  | resuming (continuation : BitVec 64)
  deriving DecidableEq, Repr

/-- Where a call of `set_continuation` stands.  It returns the address of a
handle. -/
inductive ConsumerPc
  | idle
  | loop (oldVal : BitVec 64)
  | returned (toResume : BitVec 64)
  deriving DecidableEq, Repr

/-- The word `state_`, the calls of `set_ready` and the calls of
`set_continuation`. -/
structure State (π κ : Type*) where
  word : BitVec 64
  producer : π → ProducerPc
  consumer : κ → ConsumerPc
  first : Option κ

def initialState (π κ : Type*) : State π κ where
  word := 0
  producer := fun _ => .idle
  consumer := fun _ => .idle
  first := none

variable {π κ : Type*}

inductive Action (π κ : Type*)
  | loadReady (p : π)
  | alreadyReady (p : π) (oldVal : BitVec 64)
  | setReady (p : π) (oldVal : BitVec 64)
  | setReadyFails (p : π) (oldVal : BitVec 64)
  | getContinuation (p : π)
  | loadContinuation (c : κ)
  | continuationTaken (c : κ) (oldVal : BitVec 64)
  | setContinuation (c : κ) (oldVal : BitVec 64)
  | setContinuationFails (c : κ) (oldVal : BitVec 64)
  deriving DecidableEq, Repr

def Enabled (s : State π κ) : Action π κ → Prop
  | .loadReady p => s.producer p = .idle
  | .alreadyReady p old => s.producer p = .loop old ∧ isReady old = true
  | .setReady p old =>
      s.producer p = .loop old ∧ isReady old = false ∧ s.word = old
  | .setReadyFails p old => s.producer p = .loop old ∧ isReady old = false
  | .getContinuation p => s.producer p = .returned true
  | .loadContinuation c => s.consumer c = .idle
  | .continuationTaken c old =>
      s.consumer c = .loop old ∧ hasContinuation old = true
  | .setContinuation c old =>
      s.consumer c = .loop old ∧ hasContinuation old = false ∧ s.word = old
  | .setContinuationFails c old =>
      s.consumer c = .loop old ∧ hasContinuation old = false

variable [DecidableEq π] [DecidableEq κ]

instance (s : State π κ) (a : Action π κ) : Decidable (Enabled s a) := by
  cases a <;> dsimp only [Enabled] <;> infer_instance

/-- A call of `set_ready` moves to the program point `q`. -/
def State.producerTo (s : State π κ) (p : π) (q : ProducerPc) : State π κ :=
  { s with producer := Function.update s.producer p q }

/-- A call of `set_continuation` moves to the program point `q`. -/
def State.consumerTo (s : State π κ) (c : κ) (q : ConsumerPc) : State π κ :=
  { s with consumer := Function.update s.consumer c q }

variable {noop : BitVec 64}

/-- The effect of a step, for calls of `set_continuation` with the given
handles. -/
def next (handle : κ → Handle noop) (s : State π κ) :
    Action π κ → State π κ
  | .loadReady p => s.producerTo p (.loop s.word)
  | .alreadyReady p _ => s.producerTo p (.returned false)
  | .setReady p old =>
      { s.producerTo p (.returned (hasContinuation old)) with
        word := withReady old }
  | .setReadyFails p _ => s.producerTo p (.loop s.word)
  | .getContinuation p =>
      s.producerTo p (.resuming (CoroTask.getContinuation noop s.word))
  | .loadContinuation c => s.consumerTo c (.loop s.word)
  | .continuationTaken c _ => s.consumerTo c (.returned noop)
  | .setContinuation c old =>
      { s.consumerTo c (.returned
          (afterExchange noop old (handle c).address)) with
        word := withContinuation old (handle c).address
        first := s.first.or (some c) }
  | .setContinuationFails c _ => s.consumerTo c (.loop s.word)

def system (π : Type*) [DecidableEq π] (handle : κ → Handle noop) :
    TransitionSystem (State π κ) (Action π κ) where
  Initial s := s = initialState π κ
  Enabled := Enabled
  next := next handle

instance (handle : κ → Handle noop) (s : State π κ) (a : Action π κ) :
    Decidable ((system π handle).Enabled s a) :=
  inferInstanceAs (Decidable (Enabled s a))

end ContinuationHandoff
end Ethreads
