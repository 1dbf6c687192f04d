import Ethreads.AsyncWait.Model

/-!
# Events

This module models `sync_event` and `async_event` of
`include/shared_state/event.hpp`.  Both reset policies are instances, given by
`is_auto_reset`.

Next to the flag the state counts what happens to the signals: the calls of
`set`, the waits that found the flag raised, and the signals that nobody can
find any more, because `set` found the flag already raised or `reset` took it
down.  The counters are not part of the program.
-/

namespace Ethreads
namespace AsyncEvent

/-- The flag `signaled_` and what has happened to the signals. -/
structure Event where
  signaled : Bool
  sets : ℕ
  taken : ℕ
  lost : ℕ
  deriving DecidableEq, Repr

def initial (signaled : Bool) : Event where
  signaled := signaled
  sets := 0
  taken := 0
  lost := 0

/-- `sync_event::set`. -/
def Event.set (x : Event) : Event :=
  { x with
    signaled := true
    sets := x.sets + 1
    lost := x.lost + x.signaled.toNat }

def Event.reset (x : Event) : Event :=
  { x with signaled := false, lost := x.lost + x.signaled.toNat }

/-- The end of `try_wait`, `wait`, `wait_for` and `wait_until` when the flag is
raised. -/
def Event.tryWait (isAutoReset : Bool) (x : Event) : Option Event :=
  if x.signaled then
    some { x with signaled := !isAutoReset, taken := x.taken + 1 }
  else none

inductive Operation
  | set
  | reset
  | isSet
  | tryWait
  deriving DecidableEq, Repr

/-- `async_event`: `set` goes on to `wake_one` or to `wake_all`. -/
def asyncEvent (isAutoReset : Bool) :
    AsyncWait.Primitive Event Operation Unit where
  pass _ x := x.tryWait isAutoReset
  apply
    | .set, x => x.set
    | .reset, x => x.reset
    | .isSet, x => x
    | .tryWait, x => (x.tryWait isAutoReset).getD x
  after
    | .set, _ => if isAutoReset then .wakeOne else .wakeAll
    | .reset, _ | .isSet, _ | .tryWait, _ => .done

abbrev State (τ : Type*) := AsyncWait.State τ Event Unit

abbrev Action (τ : Type*) := AsyncWait.Action τ Operation Unit

abbrev system (isAutoReset initialState : Bool) (τ : Type*) [DecidableEq τ] :
    TransitionSystem (State τ) (Action τ) :=
  AsyncWait.system (asyncEvent isAutoReset) (initial initialState) τ

theorem over_iff {isAutoReset : Bool} {k : Unit} {x : Event} :
    (asyncEvent isAutoReset).Over k x ↔ x.signaled = true := by
  unfold AsyncWait.Primitive.Over asyncEvent Event.tryWait
  cases h : x.signaled <;> simp [h]

end AsyncEvent
end Ethreads
