import Ethreads.Cancellation.Callbacks

/-!
# A cancellable blocking call

This module models one `co_await` of a `cancellable_blocking_awaiter` of
`include/async_runtime.hpp` together with the `cancellation_state` of its token
and the task that it gives to the pool.

The task of the pool and the cancellation callback are two parties that try to
claim the coroutine.  The callback runs between its start and its return in the
token's `cancellation_state`; the task runs at any time after its submission,
on a worker or inside `schedule_task_on_pool`.  The coroutine goes on as soon
as its handle was passed to `schedule_coro_handle`, whether or not
`await_suspend` has returned, and the awaiter is taken to outlive
`await_suspend`.

The specialisation for `void` has the same steps without a result: it is the
case of a value type with one element.
-/

namespace Ethreads
namespace CancellableBlocking

inductive BlockingStatus
  | completed
  | cancelled
  deriving DecidableEq, Repr

structure BlockingResult (V E : Type*) where
  status : BlockingStatus
  value : Option V
  exception : Option E
  deriving DecidableEq, Repr

/-- How `get` ends: it returns a value, rethrows an exception, throws
`cancelled_exception`, or reads an empty `optional`. -/
inductive GetOutcome (V E : Type*)
  | returned (v : V)
  | rethrown (e : E)
  | cancelledException
  | undefined
  deriving DecidableEq, Repr

def BlockingResult.get {V E : Type*} (r : BlockingResult V E) :
    GetOutcome V E :=
  match r.exception with
  | some e => .rethrown e
  | none =>
      match r.status with
      | .cancelled => .cancelledException
      | .completed =>
          match r.value with
          | some v => .returned v
          | none => .undefined

/-- A blocking call and its surroundings: what the callable returns or throws,
and the calls that the awaiter makes at the token, if there is one. -/
structure Config (η ρ υ V E : Type*) where
  handle : η
  outcome : Except E V
  hasToken : Bool
  registration : ρ
  unregistration : υ

def Config.value {η ρ υ V E : Type*} (cfg : Config η ρ υ V E) : Option V :=
  match cfg.outcome with
  | .ok v => some v
  | .error _ => none

def Config.exception {η ρ υ V E : Type*} (cfg : Config η ρ υ V E) :
    Option E :=
  match cfg.outcome with
  | .ok _ => none
  | .error e => some e

/-- What `get` of a completed call has to do. -/
def Config.expected {η ρ υ V E : Type*} (cfg : Config η ρ υ V E) :
    GetOutcome V E :=
  match cfg.outcome with
  | .ok v => .returned v
  | .error e => .rethrown e

/-- Who may claim the coroutine. -/
inductive Party
  | task
  | callback
  deriving DecidableEq, Repr

instance : Fintype Party where
  elems := {Party.task, Party.callback}
  complete p := by cases p <;> decide

def Party.status : Party → BlockingStatus
  | task => .completed
  | callback => .cancelled

/-- Where a party stands.  Only the task is ever at `invoke`. -/
inductive PartyPc
  | idle
  | invoke
  | claim
  | storeStatus
  | schedule
  | done
  deriving DecidableEq, Repr

inductive SuspendPc
  | idle
  | storeHandle
  | register
  | registering
  | submit
  | done
  deriving DecidableEq, Repr

/-- Where the coroutine stands in `await_resume`, with the fields of the result
that it has copied. -/
inductive ResumePc (V E : Type*)
  | waiting
  | loadId
  | unregistering
  | copyStatus
  | moveValue (status : BlockingStatus)
  | copyException (status : BlockingStatus) (value : Option V)
  | returned (result : BlockingResult V E)
  deriving DecidableEq, Repr

/-- The token's state, the awaiter, the parties, the `shared_data`, and the
handles passed to `schedule_coro_handle`. -/
structure State (η ρ υ κ V E : Type*) where
  token : Cancellation.State ρ υ κ
  suspend : SuspendPc
  resume : ResumePc V E
  callbackId : ℕ
  party : Party → PartyPc
  resumed : Bool
  handle : Option η
  result : Option V
  exception : Option E
  status : BlockingStatus
  scheduled : List (Option η)

def initialState (η ρ υ κ V E : Type*) : State η ρ υ κ V E where
  token := Cancellation.initialState ρ υ κ
  suspend := .idle
  resume := .waiting
  callbackId := 0
  party := fun _ => .idle
  resumed := false
  handle := none
  result := none
  exception := none
  status := .completed
  scheduled := []

/-- The atomic steps of the token, of the awaiter and of the two parties. -/
inductive Action (ρ υ κ V : Type*)
  | token (a : Cancellation.Action ρ υ κ)
  | coAwait
  | storeHandle
  | register
  | storeId (id : ℕ)
  | submit
  | invoke
  | claimWon (p : Party)
  | claimLost (p : Party)
  | storeStatus (p : Party)
  | schedule (p : Party)
  | resume
  | loadId
  | unregistered (id : ℕ)
  | copyStatus
  | moveValue (status : BlockingStatus)
  | copyException (status : BlockingStatus) (value : Option V)
  deriving DecidableEq, Repr

variable {η ρ υ κ V E : Type*} (cfg : Config η ρ υ V E)

/-- The others do not take the awaiter's own steps at the token, and its
callback returns when its body is done. -/
def State.PermitsToken (s : State η ρ υ κ V E) :
    Cancellation.Action ρ υ κ → Prop
  | .callRegister r => r ≠ cfg.registration
  | .callUnregister u _ => u ≠ cfg.unregistration
  | .invoked r | .finish _ r _ =>
      r = cfg.registration → s.party .callback = .done
  | _ => True

def Enabled (s : State η ρ υ κ V E) : Action ρ υ κ V → Prop
  | .token a => Cancellation.Enabled s.token a ∧ s.PermitsToken cfg a
  | .coAwait => s.suspend = .idle
  | .storeHandle => s.suspend = .storeHandle
  | .register => s.suspend = .register
  | .storeId id =>
      s.suspend = .registering ∧
        s.token.register cfg.registration = .returned id
  | .submit => s.suspend = .submit
  | .invoke => s.party .task = .invoke
  | .claimWon p => s.party p = .claim ∧ s.resumed = false
  | .claimLost p => s.party p = .claim ∧ s.resumed = true
  | .storeStatus p => s.party p = .storeStatus
  | .schedule p => s.party p = .schedule
  | .resume => s.resume = .waiting ∧ s.scheduled ≠ []
  | .loadId => s.resume = .loadId
  | .unregistered id =>
      s.resume = .unregistering ∧
        s.token.unregister cfg.unregistration = .returned id
  | .copyStatus => s.resume = .copyStatus
  | .moveValue status => s.resume = .moveValue status
  | .copyException status value => s.resume = .copyException status value

section Next

variable [DecidableEq ρ] [DecidableEq υ] [DecidableEq κ]

def State.partyTo (s : State η ρ υ κ V E) (p : Party) (q : PartyPc) :
    State η ρ υ κ V E :=
  { s with party := Function.update s.party p q }

/-- The parties after a step of the token, which may start the callback. -/
def State.partyAfter (s : State η ρ υ κ V E)
    (a : Cancellation.Action ρ υ κ) : Party → PartyPc :=
  if a.invokes = some cfg.registration then
    Function.update s.party .callback .claim
  else s.party

/-- The effect of a step.  Nobody reads the result after it was moved out. -/
def next (s : State η ρ υ κ V E) : Action ρ υ κ V → State η ρ υ κ V E
  | .token a =>
      { s with
        token := Cancellation.next s.token a
        party := s.partyAfter cfg a }
  | .coAwait => { s with suspend := .storeHandle }
  | .storeHandle =>
      { s with
        suspend := if cfg.hasToken then .register else .submit
        handle := some cfg.handle }
  | .register =>
      { s with
        suspend := .registering
        token := Cancellation.next s.token (.callRegister cfg.registration) }
  | .storeId id => { s with suspend := .submit, callbackId := id }
  | .submit => { s.partyTo .task .invoke with suspend := .done }
  | .invoke =>
      { s.partyTo .task .claim with
        result := cfg.value
        exception := cfg.exception }
  | .claimWon p => { s.partyTo p .storeStatus with resumed := true }
  | .claimLost p => s.partyTo p .done
  | .storeStatus p => { s.partyTo p .schedule with status := p.status }
  | .schedule p =>
      { s.partyTo p .done with scheduled := s.scheduled ++ [s.handle] }
  | .resume => { s with resume := .loadId }
  | .loadId =>
      if cfg.hasToken = true ∧ s.callbackId ≠ 0 then
        { s with
          resume := .unregistering
          token := Cancellation.next s.token
            (.callUnregister cfg.unregistration s.callbackId) }
      else { s with resume := .copyStatus }
  | .unregistered _ => { s with resume := .copyStatus }
  | .copyStatus => { s with resume := .moveValue s.status }
  | .moveValue status => { s with resume := .copyException status s.result }
  | .copyException status value =>
      { s with resume := .returned ⟨status, value, s.exception⟩ }

def system (κ : Type*) [DecidableEq κ] :
    TransitionSystem (State η ρ υ κ V E) (Action ρ υ κ V) where
  Initial s := s = initialState η ρ υ κ V E
  Enabled := Enabled cfg
  next := next cfg

instance (s : State η ρ υ κ V E) (a : Cancellation.Action ρ υ κ) :
    Decidable (s.PermitsToken cfg a) := by
  induction a using Cancellation.Action.casesOn <;>
    dsimp only [State.PermitsToken] <;> infer_instance

instance [DecidableEq η] [DecidableEq V] [DecidableEq E]
    (s : State η ρ υ κ V E) (a : Action ρ υ κ V) :
    Decidable ((system cfg κ).Enabled s a) := by
  cases a <;> dsimp only [system, Enabled] <;> infer_instance

end Next

end CancellableBlocking
end Ethreads
