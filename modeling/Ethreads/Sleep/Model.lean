import Ethreads.Cancellation.Callbacks
import Ethreads.TimerService.Gates

/-!
# A cancellable sleep

This module models one `co_await` of a `sleep_awaiter` of `include/sleep.hpp`
together with the timer service and the `cancellation_state` of its token.

The sleep is one call of `add_timer`, one registration and one call of
`unregister_callback`; everybody else may use the service and the token at the
same time.  The `fired` flag of its `sleep_waiter_state` is the gate of its
timer entry, to which the timer thread, `shutdown` and the cancellation callback
have access.  The callback runs between its start and its return in the token's
`cancellation_state`.  The coroutine goes on as soon as its handle was passed to
`schedule_coro_handle`, whether or not `suspend_impl` has returned.  The members
`state_` and `callback_id_` of the awaiter are taken to outlive `suspend_impl`,
also where the coroutine has gone on by then.
-/

namespace Ethreads
namespace Sleep

inductive SleepStatus
  | completed
  | cancelled
  deriving DecidableEq, Repr

/-- A sleep and its surroundings: the entries of all calls of `add_timer`, and
the registrations that the calls of `unregister_callback` are for.  Nobody else
has access to the gate of the sleep. -/
structure Config (ι γ η ρ υ : Type*) where
  entry : ι → TimerService.Entry γ η
  timer : ι
  deadline : ℕ
  handle : η
  gate : γ
  hasToken : Bool
  registration : ρ
  unregistration : υ
  target : υ → ρ
  entry_timer :
    entry timer = ⟨deadline, none, none, some ⟨some handle, gate⟩⟩
  gate_ne : ∀ i, i ≠ timer → TimerService.gate entry i ≠ some gate

/-- Where the awaiter stands before the coroutine is suspended, in `ready_impl`
and `suspend_impl`.  At `ready` the coroutine has not been suspended. -/
inductive SuspendPc
  | idle
  | readyToken
  | readyClock
  | ready
  | storeState
  | addTimer
  | adding
  | register
  | registering
  | done
  deriving DecidableEq, Repr

/-- Where the coroutine stands after it was resumed, in `resume_impl`. -/
inductive ResumePc
  | waiting
  | loadId
  | unregistering
  | loadToken
  | returned (status : SleepStatus)
  deriving DecidableEq, Repr

/-- Where the cancellation callback stands. -/
inductive CallbackPc
  | idle
  | claim
  | schedule
  | done
  deriving DecidableEq, Repr

/-- The timer service with the gates, the token's state, and the awaiter. -/
structure State (ι γ ρ υ κ : Type*) where
  gates : TimerService.GateState ι γ
  token : Cancellation.State ρ υ κ
  suspend : SuspendPc
  resume : ResumePc
  callback : CallbackPc
  callbackId : ℕ

def initialState (ι γ ρ υ κ : Type*) (clock : ℕ) : State ι γ ρ υ κ where
  gates := .initial ι γ clock
  token := Cancellation.initialState ρ υ κ
  suspend := .idle
  resume := .waiting
  callback := .idle
  callbackId := 0

/-- The atomic steps of the service, of the token and of the sleep. -/
inductive Action (ι γ ρ υ κ : Type*)
  | gates (a : TimerService.GateAction ι γ)
  | token (a : Cancellation.Action ρ υ κ)
  | coAwait
  | readyToken
  | readyClock
  | storeState
  | addTimer
  | timerAdded
  | register
  | storeId (id : ℕ)
  | callbackWon
  | callbackLost
  | callbackSchedule
  | resume
  | loadId
  | unregistered (id : ℕ)
  | loadToken
  deriving DecidableEq, Repr

variable {ι γ η ρ υ κ : Type*} (cfg : Config ι γ η ρ υ)

/-- `token_.is_cancelled()`. -/
def State.isCancelled (s : State ι γ ρ υ κ) : Bool :=
  cfg.hasToken && s.token.cancelled

/-- The others do not take the sleep's own steps at the timer service. -/
def PermitsGates : TimerService.GateAction ι γ → Prop
  | .service (.callAdd i) => i ≠ cfg.timer
  | .claim g | .deliver g => g ≠ cfg.gate
  | _ => True

/-- The others do not take the sleep's own steps at the token, they unregister
with the id that was returned for their callback, and the sleep's callback
returns when its body is done. -/
def State.PermitsToken (s : State ι γ ρ υ κ) :
    Cancellation.Action ρ υ κ → Prop
  | .callRegister r => r ≠ cfg.registration
  | .callUnregister u id =>
      u ≠ cfg.unregistration ∧ s.token.register (cfg.target u) = .returned id
  | .invoked r | .finish _ r _ => r = cfg.registration → s.callback = .done
  | _ => True

def Enabled (s : State ι γ ρ υ κ) : Action ι γ ρ υ κ → Prop
  | .gates a => s.gates.Enabled cfg.entry a ∧ PermitsGates cfg a
  | .token a => Cancellation.Enabled s.token a ∧ s.PermitsToken cfg a
  | .coAwait => s.suspend = .idle
  | .readyToken => s.suspend = .readyToken
  | .readyClock => s.suspend = .readyClock
  | .storeState => s.suspend = .storeState
  | .addTimer => s.suspend = .addTimer
  | .timerAdded =>
      s.suspend = .adding ∧ s.gates.service.add cfg.timer = .returned
  | .register => s.suspend = .register
  | .storeId id =>
      s.suspend = .registering ∧
        s.token.register cfg.registration = .returned id
  | .callbackWon =>
      s.callback = .claim ∧ s.gates.service.fired cfg.gate = false
  | .callbackLost =>
      s.callback = .claim ∧ s.gates.service.fired cfg.gate = true
  | .callbackSchedule => s.callback = .schedule
  | .resume => s.resume = .waiting ∧ s.gates.calls cfg.gate ≠ []
  | .loadId => s.resume = .loadId
  | .unregistered id =>
      s.resume = .unregistering ∧
        s.token.unregister cfg.unregistration = .returned id
  | .loadToken => s.resume = .loadToken

variable [DecidableEq ι] [DecidableEq γ] [DecidableEq ρ] [DecidableEq υ]
  [DecidableEq κ]

/-- The callback after a step of the token, which may start it. -/
def State.callbackAfter (s : State ι γ ρ υ κ)
    (a : Cancellation.Action ρ υ κ) : CallbackPc :=
  if a.invokes = some cfg.registration then .claim else s.callback

def next (s : State ι γ ρ υ κ) : Action ι γ ρ υ κ → State ι γ ρ υ κ
  | .gates a => { s with gates := s.gates.next cfg.entry a }
  | .token a =>
      { s with
        token := Cancellation.next s.token a
        callback := s.callbackAfter cfg a }
  | .coAwait => { s with suspend := .readyToken }
  | .readyToken =>
      if s.isCancelled cfg then { s with suspend := .ready, resume := .loadId }
      else { s with suspend := .readyClock }
  | .readyClock =>
      if cfg.deadline ≤ s.gates.service.clock then
        { s with suspend := .ready, resume := .loadId }
      else { s with suspend := .storeState }
  | .storeState =>
      { s with
        suspend := .addTimer
        gates.service :=
          TimerService.next s.gates.service (.store cfg.gate false) }
  | .addTimer =>
      { s with
        suspend := .adding
        gates := s.gates.next cfg.entry (.service (.callAdd cfg.timer)) }
  | .timerAdded =>
      { s with suspend := if cfg.hasToken then .register else .done }
  | .register =>
      { s with
        suspend := .registering
        token := Cancellation.next s.token (.callRegister cfg.registration) }
  | .storeId id => { s with suspend := .done, callbackId := id }
  | .callbackWon =>
      { s with
        callback := .schedule
        gates := s.gates.next cfg.entry (.claim cfg.gate) }
  | .callbackLost => { s with callback := .done }
  | .callbackSchedule =>
      { s with
        callback := .done
        gates := s.gates.next cfg.entry (.deliver cfg.gate) }
  | .resume => { s with resume := .loadId }
  | .loadId =>
      if cfg.hasToken = true ∧ s.callbackId ≠ 0 then
        { s with
          resume := .unregistering
          token := Cancellation.next s.token
            (.callUnregister cfg.unregistration s.callbackId) }
      else { s with resume := .loadToken }
  | .unregistered _ => { s with resume := .loadToken }
  | .loadToken =>
      { s with
        resume :=
          .returned (if s.isCancelled cfg then .cancelled else .completed) }

def system (κ : Type*) [DecidableEq κ] :
    TransitionSystem (State ι γ ρ υ κ) (Action ι γ ρ υ κ) where
  Initial s := ∃ clock, s = initialState ι γ ρ υ κ clock
  Enabled := Enabled cfg
  next := next cfg

instance (a : TimerService.GateAction ι γ) :
    Decidable (PermitsGates cfg a) := by
  induction a using TimerService.GateAction.casesOn with
  | service b =>
      induction b using TimerService.Action.casesOn <;>
        dsimp only [PermitsGates] <;> infer_instance
  | _ => dsimp only [PermitsGates]; infer_instance

instance (s : State ι γ ρ υ κ) (a : Cancellation.Action ρ υ κ) :
    Decidable (s.PermitsToken cfg a) := by
  induction a using Cancellation.Action.casesOn <;>
    dsimp only [State.PermitsToken] <;> infer_instance

instance (s : State ι γ ρ υ κ) (a : TimerService.GateAction ι γ) :
    Decidable (s.gates.Enabled cfg.entry a) :=
  inferInstanceAs
    (Decidable ((TimerService.gateSystem cfg.entry).Enabled s.gates a))

instance (s : State ι γ ρ υ κ) (a : Action ι γ ρ υ κ) :
    Decidable ((system cfg κ).Enabled s a) := by
  cases a <;> dsimp only [system, Enabled] <;> infer_instance

end Sleep
end Ethreads
