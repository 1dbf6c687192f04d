import Ethreads.Cancellation.Calls
import Ethreads.Support.CallStack
import Ethreads.TimerService.Calls

/-!
# Threads that call back into the library

This module puts the timer service and any number of `cancellation_state`s
together with the call stacks of the threads.  A frame is a call of a function
of the library, or user code: a coroutine that was resumed, or a callback.  Only
the topmost call of a thread takes steps, and user code may do anything: it
calls the library, and returns when it likes.

`schedule_coro_handle` of `src/coro_scheduler.cpp` sends the handle to a queue,
unless the scheduler is shutting down or has no coroutine workers.  Then it
resumes the coroutine inline, as user code on top of the caller.
-/

namespace Ethreads
namespace Reentrancy

/-- The mutexes of the library that user code may come back to. -/
inductive Mutex (θ : Type*)
  | timer
  | token (k : θ)
  deriving DecidableEq, Repr

/-- A frame of a call stack: user code, a call of the timer service or the loop
of its thread, or a call of a function of a `cancellation_state`. -/
inductive Frame (θ ι ρ υ κ : Type*)
  | user
  | service (p : TimerService.Holder ι)
  | token (k : θ) (p : Cancellation.Holder ρ υ κ)
  deriving DecidableEq, Repr

/-- The entries of the calls of `add_timer`, the thread of the timer service,
and whether there are coroutine workers. -/
structure Config (τ ι γ η : Type*) where
  entry : ι → TimerService.Entry γ η
  timerThread : τ
  hasWorkers : Bool

/-- The timer service, the cancellation states, the flag of the scheduler and
the call stacks, the topmost call first. -/
structure State (τ θ ι γ ρ υ κ : Type*) where
  service : TimerService.State ι γ
  token : θ → Cancellation.State ρ υ κ
  shuttingDown : Bool
  stack : τ → List (Frame θ ι ρ υ κ)

inductive Action (τ θ ι γ ρ υ κ : Type*)
  | shutDown
  | begin (t : τ)
  | finish (t : τ)
  | resume (t : τ)
  | service (t : τ) (p : TimerService.Holder ι) (a : TimerService.Action ι γ)
  | outside (a : TimerService.Action ι γ)
  | token (t : τ) (k : θ) (a : Cancellation.Action ρ υ κ)
  deriving DecidableEq, Repr

variable {τ θ ι γ η ρ υ κ : Type*} (cfg : Config τ ι γ η)

/-- `schedule_coro_handle` resumes inline. -/
def State.resumesInline (s : State τ θ ι γ ρ υ κ) : Bool :=
  s.shuttingDown || !cfg.hasWorkers

/-- The frame may call `schedule_coro_handle` any number of times: user code
does what it likes, and `cancel` wakes all waiters in the end. -/
def State.wakes (s : State τ θ ι γ ρ υ κ) : Frame θ ι ρ υ κ → Bool
  | .user => true
  | .token k (.cancel c) =>
      match (s.token k).cancel c with | .wakeAll => true | _ => false
  | _ => false

def Enabled (s : State τ θ ι γ ρ υ κ) : Action τ θ ι γ ρ υ κ → Prop
  | .shutDown => True
  | .begin t => s.stack t = [] ∧ t ≠ cfg.timerThread
  | .finish t => (s.stack t).head? = some .user
  | .resume t =>
      s.resumesInline cfg = true ∧ (s.stack t).head?.any s.wakes = true
  | .service t p a =>
      TimerService.Enabled cfg.entry s.service a ∧ a.agent = some p ∧
        (s.stack t).head? = some (if a.calls then .user else .service p)
  | .outside a =>
      TimerService.Enabled cfg.entry s.service a ∧ a.agent = none
  | .token t k a =>
      Cancellation.Enabled (s.token k) a ∧
        (s.stack t).head? = some (if a.calls then .user else .token k a.agent)

/-- A stack after a step of a call `f`, which begins, returns, or starts user
code. -/
def stackAfter (calls returns starts : Bool) (f : Frame θ ι ρ υ κ)
    (l : List (Frame θ ι ρ υ κ)) : List (Frame θ ι ρ υ κ) :=
  if calls then f :: l
  else if returns then l.tail
  else if starts then .user :: l
  else l

variable [DecidableEq τ] [DecidableEq θ] [DecidableEq ι] [DecidableEq γ]
  [DecidableEq ρ] [DecidableEq υ] [DecidableEq κ]

def next (s : State τ θ ι γ ρ υ κ) :
    Action τ θ ι γ ρ υ κ → State τ θ ι γ ρ υ κ
  | .shutDown => { s with shuttingDown := true }
  | .begin t => { s with stack := Function.update s.stack t [.user] }
  | .finish t =>
      { s with stack := Function.update s.stack t (s.stack t).tail }
  | .resume t =>
      { s with stack := Function.update s.stack t (.user :: s.stack t) }
  | .service t p a =>
      { s with
        service := TimerService.next s.service a
        stack := Function.update s.stack t (stackAfter a.calls a.returns
          (a.schedules && s.resumesInline cfg) (.service p) (s.stack t)) }
  | .outside a => { s with service := TimerService.next s.service a }
  | .token t k a =>
      { s with
        token := Function.update s.token k (Cancellation.next (s.token k) a)
        stack := Function.update s.stack t (stackAfter a.calls
          ((s.token k).returns a) a.invokes.isSome (.token k a.agent)
            (s.stack t)) }

omit [DecidableEq θ] [DecidableEq γ] [DecidableEq ρ] [DecidableEq υ]
  [DecidableEq κ] [DecidableEq ι] in
/-- Only the loop of the timer thread runs. -/
def initialState (fired : γ → Bool) (clock : ℕ) : State τ θ ι γ ρ υ κ where
  service := TimerService.initialState ι γ fired clock
  token := fun _ => Cancellation.initialState ρ υ κ
  shuttingDown := false
  stack := Function.update (fun _ => []) cfg.timerThread [.service .timer]

def system (θ ρ υ κ : Type*) [DecidableEq θ] [DecidableEq ρ] [DecidableEq υ]
    [DecidableEq κ] :
    TransitionSystem (State τ θ ι γ ρ υ κ) (Action τ θ ι γ ρ υ κ) where
  Initial s := ∃ fired clock, s = initialState cfg fired clock
  Enabled := Enabled cfg
  next := next cfg

instance (s : State τ θ ι γ ρ υ κ) (a : Action τ θ ι γ ρ υ κ) :
    Decidable ((system cfg θ ρ υ κ).Enabled s a) := by
  cases a <;> dsimp only [system, Enabled] <;> infer_instance

end Reentrancy
end Ethreads
