import Ethreads.TimerService.Exclusion

/-!
# Calls of the timer service

The timer thread, the thread in `shutdown` and each call of `add_timer` are
agents.  A step is made by one agent, and the others stay where they are, but
for the timer thread, which may be notified.
-/

namespace Ethreads
namespace TimerService

variable {ι γ η : Type*}

/-- The agent that makes a step; there is none for what happens outside of the
service. -/
def Action.agent : Action ι γ → Option (Holder ι)
  | lockTimer | loadRunningTrue | loadRunningFalse | heapEmpty | heapNotEmpty
  | predicateHeapTrue | predicateHeapFalse | predicateStopped
  | predicateRunning | wait | wake | relockWait | readClock | pop _ _
  | popNothing _ _ | notDue _ | timedWait | timedWake | relockTimedWait
  | fireWon _ _ | fireLost _ _ | unlockFired _ | schedule _ | relock
  | unlockExit => some .timer
  | callAdd i | lockAdd i | push i | unlockAdd i | notifyAdd i =>
      some (.caller i)
  | callShutdown | exchangeFirst | exchangeAgain | notifyShutdown | join
  | lockShutdown | drainNothing _ _ | drain _ _ | drainWon _ _ _
  | drainLost _ _ _ | drainSchedule _ _ | clear | unlockShutdown =>
      some .shutdown
  | store _ _ | tick => none

/-- The step begins a call. -/
def Action.calls : Action ι γ → Bool
  | callAdd _ | callShutdown => true
  | _ => false

def Action.returns : Action ι γ → Bool
  | notifyAdd _ | exchangeAgain | unlockShutdown | unlockExit => true
  | _ => false

/-- The step is a call of `schedule_coro_handle`. -/
def Action.schedules : Action ι γ → Bool
  | schedule _ | drainSchedule _ _ => true
  | _ => false

def TimerPc.locks : TimerPc ι → Bool
  | lock | notified | woken | timedWoken | relock => true
  | _ => false

/-- The agent is about to lock the mutex. -/
def State.locks (s : State ι γ) : Holder ι → Bool
  | .timer => s.timer.locks
  | .shutdown => match s.shutdown with | .lock => true | _ => false
  | .caller i => match s.add i with | .lock => true | _ => false

def ShutdownPc.isActive : ShutdownPc ι → Bool
  | idle | returned => false
  | _ => true

def AddPc.isActive : AddPc → Bool
  | idle | returned => false
  | _ => true

/-- The agent is in its function. -/
def State.isActive (s : State ι γ) : Holder ι → Bool
  | .timer => true
  | .shutdown => s.shutdown.isActive
  | .caller i => (s.add i).isActive

/-- The agent is at the point after a call of `schedule_coro_handle`. -/
def State.hasCalled (s : State ι γ) : Holder ι → Bool
  | .timer => match s.timer with | .relock => true | _ => false
  | .shutdown => match s.shutdown with | .drain _ => true | _ => false
  | .caller _ => false

/-- An agent that has called `schedule_coro_handle` while it holds the mutex is
in `shutdown`. -/
theorem eq_shutdown_of_hasCalled {s : State ι γ} {p : Holder ι}
    (hcalled : s.hasCalled p = true) (hholds : s.holds p = true) :
    p = .shutdown := by
  cases p with
  | shutdown => rfl
  | caller i => cases hcalled
  | timer =>
      have ht : s.timer.holds = true := hholds
      simp only [State.hasCalled] at hcalled
      cases hpc : s.timer with
      | relock =>
          rw [hpc] at ht
          cases ht
      | _ =>
          rw [hpc] at hcalled
          cases hcalled

section Frame

variable [DecidableEq ι] [DecidableEq γ] {s : State ι γ} {a : Action ι γ}
  {entry : ι → Entry γ η} {p : Holder ι}

theorem add_next_of_ne {i : ι} (h : a.agent ≠ some (.caller i)) :
    (next s a).add i = s.add i := by
  cases a with
  | callAdd j | lockAdd j | push j | unlockAdd j | notifyAdd j =>
      exact Function.update_of_ne (fun hi => h (by rw [hi]; rfl)) _ _
  | _ => rfl

theorem shutdown_next_of_ne (h : a.agent ≠ some .shutdown) :
    (next s a).shutdown = s.shutdown := by
  cases a with
  | callShutdown | exchangeFirst | exchangeAgain | notifyShutdown | join
  | lockShutdown | drainNothing i rest | drain i rest | drainWon i rest g
  | drainLost i rest g | drainSchedule i rest | clear | unlockShutdown =>
      exact absurd rfl h
  | _ => rfl

theorem timer_next_of_ne (h : a.agent ≠ some .timer) :
    (next s a).timer = s.timer ∨ (next s a).timer = s.timer.notify := by
  cases a with
  | callAdd j | lockAdd j | push j | unlockAdd j | callShutdown
  | exchangeFirst | exchangeAgain | join | lockShutdown | drainNothing i rest
  | drain i rest | drainWon i rest g | drainLost i rest g
  | drainSchedule i rest | clear | unlockShutdown | store g b | tick =>
      exact .inl rfl
  | notifyAdd j | notifyShutdown => exact .inr rfl
  | _ => exact absurd rfl h

theorem holds_next_of_ne (h : a.agent ≠ some p) :
    (next s a).holds p = s.holds p := by
  cases p with
  | timer =>
      rcases timer_next_of_ne h with ht | ht
      · exact congrArg TimerPc.holds ht
      · exact (congrArg TimerPc.holds ht).trans (holds_notify s.timer)
  | shutdown => exact congrArg ShutdownPc.holds (shutdown_next_of_ne h)
  | caller i => exact congrArg AddPc.holds (add_next_of_ne h)

theorem isActive_next_of_ne (h : a.agent ≠ some p) :
    (next s a).isActive p = s.isActive p := by
  cases p with
  | timer => rfl
  | shutdown => exact congrArg ShutdownPc.isActive (shutdown_next_of_ne h)
  | caller i => exact congrArg AddPc.isActive (add_next_of_ne h)

theorem hasCalled_next_of_ne (h : a.agent ≠ some p)
    (hp : s.hasCalled p = true) : (next s a).hasCalled p = true := by
  cases p with
  | timer =>
      have hpc : s.timer = .relock := by
        simp only [State.hasCalled] at hp
        cases hpc : s.timer with
        | relock => rfl
        | _ => rw [hpc] at hp; cases hp
      simp only [State.hasCalled]
      rcases timer_next_of_ne h with ht | ht
      · rw [ht, hpc]
      · rw [ht, hpc]
        rfl
  | shutdown =>
      simp only [State.hasCalled]
      rw [shutdown_next_of_ne h]
      exact hp
  | caller i => exact hp

theorem isActive_of_calls (ha : Enabled entry s a) (hcalls : a.calls = true)
    (hp : a.agent = some p) :
    s.isActive p = false ∧ (next s a).isActive p = true := by
  cases a with
  | callAdd i =>
      obtain rfl := Option.some.inj hp
      have hpc : s.add i = .idle := ha
      refine ⟨congrArg AddPc.isActive hpc, ?_⟩
      refine (congrArg AddPc.isActive (Function.update_self ..)).trans ?_
      rfl
  | callShutdown =>
      obtain rfl := Option.some.inj hp
      refine ⟨?_, rfl⟩
      rcases ha with hpc | hpc <;> exact congrArg ShutdownPc.isActive hpc
  | _ => cases hcalls

theorem isActive_of_step (hreturns : a.returns = false)
    (hp : a.agent = some p) : (next s a).isActive p = true := by
  cases a with
  | callAdd i | lockAdd i | push i | unlockAdd i =>
      obtain rfl := Option.some.inj hp
      refine (congrArg AddPc.isActive (Function.update_self ..)).trans ?_
      rfl
  | notifyAdd i | exchangeAgain | unlockShutdown | unlockExit => cases hreturns
  | store g b | tick => cases hp
  | _ =>
      obtain rfl := Option.some.inj hp
      rfl

theorem hasCalled_of_schedules (hschedules : a.schedules = true)
    (hp : a.agent = some p) : (next s a).hasCalled p = true := by
  cases a with
  | schedule i | drainSchedule i rest =>
      obtain rfl := Option.some.inj hp
      rfl
  | _ => cases hschedules

end Frame

end TimerService
end Ethreads
