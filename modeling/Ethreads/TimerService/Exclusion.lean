import Ethreads.Support.Mutex
import Ethreads.TimerService.Entries

/-!
# The mutex of the timer service

The timer thread, the calls of `add_timer` and the thread in `shutdown` change
the heap only while they hold `mutex_`.  While one of them holds it, the heap is
not changed by the others.  The sweep of `shutdown` begins only after `running_`
has become false.
-/

namespace Ethreads
namespace TimerService

variable {ι γ η : Type*}

def TimerPc.holds : TimerPc ι → Bool
  | loadRunning | testHeap | predicateHeap | predicateRunning | enterWait
  | readClock | compare _ | enterTimedWait | fire _ | unlockFired _
  | unlockExit => true
  | _ => false

def AddPc.holds : AddPc → Bool
  | push | unlock => true
  | _ => false

def ShutdownPc.holds : ShutdownPc ι → Bool
  | drain _ | fire _ _ | schedule _ _ | unlock => true
  | _ => false

/-- Whether a thread stands where it holds the mutex. -/
def State.holds (s : State ι γ) : Holder ι → Bool
  | .timer => s.timer.holds
  | .shutdown => s.shutdown.holds
  | .caller i => (s.add i).holds

/-- The owner of the mutex is the thread that stands where it holds it. -/
def Exclusive (s : State ι γ) : Prop :=
  Guards id s.mutex s.holds

theorem holds_notify (p : TimerPc ι) : p.notify.holds = p.holds := by
  cases p <;> rfl

namespace Exclusive

variable {s s' : State ι γ}

/-- While one of them holds the mutex, the others do not. -/
theorem not_holds_of_ne (h : Exclusive s) {p q : Holder ι}
    (hp : s.holds p = true) (hq : q ≠ p) : s.holds q = false :=
  h.outside_of_ne (t := p) (u := q) hp hq

/-- While the timer thread holds the mutex, no call of `add_timer` does. -/
theorem add_of_timer (h : Exclusive s) (ht : s.timer.holds = true) (i : ι) :
    (s.add i).holds = false :=
  h.not_holds_of_ne (p := .timer) (q := .caller i) ht nofun

theorem shutdown_of_timer (h : Exclusive s) (ht : s.timer.holds = true) :
    s.shutdown.holds = false :=
  h.not_holds_of_ne (p := .timer) (q := .shutdown) ht nofun

theorem add_of_shutdown (h : Exclusive s) (hs : s.shutdown.holds = true)
    (i : ι) : (s.add i).holds = false :=
  h.not_holds_of_ne (p := .shutdown) (q := .caller i) hs nofun

theorem of_same (h : Exclusive s) (hmutex : s'.mutex = s.mutex)
    (htimer : s'.timer.holds = s.timer.holds)
    (hadd : ∀ i, (s'.add i).holds = (s.add i).holds)
    (hshutdown : s'.shutdown.holds = s.shutdown.holds) : Exclusive s' := by
  have hholds : s'.holds = s.holds := by
    funext p
    cases p with
    | timer => exact htimer
    | shutdown => exact hshutdown
    | caller i => exact hadd i
  unfold Exclusive
  rw [hholds, hmutex]
  exact h

variable [DecidableEq ι]

theorem holds_of_timer (hadd : s'.add = s.add)
    (hshutdown : s'.shutdown = s.shutdown) :
    s'.holds = Function.update s.holds .timer s'.timer.holds := by
  funext p
  cases p <;> simp [State.holds, hadd, hshutdown]

theorem holds_of_shutdown (htimer : s'.timer = s.timer)
    (hadd : s'.add = s.add) :
    s'.holds = Function.update s.holds .shutdown s'.shutdown.holds := by
  funext p
  cases p <;> simp [State.holds, hadd, htimer]

theorem holds_of_caller {i : ι} {q : AddPc} (htimer : s'.timer = s.timer)
    (hadd : s'.add = Function.update s.add i q)
    (hshutdown : s'.shutdown = s.shutdown) :
    s'.holds = Function.update s.holds (.caller i) q.holds := by
  funext p
  cases p with
  | timer => simp [State.holds, htimer]
  | shutdown => simp [State.holds, hshutdown]
  | caller j =>
      by_cases hj : j = i
      · subst hj
        simp [State.holds, hadd]
      · have hne : Holder.caller j ≠ .caller i := fun h =>
          hj (Holder.caller.inj h)
        simp [State.holds, hadd, Function.update_of_ne hj,
          Function.update_of_ne hne]

end Exclusive

section Steps

variable [DecidableEq ι] [DecidableEq γ] {s s' : State ι γ}
  {a : Action ι γ} {entry : ι → Entry γ η}

omit [DecidableEq γ] in
theorem holds_update_add {i : ι} {q : AddPc}
    (hq : q.holds = (s.add i).holds) (j : ι) :
    (Function.update s.add i q j).holds = (s.add j).holds := by
  by_cases hj : j = i
  · subst hj
    rw [Function.update_self, hq]
  · rw [Function.update_of_ne hj]

theorem exclusive_next (h : Exclusive s) (ha : Enabled entry s a) :
    Exclusive (next s a) := by
  have henter : ∀ {s' : State ι γ} (p : Holder ι), s.mutex = none →
      s'.holds = Function.update s.holds p true → s'.mutex = some p →
        Exclusive s' := by
    intro s' p hfree hholds hmutex
    unfold Exclusive
    rw [hholds, hmutex]
    exact h.enter hfree rfl
  have hleave : ∀ {s' : State ι γ} (p : Holder ι), s.holds p = true →
      s'.holds = Function.update s.holds p false → s'.mutex = none →
        Exclusive s' := by
    intro s' p hin hholds hmutex
    unfold Exclusive
    rw [hholds, hmutex]
    exact h.leave hin rfl
  cases a with
  | lockTimer | relock =>
      exact henter .timer ha.2 (Exclusive.holds_of_timer rfl rfl) rfl
  | relockWait | relockTimedWait =>
      exact henter .timer ha.2 (Exclusive.holds_of_timer rfl rfl) rfl
  | wait | timedWait | unlockExit =>
      refine hleave .timer ?_ (Exclusive.holds_of_timer rfl rfl) rfl
      exact congrArg TimerPc.holds ha
  | unlockFired i =>
      refine hleave .timer ?_ (Exclusive.holds_of_timer rfl rfl) rfl
      exact congrArg TimerPc.holds ha
  | lockAdd i =>
      exact henter (.caller i) ha.2
        (Exclusive.holds_of_caller (q := .push) rfl rfl rfl) rfl
  | unlockAdd i =>
      refine hleave (.caller i) ?_
        (Exclusive.holds_of_caller (q := .notify) rfl rfl rfl) rfl
      exact congrArg AddPc.holds ha
  | callAdd i | push i =>
      have hi : s.add i = _ := ha
      exact h.of_same rfl rfl (holds_update_add (by rw [hi]; rfl)) rfl
  | notifyAdd i =>
      have hi : s.add i = .notify := ha
      exact h.of_same rfl (holds_notify s.timer)
        (holds_update_add (by rw [hi]; rfl)) rfl
  | lockShutdown =>
      exact henter .shutdown ha.2 (Exclusive.holds_of_shutdown rfl rfl) rfl
  | unlockShutdown =>
      refine hleave .shutdown ?_ (Exclusive.holds_of_shutdown rfl rfl) rfl
      exact congrArg ShutdownPc.holds ha
  | notifyShutdown =>
      have hs : s.shutdown = .notify := ha
      refine h.of_same rfl (holds_notify s.timer) (fun _ => rfl) ?_
      rw [hs]
      rfl
  | callShutdown =>
      refine h.of_same rfl rfl (fun _ => rfl) ?_
      rcases ha with hs | hs <;> rw [hs] <;> rfl
  | exchangeFirst | exchangeAgain | join | drainNothing i rest
  | drain i rest | drainWon i rest g | drainLost i rest g =>
      exact h.of_same rfl rfl (fun _ => rfl) (by rw [ha.1]; rfl)
  | drainSchedule i rest | clear =>
      have hs : s.shutdown = _ := ha
      exact h.of_same rfl rfl (fun _ => rfl) (by rw [hs]; rfl)
  | store g b | tick => exact h.of_same rfl rfl (fun _ => rfl) rfl
  | wake | readClock | timedWake | schedule i =>
      have ht : s.timer = _ := ha
      exact h.of_same rfl (by rw [ht]; rfl) (fun _ => rfl) rfl
  | _ => exact h.of_same rfl (by rw [ha.1]; rfl) (fun _ => rfl) rfl

theorem exclusive_reachable (hs : (system entry).Reachable s) :
    Exclusive s := by
  refine hs.invariant Exclusive ?_ fun s a h ha => exclusive_next h ha
  rintro s ⟨fired, clock, rfl⟩ p
  cases p <;> simp [State.holds, initialState, TimerPc.holds, AddPc.holds,
    ShutdownPc.holds]

/-- As long as the service runs, `shutdown` has at most been called. -/
theorem shutdown_of_running (hs : (system entry).Reachable s)
    (hr : s.running = true) :
    s.shutdown = .idle ∨ s.shutdown = .exchange := by
  refine hs.invariant (fun s => s.running = true →
    s.shutdown = .idle ∨ s.shutdown = .exchange) ?_ ?_ hr
  · rintro s ⟨fired, clock, rfl⟩ -
    exact .inl rfl
  · intro s a h ha hr
    cases a with
    | callShutdown => exact .inr rfl
    | exchangeFirst => exact absurd hr nofun
    | exchangeAgain => exact absurd (ha.2.symm.trans hr) (by simp)
    | join | lockShutdown | drainNothing i rest | drain i rest
    | drainWon i rest g | drainLost i rest g =>
        rcases h hr with hs | hs <;> exact nomatch hs.symm.trans ha.1
    | notifyShutdown | drainSchedule i rest | clear | unlockShutdown =>
        rcases h hr with hs | hs <;> exact nomatch hs.symm.trans ha
    | _ => exact h hr

theorem clock_le_next (s : State ι γ) (a : Action ι γ) :
    s.clock ≤ (next s a).clock := by
  cases a <;> first | exact le_rfl | exact Nat.le_succ _

/-- A service that was stopped stays so. -/
theorem running_of_next {s : State ι γ}
    (hr : (next s a).running = true) : s.running = true := by
  cases a <;> first | exact hr | exact nomatch hr

end Steps

end TimerService
end Ethreads
