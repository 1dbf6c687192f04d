import Ethreads.Support.MonitorObject
import Ethreads.SyncPrimitive.Event
import Ethreads.SyncPrimitive.Semaphore

/-!
# The semaphore and the event as sequential objects

To its callers `sync_semaphore` is a number of permits and `sync_event` a
flag: each call takes effect at once, at some moment between its call and its
return, also a wait that has slept in between or has run out of time.
-/

namespace Ethreads

/-! ## Permits -/

namespace SyncSemaphore

/-- The operations that report whether they have got a permit. -/
def Op.tries : Op → Bool
  | tryAcquire | tryAcquireFor | tryAcquireUntil => true
  | _ => false

/-- What an operation may return and what it leaves of the permits. -/
inductive PermitStep : Op → ℤ → Outcome → ℤ → Prop
  | acquire (n : ℤ) : 0 < n → PermitStep .acquire n .returned (n - 1)
  | succeed (op : Op) (n : ℤ) : op.tries = true → 0 < n →
      PermitStep op n (.flag true) (n - 1)
  | fail (op : Op) (n : ℤ) : op.tries = true → n ≤ 0 →
      PermitStep op n (.flag false) n
  | release (m : ℕ) (n : ℤ) : PermitStep (.release m) n .returned (n + m)
  | available (n : ℤ) : PermitStep .available n (.value n) n

def permitObject (τ : Type*) : SequentialObject τ ℤ Op Outcome where
  Step _ := PermitStep

/-- What a section does is what the sequential semaphore does. -/
theorem permitStep_of_objectStep {op : Op} {n m : ℤ} {r : Outcome}
    (h : Monitor.ObjectStep monitor op n r m) : PermitStep op n r m := by
  cases h with
  | act hready =>
      have hpos : op.waits = true → 0 < n :=
        fun hwaits => of_decide_eq_true (hready hwaits)
      cases op with
      | acquire => exact .acquire n (hpos rfl)
      | tryAcquire =>
          by_cases hn : 0 < n
          · have heffect : Op.tryAcquire.effect n = n - 1 := if_pos hn
            have hresult : Op.tryAcquire.result n = .flag true :=
              congrArg Outcome.flag (decide_eq_true hn)
            change PermitStep _ n (Op.tryAcquire.result n)
              (Op.tryAcquire.effect n)
            rw [heffect, hresult]
            exact .succeed _ n rfl hn
          · have heffect : Op.tryAcquire.effect n = n := if_neg hn
            have hresult : Op.tryAcquire.result n = .flag false :=
              congrArg Outcome.flag (decide_eq_false hn)
            change PermitStep _ n (Op.tryAcquire.result n)
              (Op.tryAcquire.effect n)
            rw [heffect, hresult]
            exact .fail _ n rfl (not_lt.mp hn)
      | tryAcquireFor => exact .succeed _ n rfl (hpos rfl)
      | tryAcquireUntil => exact .succeed _ n rfl (hpos rfl)
      | release k => exact .release k n
      | available => exact .available n
  | expire _ htimed hempty =>
      have hle : n ≤ 0 := not_lt.mp (of_decide_eq_false hempty)
      refine .fail op n ?_ hle
      cases op with
      | tryAcquireFor => rfl
      | tryAcquireUntil => rfl
      | _ => cases htimed

/-- `sync_semaphore` is linearizable, for every initial count, any number of
threads and every run. -/
theorem linearizable_permits {τ : Type*} [DecidableEq τ] {count : ℤ}
    {l : List (Monitor.Action τ Op Outcome)}
    (hl : (Monitor.system monitor count).Executes
      (Monitor.initialState τ Op Outcome count) l) :
    (permitObject τ).Linearizable count
      (l.filterMap Monitor.Action.visible) :=
  (Monitor.linearizable hl).mono fun _ _ _ _ _ => permitStep_of_objectStep

/-- An acquisition sleeps until a permit is released; a timed one then finds
none left. -/
def acquiresInTurn : List (Monitor.Action (Fin 2) Op Outcome) :=
  [.call 0 .acquire, .lock 0 .acquire, .block 0 .acquire false,
    .call 1 (.release 1), .lock 1 (.release 1),
    .perform 1 (.release 1) false false,
    .notifyOne 1 (.release 1) 0 .returned 0 .acquire,
    .unlock 1 (.release 1) .returned, .relock 0 .acquire false true,
    .perform 0 .acquire false true, .unlock 0 .acquire .returned,
    .call 1 .tryAcquireFor, .lock 1 .tryAcquireFor,
    .block 1 .tryAcquireFor false, .wake 1 .tryAcquireFor,
    .relock 1 .tryAcquireFor true false, .expire 1 .tryAcquireFor false,
    .unlock 1 .tryAcquireFor (.flag false)]

theorem linearizable_acquiresInTurn :
    (permitObject (Fin 2)).Linearizable 0
      (acquiresInTurn.filterMap Monitor.Action.visible) :=
  linearizable_permits (by decide)

end SyncSemaphore

/-! ## Signals -/

namespace SyncEvent

/-- What an operation may return and what it leaves of the signal.  A wait that
succeeds takes the signal under auto-reset. -/
inductive SignalStep (policy : ResetPolicy) :
    Op → Bool → Outcome → Bool → Prop
  | set (b : Bool) : SignalStep policy .set b .returned true
  | reset (b : Bool) : SignalStep policy .reset b .returned false
  | isSet (b : Bool) : SignalStep policy .isSet b (.flag b) b
  | tryWait (b : Bool) :
      SignalStep policy .tryWait b (.flag b) (b && policy.afterWait b)
  | wait : SignalStep policy .wait true .returned (policy.afterWait true)
  | succeed (op : Op) : op.timed = true →
      SignalStep policy op true (.flag true) (policy.afterWait true)
  | fail (op : Op) : op.timed = true →
      SignalStep policy op false (.flag false) false

def signalObject (policy : ResetPolicy) (τ : Type*) :
    SequentialObject τ Bool Op Outcome where
  Step _ := SignalStep policy

/-- What a section does is what the sequential event does. -/
theorem signalStep_of_objectStep {policy : ResetPolicy} {op : Op}
    {b b' : Bool} {r : Outcome}
    (h : Monitor.ObjectStep (monitor policy) op b r b') :
    SignalStep policy op b r b' := by
  cases h with
  | act hready =>
      have hsignaled : op.waits = true → b = true := hready
      cases op with
      | set => exact .set b
      | reset => exact .reset b
      | isSet => exact .isSet b
      | tryWait =>
          have htry : SignalStep policy .tryWait b (.flag b)
              (b && policy.afterWait b) := .tryWait b
          cases b <;> exact htry
      | wait =>
          obtain rfl := hsignaled rfl
          exact .wait
      | waitFor =>
          obtain rfl := hsignaled rfl
          exact .succeed .waitFor rfl
      | waitUntil =>
          obtain rfl := hsignaled rfl
          exact .succeed .waitUntil rfl
  | expire _ htimed hunset =>
      obtain rfl : b = false := hunset
      exact .fail op htimed

/-- `sync_event` is linearizable, for both reset policies, any number of
threads and every run. -/
theorem linearizable_signals {τ : Type*} [DecidableEq τ] {policy : ResetPolicy}
    {initial : Bool} {l : List (Monitor.Action τ Op Outcome)}
    (hl : (Monitor.system (monitor policy) initial).Executes
      (Monitor.initialState τ Op Outcome initial) l) :
    (signalObject policy τ).Linearizable initial
      (l.filterMap Monitor.Action.visible) :=
  (Monitor.linearizable hl).mono fun _ _ _ _ _ => signalStep_of_objectStep

theorem linearizable_setsTwice :
    (signalObject .autoReset (Fin 2)).Linearizable false
      (setsTwice.filterMap Monitor.Action.visible) :=
  linearizable_signals (by decide)

end SyncEvent
end Ethreads
