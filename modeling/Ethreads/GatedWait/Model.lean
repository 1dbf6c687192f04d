import Ethreads.AsyncPrimitive.Model
import Ethreads.TimerService.Model
import Mathlib.Data.Fintype.Sum

/-!
# Gated waits

This module models the waits that end through a gate: the timed awaiters of
`include/shared_state/timed_awaiter.hpp` and the select awaiters of
`include/select.hpp`, on any number of waiter lists, together with the timer
service and the functions that wake the waiters of a list.

A wait is one `co_await`.  Its awaiter occupies the address of its gate and
the addresses of its nodes, which awaiters of later waits may occupy again.
The thread that runs `suspend_impl` and the coroutine that runs `resume_impl`
are agents of their own, since the coroutine may be resumed as soon as
somebody has won its gate.  What `ready_impl`, the re-check of `suspend_impl`
and `resume_impl` find in the primitive is up to the environment.

The lists share the memory of the `next` fields, so a list makes a step on the
current fields; the field `next` of a list itself has no meaning.  The fields
from `attempted` on are not part of the program.
-/

namespace Ethreads
namespace GatedWait

/-- The waits: where the gate and the nodes of their awaiters are, which
coroutines wait, until when, and in which lists.  A select has no deadline. -/
structure Config (ω γ ν κ ι : Type*) where
  gate : ω → γ
  node : ω → ℕ → ν
  coroutine : ω → κ
  deadline : ω → Option ℕ
  lists : ω → List ι
  node_injective : ∀ w, Function.Injective (node w)

inductive SuspendPc
  | idle
  | ready
  | storeGate
  | addTimer
  | setHandle (j : ℕ)
  | setGate (j : ℕ)
  | callAdd (j : ℕ)
  | adding (j : ℕ)
  | recheck
  | cas
  | schedule
  | done
  deriving DecidableEq, Repr

/-- Where the coroutine of a wait stands. -/
inductive ResumePc
  | waiting
  | resuming
  | returned
  deriving DecidableEq, Repr

/-- Where a waking thread stands with the node in its hands.  The gate at
`schedule` is the one that the thread has won, if the node has one. -/
inductive Delivery (γ : Type*)
  | testHandle
  | testGate
  | cas (g : γ)
  | schedule (g : Option γ)
  deriving DecidableEq, Repr

/-- What a waking thread does with the gate that it has read. -/
def Delivery.ofGate {γ : Type*} : Option γ → Delivery γ
  | none => .schedule none
  | some g => .cas g

/-- Who wins a gate: the timer thread, `shutdown`, a thread that wakes the
waiters of a list, or the re-check of `suspend_impl`. -/
inductive Party (ι τ : Type*)
  | timer
  | shutdown
  | waker (i : ι) (t : τ)
  | recheck
  deriving DecidableEq, Repr

/-- On whose behalf `schedule_coro_handle` is called: for the entry of a wait
in the timer heap, for a node, or by the re-check of a wait. -/
inductive Source (ω ν : Type*)
  | entry (w : ω)
  | node (n : ν)
  | recheck (w : ω)
  deriving DecidableEq, Repr

/-- The timer service, whose flags are the gates, the waiter lists, the
memory of the nodes, and where everybody stands.  `scheduled` counts the
handles of a coroutine passed to `schedule_coro_handle` and not yet
resumed. -/
structure State (ω γ ν κ ι τ : Type*) where
  timer : TimerService.State ω γ
  lists : ι → AsyncPrimitive.State (τ ⊕ ω) ν Empty
  next : ν → Option ν
  handle : ν → Option κ
  gate : ν → Option γ
  suspend : ω → SuspendPc
  resume : ω → ResumePc
  delivery : ι → τ → Delivery γ
  scheduled : κ → ℕ
  attempted : γ → Bool
  winner : γ → Option (Party ι τ)
  calls : List (Source ω ν × κ)
  expired : ω → Bool
  report : ω → Option (Bool × ℕ)

def initialState (ω γ ν κ ι τ : Type*) (clock : ℕ) : State ω γ ν κ ι τ where
  timer := TimerService.initialState ω γ (fun _ => false) clock
  lists := fun _ => AsyncPrimitive.initialState (τ ⊕ ω) ν Empty
  next := fun _ => none
  handle := fun _ => none
  gate := fun _ => none
  suspend := fun _ => .idle
  resume := fun _ => .waiting
  delivery := fun _ _ => .testHandle
  scheduled := fun _ => 0
  attempted := fun _ => false
  winner := fun _ => none
  calls := []
  expired := fun _ => false
  report := fun _ => none

variable {ω γ ν κ ι τ : Type*}

def entry (cfg : Config ω γ ν κ ι) (w : ω) : TimerService.Entry γ κ where
  deadline := (cfg.deadline w).getD 0
  handle := some (cfg.coroutine w)
  fired := some (cfg.gate w)
  waiter := none

/-- A list on the current memory. -/
def State.view (s : State ω γ ν κ ι τ) (i : ι) :
    AsyncPrimitive.State (τ ⊕ ω) ν Empty :=
  { s.lists i with next := s.next }

/-- The awaiter of the wait exists. -/
def State.InProgress (s : State ω γ ν κ ι τ) (w : ω) : Prop :=
  s.suspend w ≠ .idle ∧ s.resume w ≠ .returned

def nodes (cfg : Config ω γ ν κ ι) (w : ω) : List ν :=
  (List.range (cfg.lists w).length).map (cfg.node w)

/-- Two awaiters have no memory in common. -/
def Disjoint (cfg : Config ω γ ν κ ι) (v w : ω) : Prop :=
  cfg.gate v ≠ cfg.gate w ∧ ∀ n ∈ nodes cfg v, n ∉ nodes cfg w

/-- What `suspend_impl` does after it has registered `j` nodes. -/
def register (cfg : Config ω γ ν κ ι) (w : ω) (j : ℕ) : SuspendPc :=
  if j < (cfg.lists w).length then .setHandle j else .recheck

/-- What `suspend_impl` does after it has stored the gate. -/
def afterStore (cfg : Config ω γ ν κ ι) (w : ω) : SuspendPc :=
  if (cfg.deadline w).isSome then .addTimer else register cfg w 0

/-! ## Atomic actions -/

inductive Action (ω γ ν κ ι τ : Type*)
  | construct (w : ω)
  | readyTrue (w : ω) (expired : Bool)
  | readyFalse (w : ω)
  | storeGate (w : ω)
  | timer (a : TimerService.Action ω γ)
  | addedTimer (w : ω)
  | setHandle (w : ω) (j : ℕ)
  | setGate (w : ω) (j : ℕ)
  | callAdd (w : ω) (j : ℕ) (i : ι)
  | list (i : ι) (a : AsyncPrimitive.Action (τ ⊕ ω) ν Empty)
  | added (w : ω) (j : ℕ) (i : ι)
  | recheckEmpty (w : ω)
  | recheckFound (w : ω)
  | casWon (w : ω)
  | casLost (w : ω)
  | schedule (w : ω)
  | handleNull (i : ι) (t : τ) (h : ν) (r : Option ν)
  | handleFound (i : ι) (t : τ) (h : ν) (r : Option ν)
  | gateRead (i : ι) (t : τ) (h : ν) (r : Option ν)
  | gateWon (i : ι) (t : τ) (h : ν) (r : Option ν) (g : γ)
  | gateLost (i : ι) (t : τ) (h : ν) (r : Option ν) (g : γ)
  | deliver (i : ι) (t : τ) (h : ν) (r : Option ν) (g : Option γ)
  | resume (w : ω)
  | finish (w : ω) (timedOut : Bool)

/-- The steps of a list that do not concern the node in a thread's hands, and
the calls of `wake_one` and `wake_all` by other threads. -/
def isListStep : AsyncPrimitive.Action (τ ⊕ ω) ν Empty → Bool
  | .callWakeOne u | .callWakeAll u => u.isLeft
  | .addLoad _ _ | .addLink _ _ _ | .addCas _ _ _ | .addCasFails _ _ _
  | .wakeLoad _ | .wakeNext _ _ | .wakeCas _ _ _ | .wakeCasFails _ _ _
  | .exchange _ | .walkNext _ _ => true
  | .callAdd _ _ | .schedule _ _ _ | .skip _ _ _ _ | .fire _
  | .resume _ => false

/-- What the timer service does by itself or for a wait that adds a timer. -/
def TimerStep (s : State ω γ ν κ ι τ) :
    TimerService.Action ω γ → Prop
  | .callAdd w => s.suspend w = .addTimer
  | .store _ _ => False
  | _ => True

/-- The awaiter can be constructed: its memory is free and its coroutine is in
no other wait. -/
def State.CanConstruct (cfg : Config ω γ ν κ ι) (s : State ω γ ν κ ι τ)
    (w : ω) : Prop :=
  ∀ v, s.InProgress v → Disjoint cfg v w ∧ cfg.coroutine v ≠ cfg.coroutine w

def Enabled (cfg : Config ω γ ν κ ι) (s : State ω γ ν κ ι τ) :
    Action ω γ ν κ ι τ → Prop
  | .construct w => s.suspend w = .idle ∧ s.CanConstruct cfg w
  | .readyTrue w expired =>
      s.suspend w = .ready ∧ (expired = true →
        (cfg.deadline w).any (fun d => d ≤ s.timer.clock) = true)
  | .readyFalse w => s.suspend w = .ready
  | .storeGate w => s.suspend w = .storeGate
  | .timer a => TimerService.Enabled (entry cfg) s.timer a ∧ TimerStep s a
  | .addedTimer w => s.suspend w = .addTimer ∧ s.timer.add w = .returned
  | .setHandle w j => s.suspend w = .setHandle j
  | .setGate w j => s.suspend w = .setGate j
  | .callAdd w j i =>
      s.suspend w = .callAdd j ∧ (cfg.lists w)[j]? = some i ∧
        AsyncPrimitive.Enabled AsyncPrimitive.ungated (s.view i)
          (.callAdd (.inr w) (cfg.node w j))
  | .list i a =>
      isListStep a = true ∧
        AsyncPrimitive.Enabled AsyncPrimitive.ungated (s.view i) a
  | .added w j i =>
      s.suspend w = .adding j ∧ (cfg.lists w)[j]? = some i ∧
        (s.lists i).pc (.inr w) = .idle
  | .recheckEmpty w => s.suspend w = .recheck
  | .recheckFound w => s.suspend w = .recheck
  | .casWon w =>
      s.suspend w = .cas ∧ s.timer.fired (cfg.gate w) = false
  | .casLost w => s.suspend w = .cas ∧ s.timer.fired (cfg.gate w) = true
  | .schedule w => s.suspend w = .schedule
  | .handleNull i t h r =>
      s.delivery i t = .testHandle ∧
        (s.lists i).pc (.inl t) = .deliver h r ∧ s.handle h = none
  | .handleFound i t h r =>
      s.delivery i t = .testHandle ∧
        (s.lists i).pc (.inl t) = .deliver h r ∧ (s.handle h).isSome = true
  | .gateRead i t h r =>
      s.delivery i t = .testGate ∧ (s.lists i).pc (.inl t) = .deliver h r
  | .gateWon i t h r g =>
      s.delivery i t = .cas g ∧ (s.lists i).pc (.inl t) = .deliver h r ∧
        s.timer.fired g = false
  | .gateLost i t h r g =>
      s.delivery i t = .cas g ∧ (s.lists i).pc (.inl t) = .deliver h r ∧
        s.timer.fired g = true
  | .deliver i t h r g =>
      s.delivery i t = .schedule g ∧ (s.lists i).pc (.inl t) = .deliver h r
  | .resume w =>
      s.suspend w ≠ .idle ∧ s.suspend w ≠ .ready ∧ s.resume w = .waiting ∧
        0 < s.scheduled (cfg.coroutine w)
  | .finish w timedOut =>
      s.resume w = .resuming ∧
        (timedOut = true → (cfg.deadline w).isSome = true)

section Effects

variable [DecidableEq ω] [DecidableEq γ] [DecidableEq ν] [DecidableEq κ]
  [DecidableEq ι] [DecidableEq τ]

/-- The thread that suspends the coroutine of `w` moves to `q`. -/
def State.suspendTo (s : State ω γ ν κ ι τ) (w : ω) (q : SuspendPc) :
    State ω γ ν κ ι τ :=
  { s with suspend := Function.update s.suspend w q }

def State.storeGate (s : State ω γ ν κ ι τ) (g : γ) (b : Bool) :
    State ω γ ν κ ι τ :=
  { s with
    timer := { s.timer with fired := Function.update s.timer.fired g b } }

def State.attempt (s : State ω γ ν κ ι τ) (g : γ) : State ω γ ν κ ι τ :=
  { s with attempted := Function.update s.attempted g true }

def State.win (s : State ω γ ν κ ι τ) (g : γ) (p : Party ι τ) :
    State ω γ ν κ ι τ :=
  { s.attempt g with winner := Function.update s.winner g (some p) }

/-- `schedule_coro_handle` is called; a null handle is rejected. -/
def State.call (s : State ω γ ν κ ι τ) (src : Source ω ν)
    (handle : Option κ) : State ω γ ν κ ι τ :=
  { s with
    calls := s.calls ++ (handle.map (src, ·)).toList
    scheduled := match handle with
      | none => s.scheduled
      | some k => Function.update s.scheduled k (s.scheduled k + 1) }

def State.listTo (s : State ω γ ν κ ι τ) (i : ι)
    (l : AsyncPrimitive.State (τ ⊕ ω) ν Empty) : State ω γ ν κ ι τ :=
  { s with lists := Function.update s.lists i l, next := l.next }

/-- The waking thread goes on with the node in its hands. -/
def State.deliveryTo (s : State ω γ ν κ ι τ) (i : ι) (t : τ)
    (q : Delivery γ) : State ω γ ν κ ι τ :=
  { s with
    delivery := Function.update s.delivery i
      (Function.update (s.delivery i) t q) }

/-- The waking thread is done with the node in its hands. -/
def State.delivered (s : State ω γ ν κ ι τ) (i : ι) (t : τ) (h : ν)
    (r : Option ν) : State ω γ ν κ ι τ :=
  (s.deliveryTo i t .testHandle).listTo i
    (((s.view i).goto (.inl t) (AsyncPrimitive.walkWith r)).move h .outside)

/-- What a step of the timer service means for the gates and coroutines. -/
def State.afterTimer (cfg : Config ω γ ν κ ι) (s : State ω γ ν κ ι τ) :
    TimerService.Action ω γ → State ω γ ν κ ι τ
  | .fireWon _ g => s.win g .timer
  | .drainWon _ _ g => s.win g .shutdown
  | .fireLost _ g | .drainLost _ _ g => s.attempt g
  | .schedule w | .drainSchedule w _ =>
      s.call (.entry w) (some (cfg.coroutine w))
  | _ => s

def next (cfg : Config ω γ ν κ ι) (s : State ω γ ν κ ι τ) :
    Action ω γ ν κ ι τ → State ω γ ν κ ι τ
  | .construct w =>
      { (s.suspendTo w .ready).storeGate (cfg.gate w) false with
        next := fun n => if n ∈ nodes cfg w then none else s.next n
        handle := fun n => if n ∈ nodes cfg w then none else s.handle n
        gate := fun n => if n ∈ nodes cfg w then none else s.gate n
        winner := Function.update s.winner (cfg.gate w) none }
  | .readyTrue w expired =>
      { s.suspendTo w .done with
        resume := Function.update s.resume w .resuming
        expired := Function.update s.expired w expired }
  | .readyFalse w => s.suspendTo w .storeGate
  | .storeGate w =>
      (s.suspendTo w (afterStore cfg w)).storeGate (cfg.gate w) false
  | .timer a =>
      ({ s with timer := TimerService.next s.timer a } :
        State ω γ ν κ ι τ).afterTimer cfg a
  | .addedTimer w => s.suspendTo w (register cfg w 0)
  | .setHandle w j =>
      { s.suspendTo w (.setGate j) with
        handle := Function.update s.handle (cfg.node w j)
          (some (cfg.coroutine w)) }
  | .setGate w j =>
      { s.suspendTo w (.callAdd j) with
        gate := Function.update s.gate (cfg.node w j) (some (cfg.gate w)) }
  | .callAdd w j i =>
      (s.suspendTo w (.adding j)).listTo i
        (AsyncPrimitive.next AsyncPrimitive.ungated (s.view i)
          (.callAdd (.inr w) (cfg.node w j)))
  | .list i a =>
      s.listTo i (AsyncPrimitive.next AsyncPrimitive.ungated (s.view i) a)
  | .added w j _ => s.suspendTo w (register cfg w (j + 1))
  | .recheckEmpty w => s.suspendTo w .done
  | .recheckFound w => s.suspendTo w .cas
  | .casWon w =>
      ((s.suspendTo w .schedule).storeGate (cfg.gate w) true).win
        (cfg.gate w) .recheck
  | .casLost w => (s.suspendTo w .done).attempt (cfg.gate w)
  | .schedule w =>
      (s.suspendTo w .done).call (.recheck w) (some (cfg.coroutine w))
  | .handleNull i t h r => s.delivered i t h r
  | .handleFound i t _ _ => s.deliveryTo i t .testGate
  | .gateRead i t h _ => s.deliveryTo i t (Delivery.ofGate (s.gate h))
  | .gateWon i t _ _ g =>
      ((s.deliveryTo i t (.schedule (some g))).storeGate g true).win g
        (.waker i t)
  | .gateLost i t h r g => (s.attempt g).delivered i t h r
  | .deliver i t h r _ =>
      (s.delivered i t h r).call (.node h) (s.handle h)
  | .resume w =>
      { s with
        resume := Function.update s.resume w .resuming
        scheduled := Function.update s.scheduled (cfg.coroutine w)
          (s.scheduled (cfg.coroutine w) - 1) }
  | .finish w timedOut =>
      { s with
        resume := Function.update s.resume w .returned
        report := Function.update s.report w
          (some (timedOut, s.timer.clock)) }

def system (cfg : Config ω γ ν κ ι) (τ : Type*) [DecidableEq τ] :
    TransitionSystem (State ω γ ν κ ι τ) (Action ω γ ν κ ι τ) where
  Initial s := ∃ clock, s = initialState ω γ ν κ ι τ clock
  Enabled := Enabled cfg
  next := next cfg

end Effects

/-! ## What the timer service leaves alone -/

section AfterTimer

variable [DecidableEq γ] [DecidableEq κ] (cfg : Config ω γ ν κ ι)
  (s : State ω γ ν κ ι τ)
  (a : TimerService.Action ω γ)

@[simp] theorem afterTimer_timer : (s.afterTimer cfg a).timer = s.timer := by
  cases a <;> rfl

@[simp] theorem afterTimer_lists : (s.afterTimer cfg a).lists = s.lists := by
  cases a <;> rfl

@[simp] theorem afterTimer_next : (s.afterTimer cfg a).next = s.next := by
  cases a <;> rfl

@[simp] theorem afterTimer_handle :
    (s.afterTimer cfg a).handle = s.handle := by
  cases a <;> rfl

@[simp] theorem afterTimer_gate : (s.afterTimer cfg a).gate = s.gate := by
  cases a <;> rfl

@[simp] theorem afterTimer_suspend :
    (s.afterTimer cfg a).suspend = s.suspend := by
  cases a <;> rfl

@[simp] theorem afterTimer_resume :
    (s.afterTimer cfg a).resume = s.resume := by
  cases a <;> rfl

@[simp] theorem afterTimer_delivery :
    (s.afterTimer cfg a).delivery = s.delivery := by
  cases a <;> rfl

@[simp] theorem afterTimer_expired :
    (s.afterTimer cfg a).expired = s.expired := by
  cases a <;> rfl

@[simp] theorem afterTimer_report :
    (s.afterTimer cfg a).report = s.report := by
  cases a <;> rfl

end AfterTimer

/-! ## Evaluating runs -/

section Decide

variable [DecidableEq ω] [DecidableEq γ] [DecidableEq ν] [DecidableEq κ]
  [DecidableEq ι] [DecidableEq τ]

instance (s : State ω γ ν κ ι τ) (w : ω) : Decidable (s.InProgress w) :=
  inferInstanceAs (Decidable (_ ∧ _))

instance (cfg : Config ω γ ν κ ι) (v w : ω) :
    Decidable (Disjoint cfg v w) :=
  inferInstanceAs (Decidable (_ ∧ ∀ n ∈ nodes cfg v, _))

instance [Fintype ω] (cfg : Config ω γ ν κ ι) (s : State ω γ ν κ ι τ)
    (w : ω) : Decidable (s.CanConstruct cfg w) :=
  inferInstanceAs (Decidable (∀ _, _ → _))

instance (s : State ω γ ν κ ι τ) (a : TimerService.Action ω γ) :
    Decidable (TimerStep s a) := by
  induction a using TimerService.Action.casesOn <;> dsimp only [TimerStep] <;>
    infer_instance

instance [Fintype ω] (cfg : Config ω γ ν κ ι) (s : State ω γ ν κ ι τ)
    (a : Action ω γ ν κ ι τ) : Decidable (Enabled cfg s a) := by
  cases a <;> dsimp only [Enabled] <;> infer_instance

instance [Fintype ω] (cfg : Config ω γ ν κ ι) (s : State ω γ ν κ ι τ)
    (a : Action ω γ ν κ ι τ) : Decidable ((system cfg τ).Enabled s a) :=
  inferInstanceAs (Decidable (Enabled cfg s a))

end Decide

end GatedWait
end Ethreads
