import Ethreads.Support.TransitionSystem
import Mathlib.Data.List.Basic
import Mathlib.Data.Fintype.Basic

/-!
# Cancellation callbacks

This module models `cancellation_state` of `include/cancellation.hpp` as far as
its callbacks are concerned: `register_callback`, `unregister_callback` and
`cancel`.

Each call of one of the functions is an agent of its own, and a callback is
represented by the call that registers it.  The vectors `callbacks_` and
`callback_ids_` are only touched under the mutex, so that one step updates both;
the loads and the exchange of `cancelled_` are steps of their own.  A callback
is started by one step and returns by another one, between which it may do what
it likes elsewhere.  Identifiers are counted without a bound; the 2 to the power
of 64 registrations after which `next_id_` would start again are not modelled.

`invocations` and `erased` are not part of the program.  They record who has
invoked a callback, and whether `unregister_callback` has removed it.
-/

namespace Ethreads
namespace Cancellation

inductive RegisterPc
  | idle
  | lock
  | load
  | invoke
  | running
  | push
  | unlock (id : ℕ)
  | returned (id : ℕ)
  deriving DecidableEq, Repr

inductive UnregisterPc
  | idle
  | testZero (id : ℕ)
  | loadFast (id : ℕ)
  | lock (id : ℕ)
  | load (id : ℕ)
  | erase (id : ℕ)
  | unlock (id : ℕ)
  | returned (id : ℕ)
  deriving DecidableEq, Repr

/-- Where a call stands in `cancel`, with the vector `cbs` that it still has
to run through.  It has returned as the `first` one or found the state cancelled
already. -/
inductive CancelPc (ρ : Type*)
  | idle
  | exchange
  | lock
  | swap
  | unlock (cbs : List ρ)
  | run (cbs : List ρ)
  | running (r : ρ) (cbs : List ρ)
  | wakeAll
  | returned (first : Bool)
  deriving DecidableEq, Repr

inductive Holder (ρ υ κ : Type*)
  | register (r : ρ)
  | unregister (u : υ)
  | cancel (c : κ)
  deriving DecidableEq, Repr

/-- Who invokes a callback: the call that registers it, or a call of
`cancel`. -/
inductive Invoker (κ : Type*)
  | itself
  | canceller (c : κ)
  deriving DecidableEq, Repr

structure State (ρ υ κ : Type*) where
  cancelled : Bool
  mutex : Option (Holder ρ υ κ)
  callbacks : List ρ
  callbackIds : List ℕ
  nextId : ℕ
  register : ρ → RegisterPc
  unregister : υ → UnregisterPc
  cancel : κ → CancelPc ρ
  invocations : ρ → List (Invoker κ)
  erased : ρ → Bool

def initialState (ρ υ κ : Type*) : State ρ υ κ where
  cancelled := false
  mutex := none
  callbacks := []
  callbackIds := []
  nextId := 1
  register := fun _ => .idle
  unregister := fun _ => .idle
  cancel := fun _ => .idle
  invocations := fun _ => []
  erased := fun _ => false

/-! ## Atomic actions -/

inductive Action (ρ υ κ : Type*)
  | callRegister (r : ρ)
  | lockRegister (r : ρ)
  | loadRegister (r : ρ)
  | invoke (r : ρ)
  | invoked (r : ρ)
  | push (r : ρ)
  | unlockRegister (r : ρ) (id : ℕ)
  | callUnregister (u : υ) (id : ℕ)
  | testZero (u : υ) (id : ℕ)
  | loadFast (u : υ) (id : ℕ)
  | lockUnregister (u : υ) (id : ℕ)
  | loadUnregister (u : υ) (id : ℕ)
  | erase (u : υ) (id : ℕ)
  | unlockUnregister (u : υ) (id : ℕ)
  | callCancel (c : κ)
  | exchange (c : κ)
  | lockCancel (c : κ)
  | swap (c : κ)
  | unlockCancel (c : κ) (cbs : List ρ)
  | start (c : κ) (r : ρ) (cbs : List ρ)
  | finish (c : κ) (r : ρ) (cbs : List ρ)
  | runDone (c : κ)
  | wakeAll (c : κ)
  deriving DecidableEq, Repr

variable {ρ υ κ : Type*}

def Enabled (s : State ρ υ κ) : Action ρ υ κ → Prop
  | .callRegister r => s.register r = .idle
  | .lockRegister r => s.register r = .lock ∧ s.mutex = none
  | .loadRegister r => s.register r = .load
  | .invoke r => s.register r = .invoke
  | .invoked r => s.register r = .running
  | .push r => s.register r = .push
  | .unlockRegister r id => s.register r = .unlock id
  | .callUnregister u _ => s.unregister u = .idle
  | .testZero u id => s.unregister u = .testZero id
  | .loadFast u id => s.unregister u = .loadFast id
  | .lockUnregister u id => s.unregister u = .lock id ∧ s.mutex = none
  | .loadUnregister u id => s.unregister u = .load id
  | .erase u id => s.unregister u = .erase id
  | .unlockUnregister u id => s.unregister u = .unlock id
  | .callCancel c => s.cancel c = .idle
  | .exchange c => s.cancel c = .exchange
  | .lockCancel c => s.cancel c = .lock ∧ s.mutex = none
  | .swap c => s.cancel c = .swap
  | .unlockCancel c cbs => s.cancel c = .unlock cbs
  | .start c r cbs => s.cancel c = .run (r :: cbs)
  | .finish c r cbs => s.cancel c = .running r cbs
  | .runDone c => s.cancel c = .run []
  | .wakeAll c => s.cancel c = .wakeAll

/-- The index of the first entry of `callback_ids_` that is `id`. -/
def State.indexOf (s : State ρ υ κ) (id : ℕ) : Option ℕ :=
  s.callbackIds.findIdx? (· = id)

section Next

variable [DecidableEq ρ] [DecidableEq υ] [DecidableEq κ]

def State.registerTo (s : State ρ υ κ) (r : ρ) (q : RegisterPc) :
    State ρ υ κ :=
  { s with register := Function.update s.register r q }

def State.unregisterTo (s : State ρ υ κ) (u : υ) (q : UnregisterPc) :
    State ρ υ κ :=
  { s with unregister := Function.update s.unregister u q }

def State.cancelTo (s : State ρ υ κ) (c : κ) (q : CancelPc ρ) :
    State ρ υ κ :=
  { s with cancel := Function.update s.cancel c q }

def State.invokedBy (s : State ρ υ κ) (r : ρ) (i : Invoker κ) :
    ρ → List (Invoker κ) :=
  Function.update s.invocations r (s.invocations r ++ [i])

def State.erasedAt (s : State ρ υ κ) (i : ℕ) : ρ → Bool :=
  match s.callbacks[i]? with
  | some r => Function.update s.erased r true
  | none => s.erased

/-- The loop of `unregister_callback`. -/
def State.erase (s : State ρ υ κ) (id : ℕ) : State ρ υ κ :=
  match s.indexOf id with
  | some i =>
      { s with
        callbacks := s.callbacks.eraseIdx i
        callbackIds := s.callbackIds.eraseIdx i
        erased := s.erasedAt i }
  | none => s

def next (s : State ρ υ κ) : Action ρ υ κ → State ρ υ κ
  | .callRegister r => s.registerTo r .lock
  | .lockRegister r =>
      { s.registerTo r .load with mutex := some (.register r) }
  | .loadRegister r => s.registerTo r (if s.cancelled then .invoke else .push)
  | .invoke r =>
      { s.registerTo r .running with
        invocations := s.invokedBy r .itself }
  | .invoked r => s.registerTo r (.unlock 0)
  | .push r =>
      { s.registerTo r (.unlock s.nextId) with
        nextId := s.nextId + 1
        callbacks := s.callbacks ++ [r]
        callbackIds := s.callbackIds ++ [s.nextId] }
  | .unlockRegister r id =>
      { s.registerTo r (.returned id) with mutex := none }
  | .callUnregister u id => s.unregisterTo u (.testZero id)
  | .testZero u id =>
      s.unregisterTo u (if id = 0 then .returned id else .loadFast id)
  | .loadFast u id =>
      s.unregisterTo u (if s.cancelled then .returned id else .lock id)
  | .lockUnregister u id =>
      { s.unregisterTo u (.load id) with mutex := some (.unregister u) }
  | .loadUnregister u id =>
      s.unregisterTo u (if s.cancelled then .unlock id else .erase id)
  | .erase u id => (s.erase id).unregisterTo u (.unlock id)
  | .unlockUnregister u id =>
      { s.unregisterTo u (.returned id) with mutex := none }
  | .callCancel c => s.cancelTo c .exchange
  | .exchange c =>
      { s.cancelTo c (if s.cancelled then .returned false else .lock) with
        cancelled := true }
  | .lockCancel c => { s.cancelTo c .swap with mutex := some (.cancel c) }
  | .swap c =>
      { s.cancelTo c (.unlock s.callbacks) with
        callbacks := []
        callbackIds := [] }
  | .unlockCancel c cbs => { s.cancelTo c (.run cbs) with mutex := none }
  | .start c r cbs =>
      { s.cancelTo c (.running r cbs) with
        invocations := s.invokedBy r (.canceller c) }
  | .finish c _ cbs => s.cancelTo c (.run cbs)
  | .runDone c => s.cancelTo c .wakeAll
  | .wakeAll c => s.cancelTo c (.returned true)

def system (ρ υ κ : Type*) [DecidableEq ρ] [DecidableEq υ] [DecidableEq κ] :
    TransitionSystem (State ρ υ κ) (Action ρ υ κ) where
  Initial s := s = initialState ρ υ κ
  Enabled := Enabled
  next := next

instance (s : State ρ υ κ) (a : Action ρ υ κ) : Decidable (Enabled s a) := by
  cases a <;> dsimp only [Enabled] <;> infer_instance

instance (s : State ρ υ κ) (a : Action ρ υ κ) :
    Decidable ((system ρ υ κ).Enabled s a) :=
  inferInstanceAs (Decidable (Enabled s a))

omit [DecidableEq υ] [DecidableEq κ] in
@[simp] theorem erase_register (s : State ρ υ κ) (id : ℕ) :
    (s.erase id).register = s.register := by
  unfold State.erase
  split <;> rfl

omit [DecidableEq υ] [DecidableEq κ] in
@[simp] theorem erase_unregister (s : State ρ υ κ) (id : ℕ) :
    (s.erase id).unregister = s.unregister := by
  unfold State.erase
  split <;> rfl

omit [DecidableEq υ] [DecidableEq κ] in
@[simp] theorem erase_cancel (s : State ρ υ κ) (id : ℕ) :
    (s.erase id).cancel = s.cancel := by
  unfold State.erase
  split <;> rfl

omit [DecidableEq υ] [DecidableEq κ] in
@[simp] theorem erase_cancelled (s : State ρ υ κ) (id : ℕ) :
    (s.erase id).cancelled = s.cancelled := by
  unfold State.erase
  split <;> rfl

omit [DecidableEq υ] [DecidableEq κ] in
@[simp] theorem erase_mutex (s : State ρ υ κ) (id : ℕ) :
    (s.erase id).mutex = s.mutex := by
  unfold State.erase
  split <;> rfl

omit [DecidableEq υ] [DecidableEq κ] in
@[simp] theorem erase_nextId (s : State ρ υ κ) (id : ℕ) :
    (s.erase id).nextId = s.nextId := by
  unfold State.erase
  split <;> rfl

omit [DecidableEq υ] [DecidableEq κ] in
@[simp] theorem erase_invocations (s : State ρ υ κ) (id : ℕ) :
    (s.erase id).invocations = s.invocations := by
  unfold State.erase
  split <;> rfl

end Next

/-! ## The call that makes a step -/

def Action.agent : Action ρ υ κ → Holder ρ υ κ
  | callRegister r | lockRegister r | loadRegister r | invoke r | invoked r
  | push r | unlockRegister r _ => .register r
  | callUnregister u _ | testZero u _ | loadFast u _ | lockUnregister u _
  | loadUnregister u _ | erase u _ | unlockUnregister u _ => .unregister u
  | callCancel c | exchange c | lockCancel c | swap c | unlockCancel c _
  | start c _ _ | finish c _ _ | runDone c | wakeAll c => .cancel c

def Action.invokes : Action ρ υ κ → Option ρ
  | invoke r | start _ r _ => some r
  | _ => none

section Frame

variable [DecidableEq ρ] [DecidableEq υ] [DecidableEq κ] {s : State ρ υ κ}
  {a : Action ρ υ κ}

theorem register_next_of_ne {r : ρ} (h : a.agent ≠ .register r) :
    (next s a).register r = s.register r := by
  cases a with
  | callRegister q | lockRegister q | loadRegister q | invoke q | invoked q
  | push q | unlockRegister q id =>
      exact Function.update_of_ne (fun hr => h (by rw [hr]; rfl)) _ _
  | erase u id => exact congrFun (erase_register s id) r
  | _ => rfl

theorem unregister_next_of_ne {u : υ} (h : a.agent ≠ .unregister u) :
    (next s a).unregister u = s.unregister u := by
  cases a with
  | callUnregister v id | testZero v id | loadFast v id
  | lockUnregister v id | loadUnregister v id | unlockUnregister v id =>
      exact Function.update_of_ne (fun hu => h (by rw [hu]; rfl)) _ _
  | erase v id =>
      have hu : u ≠ v := fun hu => h (by rw [hu]; rfl)
      exact (Function.update_of_ne hu _ _).trans
        (congrFun (erase_unregister s id) u)
  | _ => rfl

theorem cancel_next_of_ne {c : κ} (h : a.agent ≠ .cancel c) :
    (next s a).cancel c = s.cancel c := by
  cases a with
  | callCancel d | exchange d | lockCancel d | swap d | unlockCancel d cbs
  | start d r cbs | finish d r cbs | runDone d | wakeAll d =>
      exact Function.update_of_ne (fun hc => h (by rw [hc]; rfl)) _ _
  | erase u id => exact congrFun (erase_cancel s id) c
  | _ => rfl

theorem invocations_next_of_ne {r : ρ} (h : a.invokes ≠ some r) :
    (next s a).invocations r = s.invocations r := by
  cases a with
  | invoke q | start c q cbs =>
      exact Function.update_of_ne (fun hr => h (congrArg some hr.symm)) _ _
  | erase u id => exact congrFun (erase_invocations s id) r
  | _ => rfl

theorem invocations_next_ne_nil {r : ρ} (h : a.invokes = some r) :
    (next s a).invocations r ≠ [] := by
  cases a with
  | invoke q | start c q cbs =>
      obtain rfl := Option.some.inj h
      simp [next, State.invokedBy]
  | _ => cases h

theorem register_eq_idle_next {r : ρ} (hr : s.register r = .idle)
    (ha : Enabled s a) (hcall : a ≠ .callRegister r) :
    (next s a).register r = .idle := by
  rw [← hr]
  refine register_next_of_ne fun hagent => ?_
  cases a with
  | callRegister q => exact hcall (by rw [Holder.register.inj hagent])
  | lockRegister q =>
      obtain rfl := Holder.register.inj hagent
      exact nomatch hr.symm.trans ha.1
  | loadRegister q | invoke q | invoked q | push q | unlockRegister q id =>
      obtain rfl := Holder.register.inj hagent
      exact nomatch hr.symm.trans ha
  | _ => exact nomatch hagent

theorem unregister_eq_idle_next {u : υ} (hu : s.unregister u = .idle)
    (ha : Enabled s a) (hcall : ∀ id, a ≠ .callUnregister u id) :
    (next s a).unregister u = .idle := by
  rw [← hu]
  refine unregister_next_of_ne fun hagent => ?_
  cases a with
  | callUnregister v id =>
      exact hcall id (by rw [Holder.unregister.inj hagent])
  | lockUnregister v id =>
      obtain rfl := Holder.unregister.inj hagent
      exact nomatch hu.symm.trans ha.1
  | testZero v id | loadFast v id | loadUnregister v id | erase v id
  | unlockUnregister v id =>
      obtain rfl := Holder.unregister.inj hagent
      exact nomatch hu.symm.trans ha
  | _ => exact nomatch hagent

theorem cancelled_next (h : s.cancelled = true) :
    (next s a).cancelled = true := by
  cases a with
  | exchange c => rfl
  | erase u id => exact (erase_cancelled s id).trans h
  | _ => exact h

end Frame

end Cancellation
end Ethreads
