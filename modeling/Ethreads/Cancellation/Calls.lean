import Ethreads.Cancellation.Callbacks

/-!
# Calls of a cancellation state

Each call of `register_callback`, `unregister_callback` and `cancel` is an
agent.  A step is made by one agent, and the others stay where they are.  A
registration that runs its callback holds the mutex, but then the state is
cancelled, and `unregister_callback` and `cancel` return before they lock it.
-/

namespace Ethreads
namespace Cancellation

variable {ρ υ κ : Type*}

def Action.calls : Action ρ υ κ → Bool
  | callRegister _ | callUnregister _ _ | callCancel _ => true
  | _ => false

/-- With the step the call returns. -/
def State.returns (s : State ρ υ κ) : Action ρ υ κ → Bool
  | .unlockRegister _ _ | .unlockUnregister _ _ | .wakeAll _ => true
  | .testZero _ id => id = 0
  | .loadFast _ _ | .exchange _ => s.cancelled
  | _ => false

def RegisterPc.isActive : RegisterPc → Bool
  | idle | returned _ => false
  | _ => true

def UnregisterPc.isActive : UnregisterPc → Bool
  | idle | returned _ => false
  | _ => true

def CancelPc.isActive : CancelPc ρ → Bool
  | idle | returned _ => false
  | _ => true

def State.isActive (s : State ρ υ κ) : Holder ρ υ κ → Bool
  | .register r => (s.register r).isActive
  | .unregister u => (s.unregister u).isActive
  | .cancel c => (s.cancel c).isActive

def State.locks (s : State ρ υ κ) : Holder ρ υ κ → Bool
  | .register r => match s.register r with | .lock => true | _ => false
  | .unregister u => match s.unregister u with | .lock _ => true | _ => false
  | .cancel c => match s.cancel c with | .lock => true | _ => false

/-- The call runs a callback, or wakes the coroutines that await the
cancellation. -/
def State.hasCalled (s : State ρ υ κ) : Holder ρ υ κ → Bool
  | .register r => match s.register r with | .running => true | _ => false
  | .unregister _ => false
  | .cancel c =>
      match s.cancel c with | .running _ _ | .wakeAll => true | _ => false

/-- The call has not locked the mutex, and will not do so if it finds the state
cancelled. -/
def State.quiet (s : State ρ υ κ) : Holder ρ υ κ → Bool
  | .register _ => false
  | .unregister u =>
      match s.unregister u with | .testZero _ | .loadFast _ => true | _ => false
  | .cancel c => match s.cancel c with | .exchange => true | _ => false

theorem locks_of_quiet {s : State ρ υ κ} {p : Holder ρ υ κ}
    (h : s.quiet p = true) : s.locks p = false := by
  cases p with
  | register r => cases h
  | unregister u =>
      simp only [State.quiet] at h
      simp only [State.locks]
      cases hpc : s.unregister u with
      | lock id =>
          rw [hpc] at h
          cases h
      | _ => rfl
  | cancel c =>
      simp only [State.quiet] at h
      simp only [State.locks]
      cases hpc : s.cancel c with
      | lock =>
          rw [hpc] at h
          cases h
      | _ => rfl

section Frame

variable [DecidableEq ρ] [DecidableEq υ] [DecidableEq κ] {s : State ρ υ κ}
  {a : Action ρ υ κ} {p : Holder ρ υ κ}

theorem holds_next_of_ne (h : a.agent ≠ p) :
    (next s a).holds p = s.holds p := by
  cases p with
  | register r => exact congrArg RegisterPc.holds (register_next_of_ne h)
  | unregister u => exact congrArg UnregisterPc.holds (unregister_next_of_ne h)
  | cancel c => exact congrArg CancelPc.holds (cancel_next_of_ne h)

theorem isActive_next_of_ne (h : a.agent ≠ p) :
    (next s a).isActive p = s.isActive p := by
  cases p with
  | register r => exact congrArg RegisterPc.isActive (register_next_of_ne h)
  | unregister u =>
      exact congrArg UnregisterPc.isActive (unregister_next_of_ne h)
  | cancel c => exact congrArg CancelPc.isActive (cancel_next_of_ne h)

theorem hasCalled_next_of_ne (h : a.agent ≠ p) :
    (next s a).hasCalled p = s.hasCalled p := by
  unfold State.hasCalled
  cases p with
  | register r => simp only [register_next_of_ne h]
  | unregister u => rfl
  | cancel c => simp only [cancel_next_of_ne h]

theorem quiet_next_of_ne (h : a.agent ≠ p) :
    (next s a).quiet p = s.quiet p := by
  unfold State.quiet
  cases p with
  | register r => rfl
  | unregister u => simp only [unregister_next_of_ne h]
  | cancel c => simp only [cancel_next_of_ne h]

/-- A call begins outside of its function, and only a registration may go on to
lock the mutex in a cancelled state. -/
theorem isActive_of_calls (ha : Enabled s a) (hcalls : a.calls = true) :
    s.isActive a.agent = false ∧ (next s a).isActive a.agent = true ∧
      ((∃ r, a = .callRegister r) ∨ (next s a).quiet a.agent = true) := by
  cases a with
  | callRegister r =>
      refine ⟨congrArg RegisterPc.isActive ha, ?_, .inl ⟨r, rfl⟩⟩
      simp [State.isActive, Action.agent, next, State.registerTo,
        RegisterPc.isActive]
  | callUnregister u id =>
      refine ⟨congrArg UnregisterPc.isActive ha, ?_, .inr ?_⟩
      · simp [State.isActive, Action.agent, next, State.unregisterTo,
          UnregisterPc.isActive]
      · simp [State.quiet, Action.agent, next, State.unregisterTo]
  | callCancel c =>
      refine ⟨congrArg CancelPc.isActive ha, ?_, .inr ?_⟩
      · simp [State.isActive, Action.agent, next, State.cancelTo,
          CancelPc.isActive]
      · simp [State.quiet, Action.agent, next, State.cancelTo]
  | _ => cases hcalls

/-- A call that does not return stays in its function. -/
theorem isActive_of_step (hreturns : s.returns a = false) :
    (next s a).isActive a.agent = true := by
  cases a with
  | unlockRegister r id | unlockUnregister u id | wakeAll c => cases hreturns
  | testZero u id =>
      have hid : id ≠ 0 := of_decide_eq_false hreturns
      simp [State.isActive, Action.agent, next, State.unregisterTo, hid,
        UnregisterPc.isActive]
  | loadFast u id =>
      have hc : s.cancelled = false := hreturns
      simp [State.isActive, Action.agent, next, State.unregisterTo, hc,
        UnregisterPc.isActive]
  | exchange c =>
      have hc : s.cancelled = false := hreturns
      simp [State.isActive, Action.agent, next, State.cancelTo, hc,
        CancelPc.isActive]
  | loadRegister r =>
      cases hc : s.cancelled <;> simp [State.isActive, Action.agent, next,
        State.registerTo, hc, RegisterPc.isActive]
  | loadUnregister u id =>
      cases hc : s.cancelled <;> simp [State.isActive, Action.agent, next,
        State.unregisterTo, hc, UnregisterPc.isActive]
  | callRegister r | lockRegister r | invoke r | invoked r | push r =>
      simp [State.isActive, Action.agent, next, State.registerTo,
        RegisterPc.isActive]
  | callUnregister u id | lockUnregister u id | erase u id =>
      simp [State.isActive, Action.agent, next, State.unregisterTo,
        UnregisterPc.isActive]
  | _ =>
      simp [State.isActive, Action.agent, next, State.cancelTo,
        CancelPc.isActive]

theorem hasCalled_of_invokes (hinvokes : a.invokes.isSome = true) :
    (next s a).hasCalled a.agent = true := by
  cases a with
  | invoke r =>
      simp [State.hasCalled, Action.agent, next, State.registerTo]
  | start c r cbs =>
      simp [State.hasCalled, Action.agent, next, State.cancelTo]
  | _ => cases hinvokes

/-- In a cancelled state a call that has not locked the mutex returns, or stays
quiet. -/
theorem quiet_of_step (hcancelled : s.cancelled = true)
    (hreturns : s.returns a = false) (ha : Enabled s a)
    (hquiet : s.quiet a.agent = true) : (next s a).quiet a.agent = true := by
  cases a with
  | testZero u id =>
      have hid : id ≠ 0 := of_decide_eq_false hreturns
      simp [State.quiet, Action.agent, next, State.unregisterTo, hid]
  | loadFast u id | exchange c =>
      cases hcancelled.symm.trans hreturns
  | callRegister r | lockRegister r | loadRegister r | invoke r | invoked r
  | push r | unlockRegister r id => cases hquiet
  | callUnregister u id =>
      simp [State.quiet, Action.agent, next, State.unregisterTo]
  | callCancel c => simp [State.quiet, Action.agent, next, State.cancelTo]
  | lockUnregister u id | lockCancel c =>
      simp only [State.quiet, Action.agent] at hquiet
      rw [ha.1] at hquiet
      cases hquiet
  | _ =>
      simp only [State.quiet, Action.agent] at hquiet
      rw [show _ = _ from ha] at hquiet
      cases hquiet

/-- A call that runs code while it holds the mutex is a registration in a
cancelled state. -/
theorem cancelled_of_hasCalled (hs : (system ρ υ κ).Reachable s)
    (hcalled : s.hasCalled p = true) (hholds : s.holds p = true) :
    s.cancelled = true := by
  cases p with
  | unregister u => cases hcalled
  | cancel c =>
      have hc : (s.cancel c).holds = true := hholds
      simp only [State.hasCalled] at hcalled
      cases hpc : s.cancel c with
      | running q cbs | wakeAll =>
          rw [hpc] at hc
          cases hc
      | _ =>
          rw [hpc] at hcalled
          cases hcalled
  | register r =>
      simp only [State.hasCalled] at hcalled
      cases hpc : s.register r with
      | running =>
          obtain ⟨-, place, h⟩ := placed_reachable hs
          have hallows := h.register r
          rw [hpc] at hallows
          refine cancelled_of_invocations hs (r := r) ?_
          rw [h.invocations, show place r = .itself from hallows]
          nofun
      | _ =>
          rw [hpc] at hcalled
          cases hcalled

end Frame

end Cancellation
end Ethreads
