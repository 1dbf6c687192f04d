import Ethreads.Support.Monitor

/-!
# The synchronous event

This module models `sync_event` of `include/shared_state/event.hpp` over
`sync_primitive_base` of `include/shared_state/crtp_base.hpp`, as a monitor.
-/

namespace Ethreads
namespace SyncEvent

/-- `auto_reset_policy` and `manual_reset_policy`. -/
inductive ResetPolicy
  | autoReset
  | manualReset
  deriving DecidableEq, Repr

inductive Op
  | set
  | reset
  | isSet
  | tryWait
  | wait
  | waitFor
  | waitUntil
  deriving DecidableEq, Repr

/-- How a call ends: it returns nothing or a `bool`. -/
inductive Outcome
  | returned
  | flag (b : Bool)
  deriving DecidableEq, Repr

/-- `wait_for_condition` and its timed variants. -/
def Op.waits : Op → Bool
  | wait | waitFor | waitUntil => true
  | _ => false

def Op.timed : Op → Bool
  | waitFor | waitUntil => true
  | _ => false

/-- What a successful wait leaves of `signaled_`. -/
def ResetPolicy.afterWait : ResetPolicy → Bool → Bool
  | autoReset, _ => false
  | manualReset, signaled => signaled

/-- What an operation makes of `signaled_` under the mutex. -/
def Op.effect (policy : ResetPolicy) : Op → Bool → Bool
  | set, _ => true
  | reset, _ => false
  | isSet, signaled => signaled
  | tryWait, signaled => if signaled then policy.afterWait signaled else false
  | wait, signaled | waitFor, signaled | waitUntil, signaled =>
      policy.afterWait signaled

def Op.result : Op → Bool → Outcome
  | set, _ | reset, _ | wait, _ => .returned
  | isSet, signaled | tryWait, signaled => .flag signaled
  | waitFor, _ | waitUntil, _ => .flag true

/-- `set` wakes one waiter or all. -/
def Op.notifications (policy : ResetPolicy) : Op → Notifications
  | set =>
      match policy with
      | .autoReset => .one 1
      | .manualReset => .all
  | _ => .one 0

/-- `sync_event`. -/
def monitor (policy : ResetPolicy) : Monitor Bool Op Outcome where
  waits := Op.waits
  timed := Op.timed
  ready _ signaled := signaled
  effect := Op.effect policy
  result := Op.result
  notifications := Op.notifications policy
  expired _ := .flag false

/-- A call that ends in this way is a successful wait. -/
def Op.succeeds : Op → Outcome → Bool
  | wait, _ => true
  | tryWait, .flag b | waitFor, .flag b | waitUntil, .flag b => b
  | _, _ => false

section Waiters

variable {τ : Type*}

def succeeds (e : Monitor.Event τ Bool Op) : Bool :=
  e.op.succeeds (e.op.result e.before)

/-- The calls of `set` that have set `signaled_`. -/
def sets (e : Monitor.Event τ Bool Op) : Bool :=
  decide (e.op = .set)

/-- Waiters are released as the reset policy promises.  Between its store to
`signaled_` and its notification a call of `set` holds the mutex. -/
structure ReleasesWaiters (policy : ResetPolicy) (initial : Bool)
    (s : Monitor.State τ Bool Op Outcome) : Prop where
  successes : policy = .autoReset →
    s.performed.countP succeeds ≤
      s.performed.countP sets + if initial then 1 else 0
  signaled : policy = .autoReset →
    (∀ t, (s.pc t).isNotifying = false) → s.data = true →
      (∃ t, (s.pc t).isWaiting = true) → ∃ t, (s.pc t).isNotified = true
  manual : policy = .manualReset → s.mutex = none → s.data = true →
    ∀ t, (s.pc t).isWaiting = false
  transitions : Monitor.Leads (monitor policy) initial s.performed s.data
  matched : policy = .autoReset →
    ∀ e ∈ s.performed, succeeds e = true →
      e.before = true ∧ e.after = false

/-- Under auto-reset a successful wait takes the signal. -/
theorem effect_of_succeeds {op : Op} {signaled : Bool}
    (hready : op.waits = true → signaled = true)
    (hsucceeds : op.succeeds (op.result signaled) = true) :
    signaled = true ∧ op.effect .autoReset signaled = false := by
  cases op with
  | set | reset | isSet => exact nomatch hsucceeds
  | tryWait =>
      obtain rfl : signaled = true := hsucceeds
      exact ⟨rfl, rfl⟩
  | wait | waitFor | waitUntil => exact ⟨hready rfl, rfl⟩

/-- A successful wait uses up a signal, which only `set` makes. -/
theorem succeeds_add_effect {op : Op} {signaled : Bool}
    (hready : op.waits = true → signaled = true) :
    (if op.succeeds (op.result signaled) = true then 1 else 0) +
        (if op.effect .autoReset signaled = true then 1 else 0) ≤
      (if signaled = true then 1 else 0) + if op = .set then 1 else 0 := by
  cases op with
  | wait | waitFor | waitUntil =>
      obtain rfl := hready rfl
      exact le_rfl
  | set | reset | isSet | tryWait => cases signaled <;> decide

/-- Every successful wait is paid for by a call of `set` or by the initial
state. -/
theorem countP_of_leads {initial signaled : Bool}
    {es : List (Monitor.Event τ Bool Op)}
    (h : Monitor.Leads (monitor .autoReset) initial es signaled) :
    es.countP succeeds + (if signaled then 1 else 0) ≤
      es.countP sets + if initial then 1 else 0 := by
  induction h with
  | nil => simp
  | @snoc es signaled t op _ hready ih =>
      have hsignaled : op.waits = true → signaled = true := hready
      have hstep := succeeds_add_effect hsignaled
      have hsucceeds : succeeds (τ := τ)
          ⟨t, op, signaled, op.effect .autoReset signaled⟩ =
            op.succeeds (op.result signaled) := rfl
      have hsets : (sets (τ := τ)
          ⟨t, op, signaled, op.effect .autoReset signaled⟩ = true) =
            (op = .set) := by
        simp [sets]
      change (es ++ [(⟨t, op, signaled, op.effect .autoReset signaled⟩ :
          Monitor.Event τ Bool Op)]).countP succeeds +
            (if op.effect .autoReset signaled then 1 else 0) ≤
          (es ++ [(⟨t, op, signaled, op.effect .autoReset signaled⟩ :
            Monitor.Event τ Bool Op)]).countP sets + _
      rw [List.countP_append, List.countP_append, List.countP_singleton,
        List.countP_singleton, hsucceeds]
      simp only [hsets]
      omega

/-- A signal lets one thread pass under auto-reset, and all threads under
manual reset. -/
def credit (policy : ResetPolicy) (signaled : Bool) : ℕ∞ :=
  if signaled then
    match policy with
    | .autoReset => 1
    | .manualReset => ⊤
  else 0

theorem credit_signaled (policy : ResetPolicy) :
    Monitor.Credit (monitor policy) (credit policy) where
  block op signaled _ hready := by
    obtain rfl : signaled = false := hready
    rfl
  pass op signaled hwaits hready := by
    obtain rfl : signaled = true := hready
    cases op with
    | wait | waitFor | waitUntil =>
        cases policy with
        | autoReset => exact le_of_eq rfl
        | manualReset => exact le_top
    | set | reset | isSet | tryWait => exact nomatch hwaits
  act op signaled hwaits := by
    cases op with
    | wait | waitFor | waitUntil => exact nomatch hwaits
    | set =>
        cases policy with
        | autoReset => exact le_add_left le_rfl
        | manualReset => exact le_add_left le_top
    | reset => exact zero_le
    | isSet => exact le_self_add
    | tryWait =>
        cases signaled with
        | true =>
            cases policy with
            | autoReset => exact zero_le
            | manualReset => exact le_of_eq (top_add (0 : ℕ∞)).symm
        | false => exact zero_le

/-- The event releases its waiters under both reset policies. -/
theorem releasesWaiters (τ : Type*) [Fintype τ] [DecidableEq τ]
    (policy : ResetPolicy) (initial : Bool) :
    ∀ s : Monitor.State τ Bool Op Outcome,
      (Monitor.system (monitor policy) initial).Reachable s →
        ReleasesWaiters policy initial s := by
  intro s hs
  have hleads := Monitor.leads_reachable hs
  refine ⟨?_, ?_, ?_, hleads, ?_⟩
  · rintro rfl
    exact le_trans (Nat.le_add_right ..) (countP_of_leads hleads)
  · rintro rfl hnone hsignaled hwaiting
    have hcredit := Monitor.credit_le_notifiedCount
      (credit_signaled .autoReset) hs hnone hwaiting
    rw [hsignaled] at hcredit
    have hpos : 0 < s.notifiedCount := by
      exact_mod_cast lt_of_lt_of_le zero_lt_one hcredit
    obtain ⟨t, ht⟩ := Finset.card_pos.mp hpos
    exact ⟨t, (Finset.mem_filter.mp ht).2⟩
  · rintro rfl hfree hsignaled t
    by_contra hwaiting
    have hcredit := Monitor.credit_le_notifiedCount
      (credit_signaled .manualReset) hs (Monitor.isNotifying_of_free hs hfree)
      ⟨t, by simpa using hwaiting⟩
    rw [hsignaled] at hcredit
    exact absurd (top_le_iff.mp hcredit) (ENat.natCast_ne_top _)
  · rintro rfl
    refine hleads.forall_mem _ fun t op signaled hready hsucceeds => ?_
    exact effect_of_succeeds hready hsucceeds

end Waiters

/-- A thread waits for an event with auto-reset, and another one sets it
twice. -/
def setsTwice : List (Monitor.Action (Fin 2) Op Outcome) :=
  [.call 0 .waitFor, .lock 0 .waitFor, .block 0 .waitFor false, .call 1 .set,
    .lock 1 .set, .perform 1 .set false false,
    .notifyOne 1 .set 0 .returned 0 .waitFor, .unlock 1 .set .returned,
    .call 1 .set, .lock 1 .set, .perform 1 .set false false,
    .notifyNobody 1 .set 0 .returned, .unlock 1 .set .returned,
    .relock 0 .waitFor true true, .perform 0 .waitFor true true,
    .unlock 0 .waitFor (.flag true)]

theorem releasesWaiters_setsTwice :
    ReleasesWaiters .autoReset false
      ((Monitor.system (monitor .autoReset) false).after
        (Monitor.initialState (Fin 2) Op Outcome false) setsTwice) :=
  releasesWaiters (Fin 2) .autoReset false _
    (TransitionSystem.Executes.reachable (.init rfl) (by decide))

end SyncEvent
end Ethreads
