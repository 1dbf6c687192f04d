import Ethreads.Cancellation.Model
import Ethreads.Support.Mutex

/-!
# The mutex, and the call of `cancel` that wins

The vectors are only touched by the call that holds the mutex.  One call of
`cancel` at most finds the state not cancelled.  After it has swapped the
vectors they stay empty: a registration that gets the mutex later finds the
state cancelled.
-/

namespace Ethreads
namespace Cancellation

variable {ρ υ κ : Type*}

/-! ## Mutual exclusion -/

def RegisterPc.holds : RegisterPc → Bool
  | load | invoke | running | push | unlock _ => true
  | _ => false

def UnregisterPc.holds : UnregisterPc → Bool
  | load _ | erase _ | unlock _ => true
  | _ => false

def CancelPc.holds : CancelPc ρ → Bool
  | swap | unlock _ => true
  | _ => false

def State.holds (s : State ρ υ κ) : Holder ρ υ κ → Bool
  | .register r => (s.register r).holds
  | .unregister u => (s.unregister u).holds
  | .cancel c => (s.cancel c).holds

/-- The owner of the mutex is the call that stands where it holds it. -/
def Exclusive (s : State ρ υ κ) : Prop :=
  Guards id s.mutex s.holds

section Exclusion

variable [DecidableEq ρ] [DecidableEq υ] [DecidableEq κ] {s : State ρ υ κ}
  {a : Action ρ υ κ}

/-- Only the call that makes a step moves. -/
theorem holds_next (s : State ρ υ κ) (a : Action ρ υ κ) :
    (next s a).holds =
      Function.update s.holds a.agent ((next s a).holds a.agent) := by
  funext p
  by_cases hp : p = a.agent
  · rw [hp, Function.update_self]
  · rw [Function.update_of_ne hp]
    cases p with
    | register r =>
        exact congrArg RegisterPc.holds (register_next_of_ne (Ne.symm hp))
    | unregister u =>
        exact congrArg UnregisterPc.holds (unregister_next_of_ne (Ne.symm hp))
    | cancel c =>
        exact congrArg CancelPc.holds (cancel_next_of_ne (Ne.symm hp))

omit [DecidableEq ρ] [DecidableEq υ] [DecidableEq κ] in
theorem holds_of_register {r : ρ} {q : RegisterPc} {b : Bool}
    (h : s.register r = q) (hq : q.holds = b) : s.holds (.register r) = b := by
  rw [← hq, ← h]
  rfl

omit [DecidableEq ρ] [DecidableEq υ] [DecidableEq κ] in
theorem holds_of_unregister {u : υ} {q : UnregisterPc} {b : Bool}
    (h : s.unregister u = q) (hq : q.holds = b) :
    s.holds (.unregister u) = b := by
  rw [← hq, ← h]
  rfl

omit [DecidableEq ρ] [DecidableEq υ] [DecidableEq κ] in
theorem holds_of_cancel {c : κ} {q : CancelPc ρ} {b : Bool}
    (h : s.cancel c = q) (hq : q.holds = b) : s.holds (.cancel c) = b := by
  rw [← hq, ← h]
  rfl

theorem exclusive_next (h : Exclusive s) (ha : Enabled s a) :
    Exclusive (next s a) := by
  have hstay : ∀ b, (next s a).mutex = s.mutex → s.holds a.agent = b →
      (next s a).holds a.agent = b → Exclusive (next s a) := by
    intro b hmutex hbefore hafter
    unfold Exclusive
    rw [hmutex, holds_next, hafter]
    exact h.stay (t := a.agent) hbefore.symm
  have henter : s.mutex = none → (next s a).mutex = some a.agent →
      (next s a).holds a.agent = true → Exclusive (next s a) := by
    intro hfree hmutex hafter
    unfold Exclusive
    rw [hmutex, holds_next, hafter]
    exact h.enter hfree rfl
  have hleave : s.holds a.agent = true → (next s a).mutex = none →
      (next s a).holds a.agent = false → Exclusive (next s a) := by
    intro hin hmutex hafter
    unfold Exclusive
    rw [hmutex, holds_next, hafter]
    exact h.leave (t := a.agent) hin rfl
  cases a with
  | lockRegister r =>
      exact henter ha.2 rfl (holds_of_register (Function.update_self ..) rfl)
  | lockUnregister u id =>
      exact henter ha.2 rfl (holds_of_unregister (Function.update_self ..) rfl)
  | lockCancel c =>
      exact henter ha.2 rfl (holds_of_cancel (Function.update_self ..) rfl)
  | unlockRegister r id =>
      exact hleave (holds_of_register ha rfl) rfl
        (holds_of_register (Function.update_self ..) rfl)
  | unlockUnregister u id =>
      exact hleave (holds_of_unregister ha rfl) rfl
        (holds_of_unregister (Function.update_self ..) rfl)
  | unlockCancel c cbs =>
      exact hleave (holds_of_cancel ha rfl) rfl
        (holds_of_cancel (Function.update_self ..) rfl)
  | callRegister r | invoke r | invoked r | push r =>
      exact hstay _ rfl (holds_of_register ha rfl)
        (holds_of_register (Function.update_self ..) rfl)
  | loadRegister r =>
      refine hstay _ rfl (holds_of_register ha rfl)
        (holds_of_register (Function.update_self ..) ?_)
      cases s.cancelled <;> rfl
  | callUnregister u id =>
      exact hstay _ rfl (holds_of_unregister ha rfl)
        (holds_of_unregister (Function.update_self ..) rfl)
  | testZero u id =>
      refine hstay _ rfl (holds_of_unregister ha rfl)
        (holds_of_unregister (Function.update_self ..) ?_)
      by_cases hid : id = 0 <;> simp [hid, UnregisterPc.holds]
  | loadFast u id =>
      refine hstay _ rfl (holds_of_unregister ha rfl)
        (holds_of_unregister (Function.update_self ..) ?_)
      cases s.cancelled <;> rfl
  | loadUnregister u id =>
      refine hstay _ rfl (holds_of_unregister ha rfl)
        (holds_of_unregister (Function.update_self ..) ?_)
      cases s.cancelled <;> rfl
  | erase u id =>
      exact hstay _ (erase_mutex s id) (holds_of_unregister ha rfl)
        (holds_of_unregister (Function.update_self ..) rfl)
  | exchange c =>
      refine hstay _ rfl (holds_of_cancel ha rfl)
        (holds_of_cancel (Function.update_self ..) ?_)
      cases s.cancelled <;> rfl
  | callCancel c | swap c | start c r cbs | finish c r cbs | runDone c
  | wakeAll c =>
      exact hstay _ rfl (holds_of_cancel ha rfl)
        (holds_of_cancel (Function.update_self ..) rfl)

theorem exclusive_reachable (hs : (system ρ υ κ).Reachable s) :
    Exclusive s := by
  refine hs.invariant Exclusive ?_ fun s a h ha => exclusive_next h ha
  rintro s rfl p
  cases p <;> simp [State.holds, initialState, RegisterPc.holds,
    UnregisterPc.holds, CancelPc.holds]

end Exclusion

/-! ## The call of `cancel` that runs the callbacks -/

def CancelPc.won : CancelPc ρ → Bool
  | idle | exchange | returned false => false
  | _ => true

def CancelPc.swapped : CancelPc ρ → Bool
  | idle | exchange | lock | swap | returned false => false
  | _ => true

/-- Only one call of `cancel` wins, and after its swap nothing is registered
any more. -/
structure Won (s : State ρ υ κ) : Prop where
  cancelled : ∀ c, (s.cancel c).won = true → s.cancelled = true
  unique : ∀ c d, (s.cancel c).won = true → (s.cancel d).won = true → c = d
  callbacks : ∀ c, (s.cancel c).swapped = true → s.callbacks = []
  push : ∀ c, (s.cancel c).swapped = true → ∀ r, s.register r ≠ .push

theorem won_of_swapped {p : CancelPc ρ} (h : p.swapped = true) :
    p.won = true := by
  cases p with
  | returned first => cases first <;> exact h
  | _ => first | rfl | exact nomatch h

section Winner

variable [DecidableEq ρ] [DecidableEq υ] [DecidableEq κ] {s s' : State ρ υ κ}
  {a : Action ρ υ κ}

omit [DecidableEq ρ] [DecidableEq υ] [DecidableEq κ] in
theorem Won.of_same (h : Won s) (hcancel : s'.cancel = s.cancel)
    (hcancelled : s'.cancelled = s.cancelled)
    (hcallbacks : s.callbacks = [] → s.cancelled = true →
      s'.callbacks = [])
    (hpush : ∀ r, s'.register r = .push →
      s.register r = .push ∨ s.cancelled = false) : Won s' := by
  constructor
  · rw [hcancel, hcancelled]
    exact h.cancelled
  · rw [hcancel]
    exact h.unique
  · intro c hc
    rw [hcancel] at hc
    exact hcallbacks (h.callbacks c hc) (h.cancelled c (won_of_swapped hc))
  · intro c hc r hr
    rw [hcancel] at hc
    rcases hpush r hr with hold | hnot
    · exact h.push c hc r hold
    · have hyes := h.cancelled c (won_of_swapped hc)
      exact absurd (hnot.symm.trans hyes) (by simp)

omit [DecidableEq ρ] [DecidableEq υ] in
theorem Won.of_cancel (h : Won s) {c : κ} {p q : CancelPc ρ}
    (hp : s.cancel c = p) (hcancel : s'.cancel = Function.update s.cancel c q)
    (hcancelled : s'.cancelled = s.cancelled)
    (hcallbacks : s'.callbacks = s.callbacks)
    (hregister : s'.register = s.register)
    (hwon : q.won = true → p.won = true)
    (hswapped : q.swapped = true → p.swapped = true) : Won s' := by
  have hwas : ∀ d, (s'.cancel d).won = true → (s.cancel d).won = true := by
    intro d hd
    rw [hcancel] at hd
    by_cases hdc : d = c
    · subst hdc
      rw [Function.update_self] at hd
      rw [hp]
      exact hwon hd
    · rwa [Function.update_of_ne hdc] at hd
  have hhad : ∀ d, (s'.cancel d).swapped = true →
      (s.cancel d).swapped = true := by
    intro d hd
    rw [hcancel] at hd
    by_cases hdc : d = c
    · subst hdc
      rw [Function.update_self] at hd
      rw [hp]
      exact hswapped hd
    · rwa [Function.update_of_ne hdc] at hd
  constructor
  · intro d hd
    rw [hcancelled]
    exact h.cancelled d (hwas d hd)
  · intro d e hd he
    exact h.unique d e (hwas d hd) (hwas e he)
  · intro d hd
    rw [hcallbacks]
    exact h.callbacks d (hhad d hd)
  · intro d hd
    rw [hregister]
    exact h.push d (hhad d hd)

/-- The first exchange wins, a later one changes nothing. -/
theorem Won.of_exchange (h : Won s) {c : κ} (hc : s.cancel c = .exchange) :
    Won (next s (.exchange c)) := by
  cases hcancelled : s.cancelled with
  | true =>
      refine h.of_cancel (q := .returned false) hc ?_ hcancelled.symm rfl rfl
        nofun nofun
      simp [next, State.cancelTo, hcancelled]
  | false =>
      have hnone : ∀ d, (s.cancel d).won = false := by
        intro d
        rw [Bool.eq_false_iff]
        exact fun hd => absurd (hcancelled.symm.trans (h.cancelled d hd))
          (by simp)
      have hcancel : (next s (.exchange c)).cancel =
          Function.update s.cancel c .lock := by
        simp [next, State.cancelTo, hcancelled]
      have honly : ∀ d, ((next s (.exchange c)).cancel d).won = true →
          d = c := by
        intro d hd
        by_contra hdc
        rw [hcancel, Function.update_of_ne hdc, hnone d] at hd
        cases hd
      have hno : ∀ d, ((next s (.exchange c)).cancel d).swapped = false := by
        intro d
        rw [Bool.eq_false_iff]
        intro hd
        obtain rfl := honly d (won_of_swapped hd)
        rw [hcancel, Function.update_self] at hd
        cases hd
      refine ⟨fun _ _ => rfl, fun d e hd he => ?_, fun d hd => ?_,
        fun d hd => ?_⟩
      · exact (honly d hd).trans (honly e he).symm
      · exact absurd ((hno d).symm.trans hd) (by simp)
      · exact absurd ((hno d).symm.trans hd) (by simp)

/-- The swap empties the vectors while nobody else holds the mutex. -/
theorem Won.of_swap (h : Won s) (hexcl : Exclusive s) {c : κ}
    (hc : s.cancel c = .swap) : Won (next s (.swap c)) := by
  have hwas : ∀ d, ((next s (.swap c)).cancel d).won = true →
      (s.cancel d).won = true := by
    intro d hd
    by_cases hdc : d = c
    · rw [hdc, hc]
      rfl
    · have hother : (next s (.swap c)).cancel d = s.cancel d :=
        Function.update_of_ne hdc _ _
      rwa [hother] at hd
  refine ⟨fun d hd => h.cancelled d (hwas d hd),
    fun d e hd he => h.unique d e (hwas d hd) (hwas e he),
    fun _ _ => rfl, fun _ _ r hr => ?_⟩
  have hin : s.holds (.register r) = true := holds_of_register hr rfl
  have hcin : s.holds (.cancel c) = true := holds_of_cancel hc rfl
  have := hexcl.unique (t := .register r) (u := .cancel c) hin hcin
  cases this

omit [DecidableEq υ] [DecidableEq κ] in
theorem erase_callbacks_eq_nil (id : ℕ) (h : s.callbacks = []) :
    (s.erase id).callbacks = [] := by
  unfold State.erase
  split
  · rw [h]
    rfl
  · exact h

theorem won_next (hexcl : Exclusive s) (h : Won s) (ha : Enabled s a) :
    Won (next s a) := by
  have hregister : ∀ {s' : State ρ υ κ} {r : ρ} {q : RegisterPc},
      s'.cancel = s.cancel → s'.cancelled = s.cancelled →
      s'.callbacks = s.callbacks →
      s'.register = Function.update s.register r q →
      (q = .push → s.cancelled = false) → Won s' := by
    intro s' r q hcancel hcancelled hcallbacks hr hq
    refine h.of_same hcancel hcancelled (fun hnil _ => hcallbacks.trans hnil) ?_
    intro r' hr'
    rw [hr] at hr'
    by_cases hrr : r' = r
    · subst hrr
      rw [Function.update_self] at hr'
      exact .inr (hq hr')
    · rw [Function.update_of_ne hrr] at hr'
      exact .inl hr'
  cases a with
  | callRegister r | lockRegister r | invoke r | invoked r
  | unlockRegister r id => exact hregister rfl rfl rfl rfl nofun
  | loadRegister r =>
      refine hregister rfl rfl rfl rfl fun hq => ?_
      cases hc : s.cancelled with
      | true => simp [hc] at hq
      | false => rfl
  | push r =>
      have hr : s.register r = .push := ha
      have hnone : ∀ c, (s.cancel c).swapped = false := by
        intro c
        rw [Bool.eq_false_iff]
        exact fun hc => h.push c hc r hr
      refine ⟨h.cancelled, h.unique, fun c hc => ?_, fun c hc => ?_⟩
      · exact absurd ((hnone c).symm.trans hc) (by simp)
      · exact absurd ((hnone c).symm.trans hc) (by simp)
  | callUnregister u id | testZero u id | loadFast u id | lockUnregister u id
  | loadUnregister u id | unlockUnregister u id =>
      exact h.of_same rfl rfl (fun hnil _ => hnil) fun _ => .inl
  | erase u id =>
      refine h.of_same (erase_cancel s id) (erase_cancelled s id) ?_ ?_
      · intro hnil _
        exact erase_callbacks_eq_nil id hnil
      · intro r hr
        rw [← erase_register s id]
        exact .inl hr
  | exchange c => exact h.of_exchange ha
  | swap c => exact h.of_swap hexcl ha
  | callCancel c => exact h.of_cancel ha rfl rfl rfl rfl nofun nofun
  | lockCancel c =>
      exact h.of_cancel ha.1 rfl rfl rfl rfl (fun _ => rfl) nofun
  | unlockCancel c cbs | start c r cbs | finish c r cbs | runDone c
  | wakeAll c =>
      exact h.of_cancel ha rfl rfl rfl rfl (fun _ => rfl) fun _ => rfl

theorem won_reachable (hs : (system ρ υ κ).Reachable s) : Won s := by
  refine hs.invariant_of (J := Exclusive) Won
    (fun s hs => exclusive_reachable hs) ?_
    fun s a hexcl h ha => won_next hexcl h ha
  rintro s rfl
  exact ⟨nofun, nofun, nofun, nofun⟩

end Winner

end Cancellation
end Ethreads
