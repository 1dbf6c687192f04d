import Ethreads.Cancellation.Places

/-!
# Callbacks fire exactly once

A callback is invoked at most once, because it is in one place only.  When the
call of `cancel` that has won returns, its vector is empty and nothing is
listed, so that a registered callback was invoked or erased.
-/

namespace Ethreads
namespace Cancellation

variable {ρ υ κ : Type*}

/-- The callbacks fire exactly once, and their ids tell them apart. -/
structure FiresOnce (s : State ρ υ κ) : Prop where
  length : s.callbacks.length = s.callbackIds.length
  ids : ∀ (i : ℕ) r, s.callbacks[i]? = some r →
    s.callbackIds[i]? = some (s.register r).id ∧
      (s.register r = .unlock (s.register r).id ∨
        s.register r = .returned (s.register r).id)
  nonzero : ∀ r ∈ s.callbacks, (s.register r).id ≠ 0
  distinct : ∀ r q id, id ≠ 0 → s.register r = .returned id →
    s.register q = .returned id → r = q
  atMostOnce : ∀ r, (s.invocations r).length ≤ 1
  erased : ∀ r, s.erased r = true → s.invocations r = []
  itself : ∀ r id, s.register r = .returned id →
    (id = 0 ↔ s.invocations r = [.itself])
  exactlyOnce : ∀ c, s.cancel c = .returned true → ∀ r id,
    s.register r = .returned id → s.erased r = false →
      (s.invocations r).length = 1

theorem length_invocations_le (p : Place κ) : p.invocations.length ≤ 1 := by
  cases p <;> simp [Place.invocations]

theorem invocations_eq_itself {p : Place κ} :
    p.invocations = [.itself] ↔ p = .itself := by
  cases p <;> simp [Place.invocations]

section Steps

variable [DecidableEq ρ] [DecidableEq υ] [DecidableEq κ] {s : State ρ υ κ}
  {place : ρ → Place κ}

omit [DecidableEq ρ] [DecidableEq υ] [DecidableEq κ] in
/-- A listed callback has an id other than zero. -/
theorem Placed.id_of_wasListed (h : Placed s place) {r : ρ}
    (hr : (place r).wasListed = true) : (s.register r).id ≠ 0 ∧
      (s.register r = .unlock (s.register r).id ∨
        s.register r = .returned (s.register r).id) := by
  have hallows := h.register r
  cases hpc : s.register r with
  | unlock id | returned id =>
      rw [hpc] at hallows
      refine ⟨fun hid => ?_, by simp [RegisterPc.id]⟩
      rw [hallows.1 hid] at hr
      cases hr
  | running =>
      rw [hpc] at hallows
      rw [show place r = .itself from hallows] at hr
      cases hr
  | _ =>
      rw [hpc] at hallows
      rw [show place r = .fresh from hallows] at hr
      cases hr

omit [DecidableEq ρ] [DecidableEq υ] [DecidableEq κ] in
/-- When the winner has returned, a registered callback was invoked or
erased. -/
theorem Placed.invoked_of_returned (h : Placed s place) (hwon : Won s)
    {c : κ} (hc : s.cancel c = .returned true) {r : ρ} {id : ℕ}
    (hr : s.register r = .returned id) (herased : s.erased r = false) :
    (s.invocations r).length = 1 := by
  have hallows := h.register r
  rw [hr] at hallows
  rw [h.invocations]
  cases hplace : place r with
  | itself | invoked d => rfl
  | fresh =>
      rw [hplace] at hallows
      by_cases hid : id = 0
      · exact nomatch hallows.1 hid
      · exact nomatch hallows.2 hid
  | listed =>
      have hmem := (h.listed r).mpr hplace
      rw [hwon.callbacks c (by rw [hc]; rfl)] at hmem
      exact absurd hmem List.not_mem_nil
  | collected d =>
      have hmem := (h.collected d r).mpr hplace
      have hd : (s.cancel d).won = true := by
        cases hpc : s.cancel d with
        | unlock cbs | run cbs | running q cbs => rfl
        | _ =>
            rw [hpc] at hmem
            exact absurd hmem List.not_mem_nil
      obtain rfl := hwon.unique d c hd (by rw [hc]; rfl)
      rw [hc] at hmem
      exact absurd hmem List.not_mem_nil
  | erased =>
      have := (h.erased r).mpr hplace
      exact absurd (herased.symm.trans this) (by simp)

/-- Callbacks fire exactly once, in every interleaving of any number of calls
of `register_callback`, `unregister_callback` and `cancel`. -/
theorem firesOnce (ρ υ κ : Type*) [DecidableEq ρ] [DecidableEq υ]
    [DecidableEq κ] :
    ∀ s : State ρ υ κ, (system ρ υ κ).Reachable s → FiresOnce s := by
  intro s hs
  obtain ⟨hid, place, h⟩ := placed_reachable hs
  have hwon := won_reachable hs
  have hlisted : ∀ r ∈ s.callbacks, (place r).wasListed = true := by
    intro r hr
    rw [(h.listed r).mp hr]
    rfl
  refine ⟨hid.length, fun i r hi => ?_,
    fun r hr => (h.id_of_wasListed (hlisted r hr)).1,
    fun r q id hne hr hq => ?_, fun r => ?_, fun r hr => ?_,
    fun r id hr => ?_, fun c hc r id hr => h.invoked_of_returned hwon hc hr⟩
  · refine ⟨?_, (h.id_of_wasListed
      (hlisted r (List.mem_of_getElem? hi))).2⟩
    rw [hid.ids, List.getElem?_map, hi]
    rfl
  · apply hid.distinct r q
    · rwa [hr]
    · rw [hr, hq]
  · rw [h.invocations]
    exact length_invocations_le _
  · rw [h.invocations, (h.erased r).mp hr]
    rfl
  · have hallows := h.register r
    rw [hr] at hallows
    rw [h.invocations, invocations_eq_itself]
    refine ⟨hallows.1, fun hplace => ?_⟩
    by_contra hne
    have hwas := hallows.2 hne
    rw [hplace] at hwas
    cases hwas

/-! ## Invocations and the flag -/

/-- Whoever invokes a callback has seen the state cancelled. -/
theorem invokes_of_reachable (hs : (system ρ υ κ).Reachable s) :
    ∀ r, s.register r = .invoke → s.cancelled = true := by
  refine hs.invariant (fun s => ∀ r, s.register r = .invoke →
    s.cancelled = true) ?_ ?_
  · rintro s rfl r hr
    cases hr
  · intro s a h ha r hr
    by_cases hagent : a.agent = .register r
    · cases a with
      | loadRegister q =>
          obtain rfl := Holder.register.inj hagent
          have hself : (next s (.loadRegister q)).register q =
              if s.cancelled then .invoke else .push :=
            Function.update_self ..
          have hif := hself.symm.trans hr
          by_contra hnot
          rw [if_neg (show ¬s.cancelled = true from hnot)] at hif
          cases hif
      | callRegister q | lockRegister q | invoke q | invoked q | push q
      | unlockRegister q id =>
          obtain rfl := Holder.register.inj hagent
          exact nomatch (Function.update_self ..).symm.trans hr
      | _ => exact nomatch hagent
    · apply cancelled_next
      exact h r ((register_next_of_ne hagent).symm.trans hr)

/-- A callback is invoked only when the state is cancelled. -/
theorem cancelled_of_invocations (hs : (system ρ υ κ).Reachable s) {r : ρ}
    (hr : s.invocations r ≠ []) : s.cancelled = true := by
  refine hs.invariant_of (J := fun s => (system ρ υ κ).Reachable s)
    (fun s => s.invocations r ≠ [] → s.cancelled = true) (fun s hs => hs)
    ?_ ?_ hr
  · rintro s rfl hr
    exact absurd rfl hr
  · intro s a hs h ha hr
    cases a with
    | invoke q =>
        have hcancelled : s.cancelled = true := invokes_of_reachable hs q ha
        exact hcancelled
    | start c q cbs =>
        refine (won_reachable hs).cancelled c ?_
        rw [show s.cancel c = .run (q :: cbs) from ha]
        rfl
    | exchange c => rfl
    | erase u id =>
        refine cancelled_next (h ?_)
        rw [← erase_invocations s id]
        exact hr
    | _ => exact h hr

omit [DecidableEq ρ] [DecidableEq υ] [DecidableEq κ] in
/-- Before its call a registration has not been invoked, and its callback is
in none of the vectors. -/
theorem Placed.fresh_of_idle (h : Placed s place) {r : ρ}
    (hr : s.register r = .idle) : place r = .fresh := by
  have hallows := h.register r
  rw [hr] at hallows
  exact hallows

/-- A callback that is started has not been invoked before. -/
theorem invocations_of_invokes (hs : (system ρ υ κ).Reachable s)
    {a : Action ρ υ κ} (ha : Enabled s a) {r : ρ}
    (hr : a.invokes = some r) : s.invocations r = [] := by
  obtain ⟨-, place, h⟩ := placed_reachable hs
  cases a with
  | invoke q =>
      obtain rfl := Option.some.inj hr
      have hpc : s.register q = .invoke := ha
      have hallows := h.register q
      rw [hpc] at hallows
      rw [h.invocations, show place q = .fresh from hallows]
      rfl
  | start c q cbs =>
      obtain rfl := Option.some.inj hr
      have hpc : s.cancel c = .run (q :: cbs) := ha
      have hplace : place q = .collected c := by
        rw [← h.collected c q, hpc]
        exact List.mem_cons_self
      rw [h.invocations, hplace]
      rfl
  | _ => cases hr

/-- A callback that was invoked has been registered. -/
theorem invocations_of_idle (hs : (system ρ υ κ).Reachable s) {r : ρ}
    (hr : s.register r = .idle) : s.invocations r = [] := by
  obtain ⟨-, place, h⟩ := placed_reachable hs
  rw [h.invocations, h.fresh_of_idle hr]
  rfl

end Steps

/-- A callback is listed after the exchange of `cancel` and before its swap,
another one when the vectors have been swapped; a third one is erased. -/
def registersWhileCancelled : List (Action (Fin 3) (Fin 1) (Fin 2)) :=
  [.callRegister 0, .lockRegister 0, .loadRegister 0, .push 0,
    .unlockRegister 0 1, .callRegister 2, .lockRegister 2, .loadRegister 2,
    .push 2, .unlockRegister 2 2, .callUnregister 0 1, .testZero 0 1,
    .loadFast 0 1, .lockUnregister 0 1, .loadUnregister 0 1, .erase 0 1,
    .unlockUnregister 0 1, .callCancel 0, .exchange 0, .callCancel 1,
    .exchange 1, .lockCancel 0, .swap 0, .unlockCancel 0 [2],
    .callRegister 1, .lockRegister 1, .loadRegister 1, .start 0 2 [],
    .invoke 1, .invoked 1, .unlockRegister 1 0, .finish 0 2 [], .runDone 0,
    .wakeAll 0]

theorem firesOnce_registersWhileCancelled :
    FiresOnce ((system (Fin 3) (Fin 1) (Fin 2)).after
      (initialState (Fin 3) (Fin 1) (Fin 2)) registersWhileCancelled) :=
  firesOnce (Fin 3) (Fin 1) (Fin 2) _
    (TransitionSystem.Executes.reachable (.init rfl) (by decide))

end Cancellation
end Ethreads
