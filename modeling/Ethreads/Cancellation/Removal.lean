import Ethreads.Cancellation.Callbacks

/-!
# Callbacks that are unregistered

A callback is pending when it is in `callbacks_`, or in the vector of a call of
`cancel` that has not started it yet.  `unregister_callback` removes a callback
from `callbacks_`, but it leaves a pending one alone when it finds the state
cancelled.  If it never does so, a callback is not pending any more when its
removal returns.
-/

namespace Ethreads
namespace Cancellation

variable {ρ υ κ : Type*}

/-- The callback will be started unless it is removed before. -/
def Pending (s : State ρ υ κ) (r : ρ) : Prop :=
  r ∈ s.callbacks ∨ ∃ c, r ∈ (s.cancel c).cbs

/-- A call of `unregister_callback` that finds the state cancelled is not for a
pending callback. -/
def FindsSettled (s : State ρ υ κ) : Action ρ υ κ → Prop
  | .loadFast _ id | .loadUnregister _ id =>
      s.cancelled = true → ∀ r, s.register r = .returned id → ¬Pending s r
  | _ => True

instance [DecidableEq ρ] [Fintype κ] (s : State ρ υ κ) (r : ρ) :
    Decidable (Pending s r) :=
  inferInstanceAs (Decidable (_ ∨ ∃ _, _))

instance [DecidableEq ρ] [Fintype ρ] [Fintype κ] (s : State ρ υ κ)
    (a : Action ρ υ κ) : Decidable (FindsSettled s a) := by
  induction a using Action.casesOn <;> dsimp only [FindsSettled] <;>
    infer_instance

def UnregisterPc.id : UnregisterPc → Option ℕ
  | idle => none
  | testZero id | loadFast id | lock id | load id | erase id | unlock id
  | returned id => some id

/-- The id of a call of `unregister_callback` that only has to return. -/
def UnregisterPc.decided : UnregisterPc → Option ℕ
  | unlock id | returned id => some id
  | _ => none

/-- The ids that are unregistered have been returned by a registration. -/
def Known (s : State ρ υ κ) : Prop :=
  ∀ u id, (s.unregister u).id = some id → ∃ r, s.register r = .returned id

/-- A callback that was unregistered is not pending. -/
def Settled (s : State ρ υ κ) : Prop :=
  ∀ u id, (s.unregister u).decided = some id →
    ∀ r, s.register r = .returned id → ¬Pending s r

/-- While `unregister_callback` removes a callback, `cancel` has not collected
any. -/
def Erasing (s : State ρ υ κ) : Prop :=
  ∀ u id, s.unregister u = .erase id → ∀ c, (s.cancel c).swapped = false

section Steps

variable [DecidableEq ρ] [DecidableEq υ] [DecidableEq κ] {s : State ρ υ κ}
  {a : Action ρ υ κ} {place : ρ → Place κ}

omit [DecidableEq ρ] [DecidableEq υ] [DecidableEq κ] in
theorem Placed.pending_iff (h : Placed s place) {r : ρ} :
    Pending s r ↔ place r = .listed ∨ ∃ c, place r = .collected c := by
  unfold Pending
  rw [h.listed]
  exact or_congr_right (exists_congr fun c => h.collected c r)

omit [DecidableEq ρ] [DecidableEq υ] [DecidableEq κ] in
theorem Placed.id_of_pending (h : Placed s place) {r : ρ}
    (hr : Pending s r) : (s.register r).id ≠ 0 := by
  refine (h.id_of_wasListed ?_).1
  rcases h.pending_iff.mp hr with hplace | ⟨c, hplace⟩ <;> rw [hplace] <;> rfl

theorem callbacks_of_next {r : ρ} (hr : r ∈ (next s a).callbacks) :
    r ∈ s.callbacks ∨ a = .push r := by
  cases a with
  | push q =>
      rcases List.mem_append.mp hr with hmem | hmem
      · exact .inl hmem
      · exact .inr (by rw [List.mem_singleton.mp hmem])
  | swap c => exact absurd hr List.not_mem_nil
  | erase u id =>
      refine .inl ?_
      revert hr
      change r ∈ (s.erase id).callbacks → _
      unfold State.erase
      split
      · exact fun hr => List.mem_of_mem_eraseIdx hr
      · exact fun hr => hr
  | _ => exact .inl hr

/-- The vector of a call of `cancel` only takes what is in `callbacks_`. -/
theorem cbs_of_next {r : ρ} {c : κ} (ha : Enabled s a)
    (hr : r ∈ ((next s a).cancel c).cbs) :
    r ∈ (s.cancel c).cbs ∨ r ∈ s.callbacks := by
  have hmoved : ∀ {p}, (next s a).cancel c = p → r ∈ p.cbs :=
    fun hp => hp ▸ hr
  by_cases hagent : a.agent = .cancel c
  · cases a with
    | swap d =>
        obtain rfl := Holder.cancel.inj hagent
        exact .inr (hmoved (p := .unlock s.callbacks) (Function.update_self ..))
    | unlockCancel d cbs | finish d q cbs =>
        obtain rfl := Holder.cancel.inj hagent
        rw [show s.cancel d = _ from ha]
        exact .inl (hmoved (p := .run cbs) (Function.update_self ..))
    | start d q cbs =>
        obtain rfl := Holder.cancel.inj hagent
        have hcbs := hmoved (p := .running q cbs) (Function.update_self ..)
        rw [show s.cancel d = _ from ha]
        exact .inl (List.mem_cons_of_mem q hcbs)
    | exchange d =>
        obtain rfl := Holder.cancel.inj hagent
        have hif := hmoved (Function.update_self ..)
        cases hc : s.cancelled <;> rw [hc] at hif <;>
          exact absurd hif List.not_mem_nil
    | callCancel d | lockCancel d | runDone d | wakeAll d =>
        obtain rfl := Holder.cancel.inj hagent
        exact absurd (hmoved (Function.update_self ..)) List.not_mem_nil
    | _ => exact nomatch hagent
  · exact .inl (cancel_next_of_ne hagent ▸ hr)

/-- Only a registration makes a callback pending. -/
theorem pending_of_next {r : ρ} (ha : Enabled s a)
    (hr : Pending (next s a) r) : Pending s r ∨ a = .push r := by
  rcases hr with hr | ⟨c, hr⟩
  · exact (callbacks_of_next hr).imp_left .inl
  · exact .inl ((cbs_of_next ha hr).elim (fun h => .inr ⟨c, h⟩) .inl)

theorem register_returned_next {r : ρ} {id : ℕ} (ha : Enabled s a)
    (hr : s.register r = .returned id) :
    (next s a).register r = .returned id := by
  rw [← hr]
  refine register_next_of_ne fun hagent => ?_
  cases a with
  | lockRegister q =>
      obtain rfl := Holder.register.inj hagent
      exact nomatch hr.symm.trans ha.1
  | callRegister q | loadRegister q | invoke q | invoked q | push q
  | unlockRegister q id =>
      obtain rfl := Holder.register.inj hagent
      exact nomatch hr.symm.trans ha
  | _ => exact nomatch hagent

theorem register_id_next {r : ρ} (ha : Enabled s a) (hpush : a ≠ .push r) :
    ((next s a).register r).id = (s.register r).id := by
  by_cases hagent : a.agent = .register r
  · cases a with
    | push q => exact absurd (congrArg _ (Holder.register.inj hagent)) hpush
    | lockRegister q =>
        obtain rfl := Holder.register.inj hagent
        rw [ha.1]
        refine (congrArg RegisterPc.id (Function.update_self ..)).trans ?_
        rfl
    | loadRegister q =>
        obtain rfl := Holder.register.inj hagent
        rw [show s.register q = _ from ha]
        refine (congrArg RegisterPc.id (Function.update_self ..)).trans ?_
        cases s.cancelled <;> rfl
    | callRegister q | invoke q | invoked q | unlockRegister q id =>
        obtain rfl := Holder.register.inj hagent
        rw [show s.register q = _ from ha]
        refine (congrArg RegisterPc.id (Function.update_self ..)).trans ?_
        rfl
    | _ => exact nomatch hagent
  · rw [register_next_of_ne hagent]

theorem register_returned_of_next {r : ρ} {id : ℕ} (ha : Enabled s a)
    (hr : (next s a).register r = .returned id) :
    s.register r = .returned id ∨ a = .unlockRegister r id := by
  by_cases hagent : a.agent = .register r
  · cases a with
    | unlockRegister q id' =>
        obtain rfl := Holder.register.inj hagent
        have hid := (Function.update_self ..).symm.trans hr
        exact .inr (by rw [RegisterPc.returned.inj hid])
    | loadRegister q =>
        obtain rfl := Holder.register.inj hagent
        have hif := (Function.update_self ..).symm.trans hr
        cases hc : s.cancelled <;> rw [hc] at hif <;> exact nomatch hif
    | callRegister q | lockRegister q | invoke q | invoked q | push q =>
        obtain rfl := Holder.register.inj hagent
        exact nomatch (Function.update_self ..).symm.trans hr
    | _ => exact nomatch hagent
  · exact .inl ((register_next_of_ne hagent).symm.trans hr)

/-! ## Calls of `unregister_callback` -/

theorem unregister_id_next {u : υ} (ha : Enabled s a)
    (hcall : ∀ id, a ≠ .callUnregister u id) :
    ((next s a).unregister u).id = (s.unregister u).id := by
  by_cases hagent : a.agent = .unregister u
  · cases a with
    | callUnregister v id =>
        exact absurd rfl (Holder.unregister.inj hagent ▸ hcall id)
    | testZero v id =>
        obtain rfl := Holder.unregister.inj hagent
        rw [show s.unregister v = _ from ha]
        refine (congrArg UnregisterPc.id (Function.update_self ..)).trans ?_
        by_cases hzero : id = 0 <;> simp [hzero, UnregisterPc.id]
    | loadFast v id | loadUnregister v id =>
        obtain rfl := Holder.unregister.inj hagent
        rw [show s.unregister v = _ from ha]
        refine (congrArg UnregisterPc.id (Function.update_self ..)).trans ?_
        cases s.cancelled <;> rfl
    | lockUnregister v id =>
        obtain rfl := Holder.unregister.inj hagent
        rw [ha.1]
        refine (congrArg UnregisterPc.id (Function.update_self ..)).trans ?_
        rfl
    | erase v id | unlockUnregister v id =>
        obtain rfl := Holder.unregister.inj hagent
        rw [show s.unregister v = _ from ha]
        refine (congrArg UnregisterPc.id (Function.update_self ..)).trans ?_
        rfl
    | _ => exact nomatch hagent
  · rw [unregister_next_of_ne hagent]

theorem unregister_returned_next {u : υ} {id : ℕ} (ha : Enabled s a)
    (hu : s.unregister u = .returned id) :
    (next s a).unregister u = .returned id := by
  rw [← hu]
  refine unregister_next_of_ne fun hagent => ?_
  cases a with
  | lockUnregister v id' =>
      obtain rfl := Holder.unregister.inj hagent
      exact nomatch hu.symm.trans ha.1
  | callUnregister v id' | testZero v id' | loadFast v id'
  | loadUnregister v id' | erase v id' | unlockUnregister v id' =>
      obtain rfl := Holder.unregister.inj hagent
      exact nomatch hu.symm.trans ha
  | _ => exact nomatch hagent

theorem known_next (h : Known s) (ha : Enabled s a)
    (hknows : ∀ u id, a = .callUnregister u id →
      ∃ r, s.register r = .returned id) : Known (next s a) := by
  intro u id hu
  have hbefore : ∃ r, s.register r = .returned id := by
    by_cases hcall : ∃ id', a = .callUnregister u id'
    · obtain ⟨id', rfl⟩ := hcall
      have hself : (next s (.callUnregister u id')).unregister u =
          .testZero id' := Function.update_self ..
      rw [hself] at hu
      obtain rfl := Option.some.inj hu
      exact hknows u id' rfl
    · rw [unregister_id_next ha fun id' hid => hcall ⟨id', hid⟩] at hu
      exact h u id hu
  obtain ⟨r, hr⟩ := hbefore
  exact ⟨r, register_returned_next ha hr⟩

omit [DecidableEq ρ] [DecidableEq υ] [DecidableEq κ] in
theorem UnregisterPc.id_of_decided {q : UnregisterPc} {id : ℕ}
    (hq : q.decided = some id) : q.id = some id := by
  cases q <;> first | exact hq | exact nomatch hq

theorem decided_of_next {u : υ} {id : ℕ} (ha : Enabled s a)
    (hu : ((next s a).unregister u).decided = some id) :
    (s.unregister u).decided = some id ∨ id = 0 ∨
      (a = .loadFast u id ∨ a = .loadUnregister u id) ∧ s.cancelled = true ∨
      a = .erase u id := by
  have hmoved : ∀ {p}, (next s a).unregister u = p → p.decided = some id :=
    fun hp => hp ▸ hu
  by_cases hagent : a.agent = .unregister u
  · cases a with
    | callUnregister v id' | lockUnregister v id' =>
        obtain rfl := Holder.unregister.inj hagent
        exact nomatch hmoved (Function.update_self ..)
    | testZero v id' =>
        obtain rfl := Holder.unregister.inj hagent
        have hif := hmoved (Function.update_self ..)
        by_cases hzero : id' = 0
        · rw [if_pos hzero] at hif
          exact .inr (.inl ((Option.some.inj hif).symm.trans hzero))
        · rw [if_neg hzero] at hif
          exact nomatch hif
    | loadFast v id' =>
        obtain rfl := Holder.unregister.inj hagent
        have hif := hmoved (Function.update_self ..)
        cases hc : s.cancelled with
        | false =>
            rw [hc] at hif
            exact nomatch hif
        | true =>
            rw [hc] at hif
            obtain rfl := Option.some.inj hif
            exact .inr (.inr (.inl ⟨.inl rfl, rfl⟩))
    | loadUnregister v id' =>
        obtain rfl := Holder.unregister.inj hagent
        have hif := hmoved (Function.update_self ..)
        cases hc : s.cancelled with
        | false =>
            rw [hc] at hif
            exact nomatch hif
        | true =>
            rw [hc] at hif
            obtain rfl := Option.some.inj hif
            exact .inr (.inr (.inl ⟨.inr rfl, rfl⟩))
    | erase v id' =>
        obtain rfl := Holder.unregister.inj hagent
        have hid := hmoved (p := .unlock id') (Function.update_self ..)
        obtain rfl := Option.some.inj hid
        exact .inr (.inr (.inr rfl))
    | unlockUnregister v id' =>
        obtain rfl := Holder.unregister.inj hagent
        have hid := hmoved (p := .returned id') (Function.update_self ..)
        rw [show s.unregister v = _ from ha]
        exact .inl hid
    | _ => exact nomatch hagent
  · exact .inl (unregister_next_of_ne hagent ▸ hu)

/-! ## Removal excludes the swap -/

/-- Only the swap makes a call of `cancel` one that has swapped. -/
theorem swapped_of_next {c : κ} (ha : Enabled s a)
    (hc : ((next s a).cancel c).swapped = true) :
    (s.cancel c).swapped = true ∨ a = .swap c := by
  have hmoved : ∀ {p}, (next s a).cancel c = p → p.swapped = true :=
    fun hp => hp ▸ hc
  by_cases hagent : a.agent = .cancel c
  · cases a with
    | swap d =>
        obtain rfl := Holder.cancel.inj hagent
        exact .inr rfl
    | callCancel d | lockCancel d =>
        obtain rfl := Holder.cancel.inj hagent
        exact nomatch hmoved (Function.update_self ..)
    | exchange d =>
        obtain rfl := Holder.cancel.inj hagent
        have hif := hmoved (Function.update_self ..)
        cases hcancelled : s.cancelled <;> rw [hcancelled] at hif <;>
          exact nomatch hif
    | unlockCancel d cbs | start d q cbs | finish d q cbs | runDone d
    | wakeAll d =>
        obtain rfl := Holder.cancel.inj hagent
        rw [show s.cancel d = _ from ha]
        exact .inl rfl
    | _ => exact nomatch hagent
  · exact .inl (cancel_next_of_ne hagent ▸ hc)

/-- A call of `unregister_callback` begins to remove after it has found the
state not cancelled. -/
theorem erase_of_next {u : υ} {id : ℕ} (ha : Enabled s a)
    (hu : (next s a).unregister u = .erase id) :
    s.unregister u = .erase id ∨
      a = .loadUnregister u id ∧ s.cancelled = false := by
  by_cases hagent : a.agent = .unregister u
  · cases a with
    | loadUnregister v id' =>
        obtain rfl := Holder.unregister.inj hagent
        have hif := (Function.update_self ..).symm.trans hu
        cases hc : s.cancelled with
        | false =>
            rw [hc] at hif
            obtain rfl := UnregisterPc.erase.inj hif
            exact .inr ⟨rfl, rfl⟩
        | true =>
            rw [hc] at hif
            exact nomatch hif
    | loadFast v id' =>
        obtain rfl := Holder.unregister.inj hagent
        have hif := (Function.update_self ..).symm.trans hu
        cases hc : s.cancelled <;> rw [hc] at hif <;> exact nomatch hif
    | testZero v id' =>
        obtain rfl := Holder.unregister.inj hagent
        have hif := (Function.update_self ..).symm.trans hu
        by_cases hzero : id' = 0
        · rw [if_pos hzero] at hif
          exact nomatch hif
        · rw [if_neg hzero] at hif
          exact nomatch hif
    | callUnregister v id' | lockUnregister v id' | erase v id'
    | unlockUnregister v id' =>
        obtain rfl := Holder.unregister.inj hagent
        exact nomatch (Function.update_self ..).symm.trans hu
    | _ => exact nomatch hagent
  · exact .inl ((unregister_next_of_ne hagent).symm.trans hu)

theorem erasing_reachable (hs : (system ρ υ κ).Reachable s) : Erasing s := by
  refine hs.invariant_of (J := (system ρ υ κ).Reachable) Erasing
    (fun s hs => hs) ?_ fun s a hs h ha => ?_
  · rintro s rfl u id hu
    cases hu
  · intro u id hu c
    rw [Bool.eq_false_iff]
    intro hc
    rcases erase_of_next ha hu with hold | ⟨rfl, hnot⟩
    · rcases swapped_of_next ha hc with hswapped | rfl
      · exact absurd ((h u id hold c).symm.trans hswapped) (by simp)
      · have hunique := (exclusive_reachable hs).unique (t := .unregister u)
          (u := .cancel c) (holds_of_unregister hold rfl)
          (holds_of_cancel ha rfl)
        cases hunique
    · have hyes := (won_reachable hs).cancelled c (won_of_swapped hc)
      exact absurd (hnot.symm.trans hyes) (by simp)

/-- After the loop of `unregister_callback` its callback is not pending. -/
theorem not_pending_of_erase (hid : Identified s) (h : Placed s place)
    (herasing : Erasing s) {u : υ} {id : ℕ}
    (hu : s.unregister u = .erase id) {r : ρ} (hr : s.register r = .returned id)
    (hzero : id ≠ 0) : ¬Pending (next s (.erase u id)) r := by
  have hrid : (s.register r).id = id := by rw [hr]; rfl
  rintro (hmem | ⟨c, hmem⟩)
  · rcases erase_spec hid.length id with ⟨hnone, hsame⟩ |
      ⟨i, q, hq, hi, hnew⟩
    · refine hnone ?_
      rw [hid.ids, ← hrid]
      refine List.mem_map_of_mem ?_
      rw [← hsame]
      exact hmem
    · have hqid : id = (s.register q).id := by
        rw [hid.ids, List.getElem?_map, hq] at hi
        exact (Option.some.inj hi).symm
      obtain rfl := hid.distinct r q (by rwa [hrid]) (hrid.trans hqid)
      have hleft : r ∈ s.callbacks.eraseIdx i := by
        rw [show (next s (.erase u id)).callbacks = (s.erase id).callbacks
          from rfl, hnew] at hmem
        exact hmem
      obtain ⟨hlt, hri⟩ := List.getElem?_eq_some_iff.mp hq
      have hperm : (r :: s.callbacks.eraseIdx i).Perm s.callbacks :=
        hri ▸ List.getElem_cons_eraseIdx_perm hlt
      have hnodup := List.nodup_cons.mp (hperm.nodup_iff.mpr h.nodup)
      exact hnodup.1 hleft
  · have hsame : (next s (.erase u id)).cancel = s.cancel :=
      erase_cancel s id
    rw [hsame] at hmem
    have hc := herasing u id hu c
    cases hpc : s.cancel c with
    | unlock cbs | run cbs | running q cbs =>
        rw [hpc] at hc
        cases hc
    | _ =>
        rw [hpc] at hmem
        exact absurd hmem List.not_mem_nil

/-- Removal is final from one step to the next if the calls that find the state
cancelled are not for a pending callback. -/
theorem settled_next (hs : (system ρ υ κ).Reachable s) (hknown : Known s)
    (h : Settled s) (ha : Enabled s a) (hfinds : FindsSettled s a) :
    Settled (next s a) := by
  obtain ⟨hid, place, hplaced⟩ := placed_reachable hs
  obtain ⟨place', hplaced'⟩ := placed_next hplaced hid ha
  intro u id hu r hr hpending
  have hzero : id ≠ 0 := by
    have hne := hplaced'.id_of_pending hpending
    rwa [hr] at hne
  have hstill : Pending s r := by
    refine (pending_of_next ha hpending).resolve_right ?_
    rintro rfl
    exact nomatch (Function.update_self ..).symm.trans hr
  rcases decided_of_next ha hu with hold | hz | ⟨rfl | rfl, hcancelled⟩ | rfl
  · rcases register_returned_of_next ha hr with hbefore | rfl
    · exact h u id hold r hbefore hstill
    · obtain ⟨q, hq⟩ := hknown u id (UnregisterPc.id_of_decided hold)
      have hunlock : s.register r = .unlock id := ha
      obtain rfl := hid.distinct q r (by rwa [hq]) (by rw [hq, hunlock]; rfl)
      exact nomatch hq.symm.trans hunlock
  · exact hzero hz
  · exact hfinds hcancelled r hr hstill
  · exact hfinds hcancelled r hr hstill
  · have hbefore : s.register r = .returned id := by
      rw [← erase_register s id]
      exact hr
    exact not_pending_of_erase hid hplaced (erasing_reachable hs) ha hbefore
      hzero hpending

omit [DecidableEq ρ] [DecidableEq υ] [DecidableEq κ] in
theorem invokes_of_not_pending {r : ρ} (hr : s.register r ≠ .invoke)
    (hnot : ¬Pending s r) (ha : Enabled s a) : a.invokes ≠ some r := by
  intro hinvokes
  cases a with
  | invoke q =>
      obtain rfl := Option.some.inj hinvokes
      exact hr ha
  | start c q cbs =>
      obtain rfl := Option.some.inj hinvokes
      refine hnot (.inr ⟨c, ?_⟩)
      rw [show s.cancel c = _ from ha]
      exact List.mem_cons_self
  | _ => cases hinvokes

end Steps

end Cancellation
end Ethreads
