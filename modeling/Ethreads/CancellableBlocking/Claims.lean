import Ethreads.CancellableBlocking.Components
import Ethreads.Support.Tally

/-!
# Who claims the coroutine

One party at most claims the coroutine, sets its status and schedules it.  The
task has stored the outcome of the callable before it tries to.
-/

namespace Ethreads
namespace CancellableBlocking

variable {η ρ υ κ V E : Type*} {cfg : Config η ρ υ V E}

def PartyPc.pending : PartyPc → ℕ
  | storeStatus | schedule => 1
  | _ => 0

def PartyPc.beforeClaim : PartyPc → Bool
  | idle | invoke | claim => true
  | _ => false

/-- The task has stored the outcome of the callable. -/
def PartyPc.hasStored : PartyPc → Bool
  | idle | invoke => false
  | _ => true

/-- The coroutine is claimed once, and whoever has claimed it determines the
status. -/
structure Claimed (s : State η ρ υ κ V E) : Prop where
  account : tally PartyPc.pending s.party + s.scheduled.length =
    if s.resumed = true then 1 else 0
  done : ∀ p, s.party p = .done → s.resumed = true
  status : ∀ p, s.party p = .schedule → s.status = p.status
  winner : s.scheduled ≠ [] → ∃ p, s.party p = .done ∧ s.status = p.status

/-- The shared data hold the outcome of the callable as soon as the task has
stored it. -/
def Stored (cfg : Config η ρ υ V E) (s : State η ρ υ κ V E) : Prop :=
  if (s.party .task).hasStored = true then
    s.result = cfg.value ∧ s.exception = cfg.exception
  else s.result = none ∧ s.exception = none

/-! ## Claims -/

section Claims

variable {s s' : State η ρ υ κ V E}

theorem pending_of_beforeClaim {q : PartyPc} (h : q.beforeClaim = true) :
    q.pending = 0 := by
  cases q <;> simp [PartyPc.beforeClaim, PartyPc.pending] at h ⊢

theorem resumed_eq_true_of_pos (h : Claimed s)
    (hpos : 0 < tally PartyPc.pending s.party + s.scheduled.length) :
    s.resumed = true := by
  by_contra hresumed
  have haccount := h.account
  rw [if_neg hresumed] at haccount
  omega

/-- One party at most has claimed the coroutine, and nobody has scheduled it
before. -/
theorem Claimed.eq_of_pending (h : Claimed s) {p r : Party}
    (hp : (s.party p).pending = 1) (hr : 0 < (s.party r).pending) : r = p := by
  by_contra hne
  have hmove := tally_update PartyPc.pending s.party p .done
  have hle := le_tally PartyPc.pending (Function.update s.party p .done) r
  rw [Function.update_of_ne hne] at hle
  have haccount := h.account
  have hone : (if s.resumed = true then 1 else 0) ≤ 1 := by split <;> omega
  rw [hp, show PartyPc.pending .done = 0 from rfl] at hmove
  omega

theorem Claimed.scheduled_of_pending (h : Claimed s) {p : Party}
    (hp : (s.party p).pending = 1) : s.scheduled = [] ∧ s.resumed = true := by
  have hle := le_tally PartyPc.pending s.party p
  have haccount := h.account
  have hresumed := resumed_eq_true_of_pos h (by omega)
  rw [if_pos hresumed] at haccount
  exact ⟨List.length_eq_zero_iff.mp (by omega), hresumed⟩

theorem Claimed.scheduled_of_unclaimed (h : Claimed s)
    (hresumed : s.resumed = false) :
    tally PartyPc.pending s.party = 0 ∧ s.scheduled = [] := by
  have haccount := h.account
  rw [hresumed] at haccount
  simp only [Bool.false_eq_true, if_false] at haccount
  exact ⟨by omega, List.length_eq_zero_iff.mp (by omega)⟩

theorem Claimed.of_move (h : Claimed s) {p : Party} {q : PartyPc}
    (hold : (s.party p).beforeClaim = true)
    (hnew : q.beforeClaim = true ∨ q = .done ∧ s.resumed = true)
    (hparty : s'.party = Function.update s.party p q)
    (hscheduled : s'.scheduled = s.scheduled)
    (hresumed : s'.resumed = s.resumed) (hstatus : s'.status = s.status) :
    Claimed s' := by
  have hpending : q.pending = 0 := by
    rcases hnew with hbefore | ⟨rfl, -⟩
    · exact pending_of_beforeClaim hbefore
    · rfl
  have hother : ∀ r q', q'.beforeClaim = false → q' ≠ .done →
      Function.update s.party p q r = q' → s.party r = q' := by
    intro r q' hclaim hdone hr
    by_cases hrp : r = p
    · subst hrp
      rw [Function.update_self] at hr
      subst hr
      rcases hnew with hbefore | ⟨rfl, -⟩
      · exact absurd (hbefore.symm.trans hclaim) (by simp)
      · exact absurd rfl hdone
    · rwa [Function.update_of_ne hrp] at hr
  refine ⟨?_, fun r hr => ?_, fun r hr => ?_, fun hne => ?_⟩
  · have hmove := tally_update PartyPc.pending s.party p q
    rw [hpending, pending_of_beforeClaim hold] at hmove
    rw [hparty, hscheduled, hresumed, ← h.account]
    omega
  · rw [hresumed]
    rw [hparty] at hr
    by_cases hrp : r = p
    · subst hrp
      rw [Function.update_self] at hr
      rcases hnew with hbefore | ⟨-, htrue⟩
      · rw [hr] at hbefore
        exact nomatch hbefore
      · exact htrue
    · rw [Function.update_of_ne hrp] at hr
      exact h.done r hr
  · rw [hstatus]
    rw [hparty] at hr
    exact h.status r (hother r .schedule rfl nofun hr)
  · rw [hscheduled] at hne
    obtain ⟨r, hr, hrstatus⟩ := h.winner hne
    have hrp : r ≠ p := by
      rintro rfl
      rw [hr] at hold
      exact nomatch hold
    refine ⟨r, ?_, hstatus ▸ hrstatus⟩
    rw [hparty, Function.update_of_ne hrp]
    exact hr

theorem Claimed.of_same (h : Claimed s) (hparty : s'.party = s.party)
    (hscheduled : s'.scheduled = s.scheduled)
    (hresumed : s'.resumed = s.resumed) (hstatus : s'.status = s.status) :
    Claimed s' := by
  refine ⟨?_, ?_, ?_, ?_⟩
  · rw [hparty, hscheduled, hresumed]
    exact h.account
  · rw [hparty, hresumed]
    exact h.done
  · rw [hparty, hstatus]
    exact h.status
  · rw [hparty, hscheduled, hstatus]
    exact h.winner

end Claims

section Steps

variable [DecidableEq ρ] [DecidableEq υ] [DecidableEq κ]
  {s : State η ρ υ κ V E} {a : Action ρ υ κ V}

theorem claimed_claimWon (h : Claimed s) {p : Party} (hp : s.party p = .claim)
    (hresumed : s.resumed = false) :
    Claimed (next cfg s (.claimWon p)) := by
  obtain ⟨htally, hscheduled⟩ := h.scheduled_of_unclaimed hresumed
  refine ⟨?_, fun _ _ => rfl, fun r hr => ?_, fun hne => ?_⟩
  · change tally PartyPc.pending (Function.update s.party p .storeStatus) +
      s.scheduled.length = 1
    have hmove := tally_update PartyPc.pending s.party p .storeStatus
    rw [hp, htally] at hmove
    rw [hscheduled]
    exact hmove
  · change Function.update s.party p .storeStatus r = _ at hr
    have hzero := tally_eq_zero_iff.mp htally r
    by_cases hrp : r = p
    · subst hrp
      rw [Function.update_self] at hr
      exact nomatch hr
    · rw [Function.update_of_ne hrp] at hr
      rw [hr] at hzero
      exact nomatch hzero
  · exact absurd hscheduled hne

theorem claimed_storeStatus (h : Claimed s) {p : Party}
    (hp : s.party p = .storeStatus) :
    Claimed (next cfg s (.storeStatus p)) := by
  have hpending : (s.party p).pending = 1 := by rw [hp]; rfl
  obtain ⟨hscheduled, hresumed⟩ := h.scheduled_of_pending hpending
  refine ⟨?_, fun _ _ => hresumed, fun r hr => ?_, fun hne => ?_⟩
  · have hmove := tally_update PartyPc.pending s.party p .schedule
    rw [hpending] at hmove
    refine Eq.trans ?_ h.account
    exact congrArg (· + s.scheduled.length) (Nat.add_right_cancel hmove)
  · change Function.update s.party p .schedule r = _ at hr
    by_cases hrp : r = p
    · rw [hrp]
      rfl
    · rw [Function.update_of_ne hrp] at hr
      exact absurd (h.eq_of_pending hpending (by rw [hr]; exact Nat.one_pos))
        hrp
  · exact absurd hscheduled hne

theorem claimed_schedule (h : Claimed s) {p : Party}
    (hp : s.party p = .schedule) : Claimed (next cfg s (.schedule p)) := by
  have hpending : (s.party p).pending = 1 := by rw [hp]; rfl
  obtain ⟨hscheduled, hresumed⟩ := h.scheduled_of_pending hpending
  refine ⟨?_, fun _ _ => hresumed, fun r hr => ?_, fun _ => ?_⟩
  · change tally PartyPc.pending (Function.update s.party p .done) +
      (s.scheduled ++ [s.handle]).length = if s.resumed = true then 1 else 0
    have hmove := tally_update PartyPc.pending s.party p .done
    have haccount := h.account
    rw [hpending, show PartyPc.pending .done = 0 from rfl] at hmove
    rw [List.length_append, List.length_singleton, ← haccount]
    omega
  · change Function.update s.party p .done r = _ at hr
    by_cases hrp : r = p
    · subst hrp
      rw [Function.update_self] at hr
      exact nomatch hr
    · rw [Function.update_of_ne hrp] at hr
      exact h.status r hr
  · exact ⟨p, Function.update_self .., h.status p hp⟩

theorem claimed_next (hs : (system cfg κ).Reachable s) (h : Claimed s)
    (ha : Enabled cfg s a) : Claimed (next cfg s a) := by
  cases a with
  | token b =>
      by_cases hb : b.invokes = some cfg.registration
      · have hidle := callback_of_invokes hs ha.1 hb
        exact h.of_move (by rw [hidle]; rfl) (.inl rfl)
          (partyAfter_of_invokes hb) rfl rfl rfl
      · exact h.of_same (partyAfter_of_ne hb) rfl rfl rfl
  | submit =>
      have hsuspend : s.suspend = .submit := ha
      have hidle : s.party .task = .idle := by
        by_contra htask
        exact nomatch hsuspend.symm.trans ((staged_reachable hs).task htask)
      exact h.of_move (by rw [hidle]; rfl) (.inl rfl) rfl rfl rfl rfl
  | invoke =>
      have hp : s.party .task = .invoke := ha
      exact h.of_move (by rw [hp]; rfl) (.inl rfl) rfl rfl rfl rfl
  | claimLost p =>
      exact h.of_move (by rw [ha.1]; rfl) (.inr ⟨rfl, ha.2⟩) rfl rfl rfl rfl
  | claimWon p => exact claimed_claimWon h ha.1 ha.2
  | storeStatus p => exact claimed_storeStatus h ha
  | schedule p => exact claimed_schedule h ha
  | loadId =>
      simp only [next]
      split <;> exact h.of_same rfl rfl rfl rfl
  | _ => exact h.of_same rfl rfl rfl rfl

theorem claimed_reachable (hs : (system cfg κ).Reachable s) : Claimed s := by
  refine hs.invariant_of (J := (system cfg κ).Reachable) Claimed
    (fun s hs => hs) ?_ fun s a hs h ha => claimed_next hs h ha
  rintro s rfl
  exact ⟨by simp [tally, initialState, PartyPc.pending], nofun, nofun,
    fun hne => absurd rfl hne⟩

theorem scheduled_reachable (hs : (system cfg κ).Reachable s) :
    ∀ h ∈ s.scheduled, h = some cfg.handle := by
  refine hs.invariant_of (J := (system cfg κ).Reachable)
    (fun s => ∀ h ∈ s.scheduled, h = some cfg.handle) (fun s hs => hs) ?_ ?_
  · rintro s rfl
    exact nofun
  · intro s a hs h ha
    cases a with
    | schedule p =>
        have hp : s.party p = .schedule := ha
        intro g hg
        rcases List.mem_append.mp hg with hold | hnew
        · exact h g hold
        · rw [List.mem_singleton.mp hnew]
          exact handle_of_party hs (by rw [hp]; nofun)
    | loadId =>
        simp only [system, next]
        split <;> exact h
    | _ => exact h

/-! ## The outcome -/

theorem stored_next (hs : (system cfg κ).Reachable s) (h : Stored cfg s)
    (ha : Enabled cfg s a) : Stored cfg (next cfg s a) := by
  have hsame : ∀ {s' : State η ρ υ κ V E}, s'.result = s.result →
      s'.exception = s.exception →
        (s'.party .task).hasStored = (s.party .task).hasStored →
          Stored cfg s' := by
    intro s' hresult hexception hparty
    unfold Stored
    rw [hresult, hexception, hparty]
    exact h
  have hmove : ∀ {p q}, (s.party p).hasStored = q.hasStored →
      (Function.update s.party p q .task).hasStored =
        (s.party .task).hasStored := by
    intro p q hq
    by_cases htask : .task = p
    · subst htask
      rw [Function.update_self, hq]
    · rw [Function.update_of_ne htask]
  cases a with
  | token b => exact hsame rfl rfl (congrArg _ (partyAfter_task b))
  | submit =>
      have hsuspend : s.suspend = .submit := ha
      refine hsame rfl rfl (hmove (p := .task) (q := .invoke) ?_)
      by_contra hstored
      have htask := (staged_reachable hs).task fun hidle =>
        hstored (by rw [hidle]; rfl)
      exact nomatch hsuspend.symm.trans htask
  | invoke => exact ⟨rfl, rfl⟩
  | claimWon p | claimLost p =>
      exact hsame rfl rfl (hmove (by rw [ha.1]; rfl))
  | storeStatus p =>
      have hp : s.party p = .storeStatus := ha
      exact hsame rfl rfl (hmove (by rw [hp]; rfl))
  | schedule p =>
      have hp : s.party p = .schedule := ha
      exact hsame rfl rfl (hmove (by rw [hp]; rfl))
  | loadId =>
      simp only [next]
      split <;> exact h
  | _ => exact h

theorem stored_reachable (hs : (system cfg κ).Reachable s) :
    Stored cfg s := by
  refine hs.invariant_of (J := (system cfg κ).Reachable) (Stored cfg)
    (fun s hs => hs) ?_ fun s a hs h ha => stored_next hs h ha
  rintro s rfl
  exact ⟨rfl, rfl⟩

theorem stored_of_done (hs : (system cfg κ).Reachable s)
    (htask : s.party .task = .done) :
    s.result = cfg.value ∧ s.exception = cfg.exception := by
  have hstored := stored_reachable hs
  unfold Stored at hstored
  rwa [if_pos (by rw [htask]; rfl)] at hstored

/-- There is no exception if the callable throws none, or the task has not
stored it yet. -/
theorem exception_eq_none_iff (hs : (system cfg κ).Reachable s) :
    s.exception = none ↔
      cfg.exception = none ∨ (s.party .task).hasStored = false := by
  have hstored := stored_reachable hs
  unfold Stored at hstored
  cases htask : (s.party .task).hasStored with
  | true =>
      rw [htask, if_pos rfl] at hstored
      simp [hstored.2]
  | false =>
      rw [htask, if_neg nofun] at hstored
      simp [hstored.2]

end Steps

end CancellableBlocking
end Ethreads
