import Ethreads.CancellableBlocking.Claims

/-!
# The outcome of a cancellable blocking call

The coroutine is scheduled once, and a completed call yields the outcome of the
callable.  A cancelled one throws `cancelled_exception`, unless the callable has
thrown and the task has stored its exception before `await_resume` copies it:
`get` looks at the exception first.
-/

namespace Ethreads
namespace CancellableBlocking

variable {η ρ υ κ V E : Type*} {cfg : Config η ρ υ V E}

/-- The coroutine is scheduled once, and `get` agrees with the status. -/
structure State.Coherent (cfg : Config η ρ υ V E) (s : State η ρ υ κ V E) :
    Prop where
  atMostOnce : s.scheduled.length ≤ 1
  once : (∃ p, s.party p = .done) →
    (∀ p, s.party p ≠ .storeStatus ∧ s.party p ≠ .schedule) →
      s.scheduled = [some cfg.handle]
  completed : ∀ r, s.resume = .returned r → r.status = .completed →
    r.get = cfg.expected
  cancelled : ∀ r, s.resume = .returned r → r.status = .cancelled →
    r.get = .cancelledException

/-- When `await_resume` copies the exception of a cancelled call, the task has
not stored one: the callable throws none, or the task has still to store. -/
def CopiesBeforeStore (cfg : Config η ρ υ V E) (s : State η ρ υ κ V E) :
    Action ρ υ κ V → Prop
  | .copyException status _ =>
      status = .cancelled →
        cfg.exception = none ∨ (s.party .task).hasStored = false
  | _ => True

instance [DecidableEq E] (s : State η ρ υ κ V E) (a : Action ρ υ κ V) :
    Decidable (CopiesBeforeStore cfg s a) := by
  induction a using Action.casesOn <;> dsimp only [CopiesBeforeStore] <;>
    infer_instance

/-- The result of a cancelled call has no exception. -/
def Discarded (s : State η ρ υ κ V E) : Prop :=
  ∀ r, s.resume = .returned r → r.status = .cancelled → r.exception = none

def ResumePc.copiedStatus : ResumePc V E → Option BlockingStatus
  | moveValue status | copyException status _ => some status
  | returned result => some result.status
  | _ => none

/-- What `await_resume` has copied of a completed call is what the task has
left. -/
structure Copied (cfg : Config η ρ υ V E) (s : State η ρ υ κ V E) :
    Prop where
  scheduled : s.resume ≠ .waiting → s.scheduled ≠ []
  status : s.resume.copiedStatus = some .completed → s.party .task = .done
  value : ∀ v, s.resume = .copyException .completed v → v = cfg.value
  result : ∀ r, s.resume = .returned r → r.status = .completed →
    r.value = cfg.value ∧ r.exception = cfg.exception

section Steps

variable [DecidableEq ρ] [DecidableEq υ] [DecidableEq κ]
  {s s' : State η ρ υ κ V E} {a : Action ρ υ κ V}

/-! ## What is copied -/

/-- A task that is done does nothing any more. -/
theorem taskDone_next (hs : (system cfg κ).Reachable s)
    (ha : Enabled cfg s a) (htask : s.party .task = .done) :
    (next cfg s a).party .task = .done := by
  have hmove : ∀ {p q}, s.party p ≠ .done →
      Function.update s.party p q .task = .done := by
    intro p q hp
    have hne : .task ≠ p := by
      rintro rfl
      exact hp htask
    rw [Function.update_of_ne hne]
    exact htask
  cases a with
  | token b => exact (partyAfter_task b).trans htask
  | submit =>
      have hsuspend : s.suspend = .submit := ha
      have hdone := (staged_reachable hs).task (by rw [htask]; nofun)
      exact nomatch hsuspend.symm.trans hdone
  | invoke => exact nomatch htask.symm.trans ha
  | claimWon p | claimLost p => exact hmove (by rw [ha.1]; nofun)
  | storeStatus p =>
      have hp : s.party p = .storeStatus := ha
      exact hmove (by rw [hp]; nofun)
  | schedule p =>
      have hp : s.party p = .schedule := ha
      exact hmove (by rw [hp]; nofun)
  | loadId =>
      simp only [next]
      split <;> exact htask
  | _ => exact htask

omit [DecidableEq ρ] [DecidableEq υ] [DecidableEq κ] in
theorem Copied.of_same (h : Copied cfg s) (hresume : s'.resume = s.resume)
    (hscheduled : s.scheduled ≠ [] → s'.scheduled ≠ [])
    (htask : s.party .task = .done → s'.party .task = .done) :
    Copied cfg s' where
  scheduled hr := hscheduled (h.scheduled (hresume ▸ hr))
  status hr := htask (h.status (hresume ▸ hr))
  value v hr := h.value v (hresume ▸ hr)
  result r hr := h.result r (hresume ▸ hr)

omit [DecidableEq ρ] [DecidableEq υ] [DecidableEq κ] in
theorem Copied.of_uncopied (hscheduled : s'.scheduled ≠ [])
    (hresume : s'.resume.copiedStatus = none) : Copied cfg s' where
  scheduled _ := hscheduled
  status hr := nomatch hresume.symm.trans hr
  value v hr := by
    rw [hr] at hresume
    exact nomatch hresume
  result r hr := by
    rw [hr] at hresume
    exact nomatch hresume

omit [DecidableEq ρ] [DecidableEq υ] [DecidableEq κ] in
/-- When the coroutine goes on with the status of a completed call, the task has
been run. -/
theorem Claimed.task_done (h : Claimed s) (hscheduled : s.scheduled ≠ [])
    (hstatus : s.status = .completed) : s.party .task = .done := by
  obtain ⟨p, hp, hwinner⟩ := h.winner hscheduled
  cases p with
  | task => exact hp
  | callback => exact nomatch hstatus.symm.trans hwinner

theorem copied_next (hs : (system cfg κ).Reachable s) (h : Copied cfg s)
    (ha : Enabled cfg s a) : Copied cfg (next cfg s a) := by
  have hdone := fun htask => taskDone_next hs ha htask
  cases a with
  | schedule p => exact h.of_same rfl (fun _ => by simp [next]) hdone
  | resume => exact .of_uncopied ha.2 rfl
  | loadId =>
      have hresume : s.resume = .loadId := ha
      have hscheduled := h.scheduled (by simp [hresume])
      simp only [next]
      split <;> exact .of_uncopied hscheduled rfl
  | unregistered id =>
      exact .of_uncopied (h.scheduled (by simp [ha.1])) rfl
  | copyStatus =>
      have hresume : s.resume = .copyStatus := ha
      have hscheduled := h.scheduled (by simp [hresume])
      refine ⟨fun _ => hscheduled, fun hr => ?_, by rintro _ ⟨⟩, by rintro _ ⟨⟩⟩
      exact (claimed_reachable hs).task_done hscheduled (Option.some.inj hr)
  | moveValue status =>
      have hresume : s.resume = .moveValue status := ha
      have hstatus := h.status
      rw [hresume] at hstatus
      refine ⟨fun _ => h.scheduled (by simp [hresume]), hstatus,
        fun v hr => ?_, by rintro _ ⟨⟩⟩
      obtain ⟨rfl, rfl⟩ := ResumePc.copyException.inj hr
      exact (stored_of_done hs (hstatus rfl)).1
  | copyException status value =>
      have hresume : s.resume = .copyException status value := ha
      have hstatus := h.status
      rw [hresume] at hstatus
      refine ⟨fun _ => h.scheduled (by simp [hresume]), hstatus,
        by rintro _ ⟨⟩, fun r hr hcompleted => ?_⟩
      obtain rfl := ResumePc.returned.inj hr
      obtain rfl : status = .completed := hcompleted
      exact ⟨h.value value hresume, (stored_of_done hs (hstatus rfl)).2⟩
  | _ => exact h.of_same rfl id hdone

theorem copied_reachable (hs : (system cfg κ).Reachable s) :
    Copied cfg s := by
  refine hs.invariant_of (J := (system cfg κ).Reachable) (Copied cfg)
    (fun s hs => hs) ?_ fun s a hs h ha => copied_next hs h ha
  rintro s rfl
  exact ⟨fun hr => absurd rfl hr, nofun, nofun, nofun⟩

/-! ## What is discarded -/

theorem returned_next (ha : Enabled cfg s a) {r : BlockingResult V E}
    (hr : s.resume = .returned r) : (next cfg s a).resume = .returned r := by
  cases a with
  | resume | unregistered id => exact nomatch hr.symm.trans ha.1
  | loadId | copyStatus | moveValue status | copyException status value =>
      exact nomatch hr.symm.trans ha
  | _ => exact hr

theorem discarded_next (hs : (system cfg κ).Reachable s) (h : Discarded s)
    (ha : Enabled cfg s a) (hP : CopiesBeforeStore cfg s a) :
    Discarded (next cfg s a) := by
  cases a with
  | copyException status value =>
      intro r hr hcancelled
      obtain rfl := ResumePc.returned.inj hr
      exact (exception_eq_none_iff hs).mpr (hP hcancelled)
  | loadId =>
      simp only [next]
      split <;> rintro _ ⟨⟩
  | resume | unregistered id | copyStatus | moveValue status =>
      rintro _ ⟨⟩
  | _ => exact h

theorem discarded_of_next (hs : (system cfg κ).Reachable s)
    (ha : Enabled cfg s a) (h : Discarded (next cfg s a)) :
    Discarded s ∧ CopiesBeforeStore cfg s a := by
  refine ⟨fun r hr => h r (returned_next ha hr), ?_⟩
  cases a with
  | copyException status value =>
      intro hcancelled
      exact (exception_eq_none_iff hs).mp (h _ rfl hcancelled)
  | _ => trivial

theorem reachableWhere_copiesBeforeStore_iff :
    (system cfg κ).ReachableWhere (CopiesBeforeStore cfg) s ↔
      (system cfg κ).Reachable s ∧ Discarded s := by
  refine TransitionSystem.reachableWhere_iff ?_ ?_ ?_
  · rintro s rfl
    exact nofun
  · exact fun s a hs h ha hP => discarded_next hs h ha hP
  · exact fun s a hs ha h => discarded_of_next hs ha h

/-! ## What `get` does -/

omit [DecidableEq ρ] [DecidableEq υ] [DecidableEq κ] in
theorem get_of_completed {r : BlockingResult V E}
    (hstatus : r.status = .completed) (hvalue : r.value = cfg.value)
    (hexception : r.exception = cfg.exception) : r.get = cfg.expected := by
  unfold BlockingResult.get Config.expected
  rw [hstatus, hvalue, hexception]
  unfold Config.value Config.exception
  cases cfg.outcome <;> rfl

omit [DecidableEq ρ] [DecidableEq υ] [DecidableEq κ] in
theorem get_of_cancelled {r : BlockingResult V E}
    (hstatus : r.status = .cancelled) :
    r.get = .cancelledException ↔ r.exception = none := by
  unfold BlockingResult.get
  rw [hstatus]
  cases r.exception <;> simp

omit [DecidableEq ρ] [DecidableEq υ] [DecidableEq κ] in
theorem Claimed.length_scheduled_le (h : Claimed s) :
    s.scheduled.length ≤ 1 := by
  have haccount := h.account
  split at haccount <;> omega

omit [DecidableEq ρ] [DecidableEq υ] [DecidableEq κ] in
/-- When a party is done and nobody is about to schedule the coroutine, it has
been scheduled. -/
theorem Claimed.length_scheduled (h : Claimed s)
    (hdone : ∃ p, s.party p = .done)
    (hnobody : ∀ p, s.party p ≠ .storeStatus ∧ s.party p ≠ .schedule) :
    s.scheduled.length = 1 := by
  obtain ⟨p, hp⟩ := hdone
  have htally : tally PartyPc.pending s.party = 0 := by
    refine tally_eq_zero_iff.mpr fun r => ?_
    have hr := hnobody r
    cases hpc : s.party r <;> simp [hpc, PartyPc.pending] at hr ⊢
  have haccount := h.account
  rw [htally, h.done p hp] at haccount
  simpa using haccount

/-- The coroutine is scheduled once and its call coherent if and only if
`await_resume` copies the exception of a cancelled call before it is stored. -/
theorem coherent_iff (cfg : Config η ρ υ V E) (κ : Type*) [DecidableEq κ]
    (s : State η ρ υ κ V E) (hs : (system cfg κ).Reachable s) :
    s.Coherent cfg ↔
      (system cfg κ).ReachableWhere (CopiesBeforeStore cfg) s := by
  rw [reachableWhere_copiesBeforeStore_iff]
  constructor
  · intro hcoherent
    refine ⟨hs, fun r hr hcancelled => ?_⟩
    exact (get_of_cancelled hcancelled).mp
      (hcoherent.cancelled r hr hcancelled)
  · rintro ⟨-, hdiscarded⟩
    have hclaimed := claimed_reachable hs
    refine ⟨hclaimed.length_scheduled_le, fun hdone hnobody => ?_,
      fun r hr hcompleted => ?_, fun r hr hcancelled => ?_⟩
    · obtain ⟨g, hg⟩ := List.length_eq_one_iff.mp
        (hclaimed.length_scheduled hdone hnobody)
      have hmem : g ∈ s.scheduled := by
        rw [hg]
        exact List.mem_singleton_self g
      rw [hg, scheduled_reachable hs g hmem]
    · obtain ⟨hvalue, hexception⟩ :=
        (copied_reachable hs).result r hr hcompleted
      exact get_of_completed hcompleted hvalue hexception
    · exact (get_of_cancelled hcancelled).mpr (hdiscarded r hr hcancelled)

end Steps

/-! ## Schedules -/

section Schedules

/-- A call with a token whose callable throws. -/
def throwingCall : Config (Fin 1) (Fin 1) (Fin 1) ℕ ℕ where
  handle := 0
  outcome := .error 5
  hasToken := true
  registration := 0
  unregistration := 0

/-- `await_suspend` registers the callback and submits the task. -/
def suspends : List (Action (Fin 1) (Fin 1) (Fin 1) ℕ) :=
  [.coAwait, .storeHandle, .register, .token (.lockRegister 0),
    .token (.loadRegister 0), .token (.push 0), .token (.unlockRegister 0 1),
    .storeId 1, .submit]

/-- The token is cancelled, and the callback claims the coroutine. -/
def isCancelled : List (Action (Fin 1) (Fin 1) (Fin 1) ℕ) :=
  [.token (.callCancel 0), .token (.exchange 0), .token (.lockCancel 0),
    .token (.swap 0), .token (.unlockCancel 0 [0]), .token (.start 0 0 []),
    .claimWon .callback, .storeStatus .callback, .schedule .callback]

/-- The coroutine goes on in `await_resume`. -/
def resumes : List (Action (Fin 1) (Fin 1) (Fin 1) ℕ) :=
  [.resume, .loadId, .token (.testZero 0 1), .token (.loadFast 0 1),
    .unregistered 1, .copyStatus, .moveValue .cancelled,
    .copyException .cancelled none]

theorem coherent_invokesAfterwards :
    ((system throwingCall (Fin 1)).after
      (initialState (Fin 1) (Fin 1) (Fin 1) (Fin 1) ℕ ℕ)
      (suspends ++ (isCancelled ++ (resumes ++
        [.invoke, .claimLost .task])))).Coherent throwingCall :=
  (coherent_iff throwingCall (Fin 1) _
    (TransitionSystem.Executes.reachable (.init rfl) (by decide))).mpr
      (TransitionSystem.Executes.reachableWhere (.init rfl) (by decide))

/-- The task stores the exception of the callable before the callback claims the
coroutine, and `get` of the cancelled call rethrows it. -/
theorem not_forall_coherent :
    ¬∀ s, (system throwingCall (Fin 1)).Reachable s →
      s.Coherent throwingCall := by
  intro hall
  have hcoherent := hall _ (TransitionSystem.Executes.reachable
    (s := initialState (Fin 1) (Fin 1) (Fin 1) (Fin 1) ℕ ℕ)
    (l := suspends ++ ([.invoke] ++ (isCancelled ++ resumes))) (.init rfl)
    (by decide))
  have hget := hcoherent.cancelled ⟨.cancelled, none, some 5⟩ (by decide) rfl
  exact nomatch hget

end Schedules

end CancellableBlocking
end Ethreads
