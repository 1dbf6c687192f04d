import Ethreads.CancellableBlocking.Model

/-!
# The components of a cancellable blocking call

A run of the call with its surroundings is a run of the token's
`cancellation_state`.  Neither party starts before the awaiter has stored the
handle, and each starts once.
-/

namespace Ethreads
namespace CancellableBlocking

variable {η ρ υ κ V E : Type*} {cfg : Config η ρ υ V E}

def SuspendPc.beforeRegister : SuspendPc → Bool
  | idle | storeHandle | register => true
  | _ => false

def SuspendPc.hasStored : SuspendPc → Bool
  | idle | storeHandle => false
  | _ => true

/-- The coroutine has not called `unregister_callback`. -/
def ResumePc.beforeUnregister : ResumePc V E → Bool
  | waiting | loadId => true
  | _ => false

/-- The awaiter's own calls begin when the awaiter makes them. -/
structure Unstarted (cfg : Config η ρ υ V E) (s : State η ρ υ κ V E) :
    Prop where
  register : s.suspend.beforeRegister = true →
    s.token.register cfg.registration = .idle
  unregister : s.resume.beforeUnregister = true →
    s.token.unregister cfg.unregistration = .idle

/-- The callback is where its invocation has left it. -/
def Called (cfg : Config η ρ υ V E) (s : State η ρ υ κ V E) : Prop :=
  s.party .callback = .idle ↔ s.token.invocations cfg.registration = []

/-- Whoever has started finds the handle. -/
structure Staged (cfg : Config η ρ υ V E) (s : State η ρ υ κ V E) :
    Prop where
  task : s.party .task ≠ .idle → s.suspend = .done
  handle : s.suspend.hasStored = true → s.handle = some cfg.handle

section Steps

variable [DecidableEq ρ] [DecidableEq υ] [DecidableEq κ]
  {s s' : State η ρ υ κ V E} {a : Action ρ υ κ V}

/-! ## The token -/

omit [DecidableEq ρ] [DecidableEq υ] [DecidableEq κ] in
theorem Unstarted.of_awaiter (h : Unstarted cfg s)
    (htoken : s'.token = s.token)
    (hregister : s'.suspend.beforeRegister = true →
      s.suspend.beforeRegister = true)
    (hunregister : s'.resume.beforeUnregister = true →
      s.resume.beforeUnregister = true) : Unstarted cfg s' where
  register hs := by
    rw [htoken]
    exact h.register (hregister hs)
  unregister hs := by
    rw [htoken]
    exact h.unregister (hunregister hs)

theorem unstarted_next (h : Unstarted cfg s) (ha : Enabled cfg s a) :
    Unstarted cfg (next cfg s a) := by
  cases a with
  | token b =>
      refine ⟨fun hs => ?_, fun hs => ?_⟩
      · refine Cancellation.register_eq_idle_next (h.register hs) ha.1 ?_
        rintro rfl
        exact ha.2 rfl
      · refine Cancellation.unregister_eq_idle_next (h.unregister hs) ha.1 ?_
        rintro id rfl
        exact ha.2 rfl
  | coAwait =>
      have hs : s.suspend = .idle := ha
      exact h.of_awaiter rfl (fun _ => by rw [hs]; rfl) id
  | storeHandle =>
      have hs : s.suspend = .storeHandle := ha
      exact h.of_awaiter rfl (fun _ => by rw [hs]; rfl) id
  | register => exact ⟨nofun, h.unregister⟩
  | storeId id => exact h.of_awaiter rfl nofun fun hr => hr
  | submit => exact h.of_awaiter rfl nofun id
  | loadId =>
      simp only [next]
      split
      · exact ⟨h.register, nofun⟩
      · exact h.of_awaiter rfl id nofun
  | resume => exact h.of_awaiter rfl id fun _ => by rw [ha.1]; rfl
  | unregistered _ | copyStatus | moveValue _ | copyException _ _ =>
      exact h.of_awaiter rfl (fun hs => hs) nofun
  | _ => exact h.of_awaiter rfl id id

theorem unstarted_reachable (hs : (system cfg κ).Reachable s) :
    Unstarted cfg s := by
  refine hs.invariant (Unstarted cfg) ?_ fun s a h ha => unstarted_next h ha
  rintro s rfl
  exact ⟨fun _ => rfl, fun _ => rfl⟩

theorem token_reachable (hs : (system cfg κ).Reachable s) :
    (Cancellation.system ρ υ κ).Reachable s.token := by
  refine hs.project (fun s => s.token) ?_ ?_
  · rintro s rfl
    rfl
  · intro s a hs ha _
    have hunstarted := unstarted_reachable hs
    cases a with
    | token b => exact .inr ⟨b, ha.1, trivial, rfl⟩
    | register =>
        have hsuspend : s.suspend = .register := ha
        refine .inr ⟨.callRegister cfg.registration, ?_, trivial, rfl⟩
        exact hunstarted.register (by rw [hsuspend]; rfl)
    | loadId =>
        have hresume : s.resume = .loadId := ha
        simp only [system, next]
        split
        · refine .inr
            ⟨.callUnregister cfg.unregistration s.callbackId, ?_, trivial, rfl⟩
          exact hunstarted.unregister (by rw [hresume]; rfl)
        · exact .inl rfl
    | _ => exact .inl rfl

/-! ## The callback -/

omit [DecidableEq ρ] [DecidableEq υ] [DecidableEq κ] in
theorem partyTo_idle_iff {p r : Party} {q : PartyPc} (hp : s.party p ≠ .idle)
    (hq : q ≠ .idle) :
    (s.partyTo p q).party r = .idle ↔ s.party r = .idle := by
  change Function.update s.party p q r = _ ↔ _
  by_cases hr : r = p
  · subst hr
    rw [Function.update_self]
    exact iff_of_false hq hp
  · rw [Function.update_of_ne hr]

omit [DecidableEq υ] [DecidableEq κ] in
theorem partyAfter_of_invokes {b : Cancellation.Action ρ υ κ}
    (hb : b.invokes = some cfg.registration) :
    s.partyAfter cfg b = Function.update s.party .callback .claim :=
  if_pos hb

omit [DecidableEq υ] [DecidableEq κ] in
theorem partyAfter_of_ne {b : Cancellation.Action ρ υ κ}
    (hb : b.invokes ≠ some cfg.registration) : s.partyAfter cfg b = s.party :=
  if_neg hb

omit [DecidableEq υ] [DecidableEq κ] in
@[simp] theorem partyAfter_task (b : Cancellation.Action ρ υ κ) :
    s.partyAfter cfg b .task = s.party .task := by
  unfold State.partyAfter
  split
  · exact Function.update_of_ne (show Party.task ≠ .callback by decide) ..
  · rfl

theorem called_next (h : Called cfg s) (ha : Enabled cfg s a) :
    Called cfg (next cfg s a) := by
  have hmove : ∀ {p q}, s.party p ≠ .idle → q ≠ .idle →
      ((s.partyTo p q).party .callback = .idle ↔
        s.token.invocations cfg.registration = []) :=
    fun hp hq => (partyTo_idle_iff hp hq).trans h
  cases a with
  | token b =>
      unfold Called
      by_cases hb : b.invokes = some cfg.registration
      · have hparty : (next cfg s (.token b)).party =
            Function.update s.party .callback .claim :=
          partyAfter_of_invokes hb
        rw [hparty, Function.update_self]
        exact iff_of_false nofun (Cancellation.invocations_next_ne_nil hb)
      · have hparty : (next cfg s (.token b)).party = s.party :=
          partyAfter_of_ne hb
        rw [hparty, show s.party .callback = .idle ↔ _ from h]
        exact Eq.congr_left (Cancellation.invocations_next_of_ne hb).symm
  | submit =>
      change Function.update s.party .task .invoke .callback = _ ↔ _
      rw [Function.update_of_ne (show Party.callback ≠ .task by decide)]
      exact h
  | invoke =>
      have hp : s.party .task = .invoke := ha
      exact hmove (q := .claim) (by rw [hp]; nofun) nofun
  | claimWon p | claimLost p => exact hmove (by rw [ha.1]; nofun) nofun
  | storeStatus p =>
      have hp : s.party p = .storeStatus := ha
      exact hmove (by rw [hp]; nofun) nofun
  | schedule p =>
      have hp : s.party p = .schedule := ha
      exact hmove (by rw [hp]; nofun) nofun
  | loadId =>
      simp only [next]
      split <;> exact h
  | _ => exact h

theorem called_reachable (hs : (system cfg κ).Reachable s) :
    Called cfg s := by
  refine hs.invariant (Called cfg) ?_ fun s a h ha => called_next h ha
  rintro s rfl
  exact iff_of_true rfl rfl

theorem callback_of_invokes (hs : (system cfg κ).Reachable s)
    {b : Cancellation.Action ρ υ κ} (hb : Cancellation.Enabled s.token b)
    (hinvokes : b.invokes = some cfg.registration) :
    s.party .callback = .idle :=
  (called_reachable hs).mpr
    (Cancellation.invocations_of_invokes (token_reachable hs) hb hinvokes)

/-! ## The handle -/

theorem staged_next (h : Staged cfg s) (ha : Enabled cfg s a) :
    Staged cfg (next cfg s a) := by
  have hmove : ∀ {p q}, s.party p ≠ .idle → q ≠ .idle →
      (s.partyTo p q).party .task ≠ .idle → s.suspend = .done :=
    fun hp hq htask => h.task ((partyTo_idle_iff hp hq).not.mp htask)
  have hbefore : s.suspend ≠ .done → s.party .task = .idle := by
    intro hs
    by_contra htask
    exact hs (h.task htask)
  cases a with
  | token b =>
      refine ⟨fun htask => h.task ?_, h.handle⟩
      exact (partyAfter_task b) ▸ htask
  | coAwait =>
      have hs : s.suspend = .idle := ha
      exact ⟨fun htask => absurd (hbefore (by rw [hs]; nofun)) htask, nofun⟩
  | storeHandle =>
      have hs : s.suspend = .storeHandle := ha
      exact ⟨fun htask => absurd (hbefore (by rw [hs]; nofun)) htask,
        fun _ => rfl⟩
  | register =>
      have hs : s.suspend = .register := ha
      exact ⟨fun htask => absurd (hbefore (by rw [hs]; nofun)) htask,
        fun _ => h.handle (by rw [hs]; rfl)⟩
  | storeId id =>
      exact ⟨fun htask => absurd (hbefore (by rw [ha.1]; nofun)) htask,
        fun _ => h.handle (by rw [ha.1]; rfl)⟩
  | submit =>
      have hs : s.suspend = .submit := ha
      exact ⟨fun _ => rfl, fun _ => h.handle (by rw [hs]; rfl)⟩
  | invoke =>
      have hp : s.party .task = .invoke := ha
      exact ⟨hmove (p := .task) (q := .claim) (by rw [hp]; nofun) nofun,
        h.handle⟩
  | claimWon p | claimLost p =>
      exact ⟨hmove (by rw [ha.1]; nofun) nofun, h.handle⟩
  | storeStatus p =>
      have hp : s.party p = .storeStatus := ha
      exact ⟨hmove (by rw [hp]; nofun) nofun, h.handle⟩
  | schedule p =>
      have hp : s.party p = .schedule := ha
      exact ⟨hmove (by rw [hp]; nofun) nofun, h.handle⟩
  | loadId =>
      simp only [next]
      split <;> exact ⟨h.task, h.handle⟩
  | _ => exact ⟨h.task, h.handle⟩

theorem staged_reachable (hs : (system cfg κ).Reachable s) :
    Staged cfg s := by
  refine hs.invariant (Staged cfg) ?_ fun s a h ha => staged_next h ha
  rintro s rfl
  exact ⟨fun htask => absurd rfl htask, nofun⟩

theorem handle_of_party (hs : (system cfg κ).Reachable s) {p : Party}
    (hp : s.party p ≠ .idle) : s.handle = some cfg.handle := by
  have hstaged := staged_reachable hs
  apply hstaged.handle
  cases p with
  | task =>
      rw [hstaged.task hp]
      rfl
  | callback =>
      have hregister : s.suspend.beforeRegister ≠ true := by
        intro hbefore
        have hidle := (unstarted_reachable hs).register hbefore
        refine hp ((called_reachable hs).mpr ?_)
        exact Cancellation.invocations_of_idle (token_reachable hs) hidle
      revert hregister
      cases s.suspend <;> simp [SuspendPc.beforeRegister, SuspendPc.hasStored]

end Steps

end CancellableBlocking
end Ethreads
