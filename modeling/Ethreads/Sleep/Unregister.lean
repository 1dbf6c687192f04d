import Ethreads.Cancellation.Removal
import Ethreads.Sleep.Resume

/-!
# Unregistering is final

A callback that was unregistered is not started any more, and a sleep that has
returned leaves no callback behind, if two races do not happen.  A call of
`unregister_callback` does not find the state cancelled while its callback is
still pending, and the coroutine does not read `callback_id_` before
`suspend_impl` has stored what it registers.
-/

namespace Ethreads
namespace Sleep

variable {ι γ η ρ υ κ : Type*} {cfg : Config ι γ η ρ υ}

/-- A callback whose removal has returned is not started any more. -/
def StaysUnregistered (s : State ι γ ρ υ κ) : Prop :=
  ∀ u id r, s.token.unregister u = .returned id →
    s.token.register r = .returned id →
      ∀ b, Cancellation.Enabled s.token b → b.invokes ≠ some r

/-- When `co_await` has returned and `suspend_impl` is done, the callback of the
sleep is not listed, and it is not started any more. -/
def LeavesNothing (cfg : Config ι γ η ρ υ) (s : State ι γ ρ υ κ) : Prop :=
  (∃ status, s.resume = .returned status) →
    s.suspend = .done ∨ s.suspend = .ready →
      cfg.registration ∉ s.token.callbacks ∧
        ∀ b, Cancellation.Enabled s.token b → b.invokes ≠ some cfg.registration

structure UnregisterFinal (cfg : Config ι γ η ρ υ) (s : State ι γ ρ υ κ) :
    Prop where
  stays : StaysUnregistered s
  leaves : LeavesNothing cfg s

/-- A call of `unregister_callback` that finds the state cancelled is not for a
pending callback.  When the coroutine reads `callback_id_`, the id of its
callback has been stored if there is one, and afterwards the callback is not
put into `callbacks_`. -/
def InTime (cfg : Config ι γ η ρ υ) (s : State ι γ ρ υ κ) :
    Action ι γ ρ υ κ → Prop
  | .token b =>
      Cancellation.FindsSettled s.token b ∧
        (b = .push cfg.registration → s.resume.beforeUnregister = true)
  | .loadId => (s.token.register cfg.registration).id = s.callbackId
  | _ => True

instance [DecidableEq ρ] [DecidableEq υ] [DecidableEq κ] [Fintype ρ]
    [Fintype κ] (s : State ι γ ρ υ κ) (a : Action ι γ ρ υ κ) :
    Decidable (InTime cfg s a) := by
  induction a using Action.casesOn <;> dsimp only [InTime] <;> infer_instance

/-- The coroutine has read `callback_id_`, and no call of
`unregister_callback` is under way. -/
def ResumePc.unregistered : ResumePc → Bool
  | loadToken | returned _ => true
  | _ => false

/-- The stored id is the one that the registration has returned. -/
structure Recorded (cfg : Config ι γ η ρ υ) (s : State ι γ ρ υ κ) :
    Prop where
  stored : s.callbackId ≠ 0 →
    s.token.register cfg.registration = .returned s.callbackId
  done : s.suspend = .done → cfg.hasToken = true →
    ∃ id, s.token.register cfg.registration = .returned id

/-- Once the coroutine has read `callback_id_`, it unregisters the callback of
the sleep if there is one. -/
structure Tracked (cfg : Config ι γ η ρ υ) (s : State ι γ ρ υ κ) : Prop where
  past : s.resume.beforeUnregister = false →
    (s.token.register cfg.registration).id = s.callbackId
  called : s.resume = .unregistering →
    (s.token.unregister cfg.unregistration).id = some s.callbackId
  finished : s.resume.unregistered = true → s.callbackId ≠ 0 →
    s.token.unregister cfg.unregistration = .returned s.callbackId

section Steps

variable [DecidableEq ι] [DecidableEq γ] [DecidableEq ρ] [DecidableEq υ]
  [DecidableEq κ] {s s' : State ι γ ρ υ κ} {a : Action ι γ ρ υ κ}

theorem register_returned_next (hs : (system cfg κ).Reachable s)
    (ha : Enabled cfg s a) {r : ρ} {id : ℕ}
    (hr : s.token.register r = .returned id) :
    (next cfg s a).token.register r = .returned id := by
  rcases token_next_cases hs ha with hsame | ⟨b, hb, htoken, -⟩
  · rwa [hsame]
  · rw [htoken]
    exact Cancellation.register_returned_next hb hr

omit [DecidableEq ι] [DecidableEq γ] [DecidableEq ρ] [DecidableEq υ]
  [DecidableEq κ] in
theorem Recorded.of_same (h : Recorded cfg s)
    (hregister : ∀ id, s.token.register cfg.registration = .returned id →
      s'.token.register cfg.registration = .returned id)
    (hid : s'.callbackId = s.callbackId)
    (hdone : s'.suspend = .done → s.suspend = .done ∨ cfg.hasToken = false) :
    Recorded cfg s' where
  stored hne := by
    rw [hid] at hne ⊢
    exact hregister _ (h.stored hne)
  done hs htoken := by
    rcases hdone hs with hold | hnone
    · obtain ⟨id, hr⟩ := h.done hold htoken
      exact ⟨id, hregister id hr⟩
    · exact absurd (htoken.symm.trans hnone) (by simp)

theorem recorded_next (hs : (system cfg κ).Reachable s) (h : Recorded cfg s)
    (ha : Enabled cfg s a) : Recorded cfg (next cfg s a) := by
  have hkeep : ∀ id, s.token.register cfg.registration = .returned id →
      (next cfg s a).token.register cfg.registration = .returned id :=
    fun id hr => register_returned_next hs ha hr
  cases a with
  | storeId id => exact ⟨fun _ => ha.2, fun _ _ => ⟨id, ha.2⟩⟩
  | timerAdded =>
      refine h.of_same hkeep rfl fun hdone => .inr ?_
      by_contra htoken
      rw [Bool.not_eq_false] at htoken
      simp [next, htoken] at hdone
  | readyToken | readyClock =>
      revert hkeep
      simp only [next]
      split <;> exact fun hkeep => h.of_same hkeep rfl (by rintro ⟨⟩)
  | loadId =>
      revert hkeep
      simp only [next]
      split <;> exact fun hkeep => h.of_same hkeep rfl .inl
  | coAwait | storeState | addTimer | register =>
      exact h.of_same hkeep rfl (by rintro ⟨⟩)
  | _ => exact h.of_same hkeep rfl .inl

theorem recorded_reachable (hs : (system cfg κ).Reachable s) :
    Recorded cfg s := by
  refine hs.invariant_of (J := (system cfg κ).Reachable) (Recorded cfg)
    (fun s hs => hs) ?_ fun s a hs h ha => recorded_next hs h ha
  rintro s ⟨clock, rfl⟩
  exact ⟨fun hid => absurd rfl hid, nofun⟩

/-- The calls of `unregister_callback` are for ids that were returned, and
final if they are in time. -/
theorem settled_next (hs : (system cfg κ).Reachable s)
    (h : Cancellation.Known s.token ∧ Cancellation.Settled s.token)
    (ha : Enabled cfg s a) (htime : InTime cfg s a) :
    Cancellation.Known (next cfg s a).token ∧
      Cancellation.Settled (next cfg s a).token := by
  rcases token_next_cases hs ha with hsame | ⟨b, hb, htoken, hcase⟩
  · rwa [hsame]
  · rw [htoken]
    rcases hcase with rfl | rfl | ⟨rfl, hid, rfl⟩
    · refine ⟨Cancellation.known_next h.1 hb ?_,
        Cancellation.settled_next (token_reachable hs) h.1 h.2 hb htime.1⟩
      rintro u id rfl
      exact ⟨_, ha.2.2⟩
    · exact ⟨Cancellation.known_next h.1 hb nofun,
        Cancellation.settled_next (token_reachable hs) h.1 h.2 hb trivial⟩
    · refine ⟨Cancellation.known_next h.1 hb ?_,
        Cancellation.settled_next (token_reachable hs) h.1 h.2 hb trivial⟩
      intro u id heq
      obtain ⟨-, rfl⟩ := Cancellation.Action.callUnregister.inj heq
      exact ⟨_, (recorded_reachable hs).stored hid⟩

theorem tracked_token (h : Tracked cfg s) {b : Cancellation.Action ρ υ κ}
    (ha : Enabled cfg s (.token b)) (htime : InTime cfg s (.token b)) :
    Tracked cfg (next cfg s (.token b)) := by
  constructor
  · intro hpast
    rw [← show s.callbackId = (next cfg s (.token b)).callbackId from rfl,
      ← h.past hpast]
    refine Cancellation.register_id_next ha.1 fun hb => ?_
    exact absurd ((htime.2 hb).symm.trans hpast) (by simp)
  · intro hcalled
    rw [← show s.callbackId = (next cfg s (.token b)).callbackId from rfl,
      ← h.called hcalled]
    refine Cancellation.unregister_id_next ha.1 ?_
    rintro id rfl
    exact ha.2.1 rfl
  · intro hfinished hid
    exact Cancellation.unregister_returned_next ha.1 (h.finished hfinished hid)

omit [DecidableEq ι] [DecidableEq γ] [DecidableEq ρ] [DecidableEq υ]
  [DecidableEq κ] in
/-- The coroutine has not read `callback_id_`. -/
theorem tracked_of_before (hbefore : s.resume.beforeUnregister = true) :
    Tracked cfg s := by
  cases hresume : s.resume with
  | waiting | loadId => constructor <;> rw [hresume] <;> nofun
  | _ =>
      rw [hresume] at hbefore
      cases hbefore

omit [DecidableEq ι] [DecidableEq γ] [DecidableEq ρ] [DecidableEq υ]
  [DecidableEq κ] in
theorem Tracked.of_same (h : Tracked cfg s) (htoken : s'.token = s.token)
    (hresume : s'.resume = s.resume) (hid : s'.callbackId = s.callbackId) :
    Tracked cfg s' := by
  constructor <;> rw [htoken, hresume, hid]
  · exact h.past
  · exact h.called
  · exact h.finished

theorem tracked_next (hs : (system cfg κ).Reachable s) (h : Tracked cfg s)
    (ha : Enabled cfg s a) (htime : InTime cfg s a) :
    Tracked cfg (next cfg s a) := by
  have hstart := unstarted_reachable hs
  cases a with
  | token b => exact tracked_token h ha htime
  | resume => exact tracked_of_before rfl
  | readyToken | readyClock =>
      simp only [next]
      split
      · exact tracked_of_before rfl
      · exact h.of_same rfl rfl rfl
  | register =>
      have hsuspend : s.suspend = .register := ha
      have hidle : s.token.register cfg.registration = .idle :=
        hstart.register (.inl (by rw [hsuspend]; rfl))
      refine ⟨fun hpast => ?_, h.called, h.finished⟩
      have hid := h.past hpast
      rw [hidle] at hid
      rw [show (next cfg s .register).token.register cfg.registration = .lock
        from Function.update_self ..]
      exact hid
  | storeId id =>
      have hnone : s.callbackId = 0 := hstart.no_id (by simp [ha.1])
      have hsame : s.resume.beforeUnregister = false → id = s.callbackId := by
        intro hpast
        rw [← h.past hpast, ha.2]
        rfl
      refine ⟨fun _ => ?_, fun hcalled => ?_, fun hfinished hid => ?_⟩
      · exact congrArg Cancellation.RegisterPc.id ha.2
      · have hid := hsame (by rw [show s.resume = _ from hcalled]; rfl)
        rw [show (next cfg s (.storeId id)).callbackId = id from rfl, hid]
        exact h.called hcalled
      · refine absurd ((hsame ?_).trans hnone) hid
        revert hfinished
        change s.resume.unregistered = true → _
        cases s.resume <;> simp [ResumePc.unregistered,
          ResumePc.beforeUnregister]
  | loadId =>
      have hid : (s.token.register cfg.registration).id = s.callbackId := htime
      simp only [next]
      split
      · refine ⟨fun _ => hid, fun _ => ?_, by rintro ⟨⟩⟩
        refine (congrArg Cancellation.UnregisterPc.id
          (Function.update_self ..)).trans ?_
        rfl
      · rename_i hnone
        refine ⟨fun _ => hid, by rintro ⟨⟩, fun _ hne => ?_⟩
        refine absurd ⟨?_, hne⟩ hnone
        by_contra htoken
        have hidle := hstart.register (.inr (Bool.eq_false_iff.mpr htoken))
        rw [hidle] at hid
        exact hne hid.symm
  | unregistered id =>
      have hpast := h.past (by rw [ha.1]; rfl)
      have hcalled := h.called ha.1
      rw [ha.2] at hcalled
      obtain rfl := Option.some.inj hcalled
      exact ⟨fun _ => hpast, by rintro ⟨⟩, fun _ _ => ha.2⟩
  | loadToken =>
      have hresume : s.resume = .loadToken := ha
      refine ⟨fun _ => h.past (by rw [hresume]; rfl), by rintro ⟨⟩,
        fun _ => h.finished (by rw [hresume]; rfl)⟩
  | _ => exact h.of_same rfl rfl rfl

/-! ## Runs -/

theorem settled_reachable (hs : (system cfg κ).ReachableWhere (InTime cfg) s) :
    Cancellation.Known s.token ∧ Cancellation.Settled s.token := by
  refine hs.invariant_of (J := (system cfg κ).Reachable)
    (fun s => Cancellation.Known s.token ∧ Cancellation.Settled s.token)
    (fun s hs => hs.reachable) ?_
    fun s a hs h ha htime => settled_next hs h ha htime
  rintro s ⟨clock, rfl⟩
  exact ⟨nofun, nofun⟩

theorem tracked_reachable (hs : (system cfg κ).ReachableWhere (InTime cfg) s) :
    Tracked cfg s := by
  refine hs.invariant_of (J := (system cfg κ).Reachable) (Tracked cfg)
    (fun s hs => hs.reachable) ?_
    fun s a hs h ha htime => tracked_next hs h ha htime
  rintro s ⟨clock, rfl⟩
  exact tracked_of_before rfl

/-- When the coroutine has returned, its callback is not pending. -/
theorem not_pending_of_returned
    (hs : (system cfg κ).ReachableWhere (InTime cfg) s)
    {status : SleepStatus} (hresume : s.resume = .returned status) :
    ¬Cancellation.Pending s.token cfg.registration := by
  obtain ⟨-, place, hplaced⟩ :=
    Cancellation.placed_reachable (token_reachable hs.reachable)
  have htracked := tracked_reachable hs
  intro hpending
  have hid := htracked.past (by rw [hresume]; rfl)
  have hne : s.callbackId ≠ 0 := hid ▸ hplaced.id_of_pending hpending
  have hunregister := htracked.finished (by rw [hresume]; rfl) hne
  refine (settled_reachable hs).2 cfg.unregistration s.callbackId ?_ _
    ((recorded_reachable hs.reachable).stored hne) hpending
  rw [hunregister]
  rfl

/-- Unregistering a callback is final in every run in which it is in time. -/
theorem unregisterFinal (cfg : Config ι γ η ρ υ) (κ : Type*)
    [DecidableEq κ] : ∀ s : State ι γ ρ υ κ,
    (system cfg κ).ReachableWhere (InTime cfg) s → UnregisterFinal cfg s := by
  intro s hs
  have hrecorded := recorded_reachable hs.reachable
  have hstart := unstarted_reachable hs.reachable
  refine ⟨fun u id r hu hr b hb => ?_, fun ⟨status, hresume⟩ hdone => ?_⟩
  · refine Cancellation.invokes_of_not_pending (by rw [hr]; nofun) ?_ hb
    refine (settled_reachable hs).2 u id ?_ r hr
    rw [hu]
    rfl
  · have hnot := not_pending_of_returned hs hresume
    have hregister : s.token.register cfg.registration ≠ .invoke := by
      rcases hdone with hdone | hready
      · cases htoken : cfg.hasToken with
        | false =>
            rw [hstart.register (.inr htoken)]
            nofun
        | true =>
            obtain ⟨id, hr⟩ := hrecorded.done hdone htoken
            rw [hr]
            nofun
      · rw [hstart.register (.inl (by rw [hready]; rfl))]
        nofun
    exact ⟨fun hmem => hnot (.inl hmem),
      fun b hb => Cancellation.invokes_of_not_pending hregister hnot hb⟩

end Steps

/-- The timer thread pops the entry, sets its gate and schedules the
coroutine. -/
def timerFires : List (Action (Fin 1) (Fin 1) (Fin 1) (Fin 1) (Fin 1)) :=
  [.gates (.service .tick), .gates (.service .lockTimer),
    .gates (.service .loadRunningTrue), .gates (.service .heapNotEmpty),
    .gates (.service .readClock), .gates (.service (.pop 1 0)),
    .gates (.service (.fireWon 0 0)), .gates (.service (.unlockFired 0)),
    .gates (.service (.schedule 0))]

/-- The coroutine removes its callback before the state is cancelled. -/
def unregistersInTime :
    List (Action (Fin 1) (Fin 1) (Fin 1) (Fin 1) (Fin 1)) :=
  addsTimer ++ (registersCallback ++ (timerFires ++
    ([.resume, .loadId, .token (.testZero 0 1), .token (.loadFast 0 1),
      .token (.lockUnregister 0 1), .token (.loadUnregister 0 1),
      .token (.erase 0 1), .token (.unlockUnregister 0 1), .unregistered 1,
      .loadToken, .token (.callCancel 0), .token (.exchange 0),
      .token (.lockCancel 0), .token (.swap 0), .token (.unlockCancel 0 []),
      .token (.runDone 0), .token (.wakeAll 0)] : Schedule)))

theorem unregisterFinal_unregistersInTime :
    UnregisterFinal loneSleep ((system loneSleep (Fin 1)).after
      (initialState (Fin 1) (Fin 1) (Fin 1) (Fin 1) (Fin 1) 0)
        unregistersInTime) :=
  unregisterFinal loneSleep (Fin 1) _
    (TransitionSystem.Executes.reachableWhere (.init ⟨_, rfl⟩) (by decide))

/-- The coroutine unregisters its callback between the exchange of `cancel` and
its swap. -/
def unregistersLate :
    List (Action (Fin 1) (Fin 1) (Fin 1) (Fin 1) (Fin 1)) :=
  addsTimer ++ (registersCallback ++ (timerFires ++
    ([.token (.callCancel 0), .token (.exchange 0), .resume, .loadId,
      .token (.testZero 0 1), .token (.loadFast 0 1), .unregistered 1,
      .loadToken, .token (.lockCancel 0), .token (.swap 0),
      .token (.unlockCancel 0 [0])] : Schedule)))

/-- The coroutine goes on before `suspend_impl` registers the callback. -/
def registersLate :
    List (Action (Fin 1) (Fin 1) (Fin 1) (Fin 1) (Fin 1)) :=
  addsTimer ++ (timerFires ++
    (([.resume, .loadId, .loadToken] : Schedule) ++ registersCallback))

/-- A callback is started after its removal has returned, and a sleep that is
over has left its callback behind. -/
theorem not_forall_unregisterFinal :
    (¬∀ s, (system loneSleep (Fin 1)).Reachable s → StaysUnregistered s) ∧
      ¬∀ s, (system loneSleep (Fin 1)).Reachable s →
        LeavesNothing loneSleep s := by
  refine ⟨fun hall => ?_, fun hall => ?_⟩
  · have hstays := hall _ (TransitionSystem.Executes.reachable
      (l := unregistersLate) (.init ⟨0, rfl⟩) (by decide))
    exact hstays 0 1 0 (by decide) (by decide) (.start 0 0 []) (by decide) rfl
  · have hleaves := hall _ (TransitionSystem.Executes.reachable
      (l := registersLate) (.init ⟨0, rfl⟩) (by decide))
    have hdone := hleaves ⟨.completed, by decide⟩ (.inl (by decide))
    exact absurd hdone.1 (by decide)

end Sleep
end Ethreads
