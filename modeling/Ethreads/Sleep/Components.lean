import Ethreads.Sleep.Model

/-!
# The components of a sleep

A run of the sleep with its surroundings is a run of the timer service with its
gates, and a run of the token's `cancellation_state`.  Until its timer is added
nobody else has access to the gate of the sleep.
-/

namespace Ethreads
namespace Sleep

variable {ι γ η ρ υ κ : Type*} {cfg : Config ι γ η ρ υ}

def SuspendPc.beforeAdd : SuspendPc → Bool
  | idle | readyToken | readyClock | ready | storeState | addTimer => true
  | _ => false

def SuspendPc.beforeRegister : SuspendPc → Bool
  | idle | readyToken | readyClock | ready | storeState | addTimer | adding
  | register => true
  | _ => false

def SuspendPc.beforeReady : SuspendPc → Bool
  | idle | readyToken | readyClock => true
  | _ => false

/-- The registration is under way. -/
def SuspendPc.registers : SuspendPc → Bool
  | register | registering => true
  | _ => false

/-- The coroutine has not called `unregister_callback`. -/
def ResumePc.beforeUnregister : ResumePc → Bool
  | waiting | loadId => true
  | _ => false

/-- The sleep's own calls begin when the awaiter makes them. -/
structure Unstarted (cfg : Config ι γ η ρ υ) (s : State ι γ ρ υ κ) :
    Prop where
  timer : s.suspend.beforeAdd = true →
    s.gates.service.add cfg.timer = .idle
  register : s.suspend.beforeRegister = true ∨ cfg.hasToken = false →
    s.token.register cfg.registration = .idle
  unregister : s.suspend.beforeReady = true ∨
    s.resume.beforeUnregister = true →
      s.token.unregister cfg.unregistration = .idle
  token : s.suspend.registers = true → cfg.hasToken = true
  stored : s.callbackId ≠ 0 → s.suspend = .done

/-- Only the entry of the sleep has its gate. -/
theorem Config.eq_timer (cfg : Config ι γ η ρ υ) {i : ι}
    (hi : TimerService.gate cfg.entry i = some cfg.gate) : i = cfg.timer := by
  by_contra hne
  exact cfg.gate_ne i hne hi

theorem Config.gate_timer (cfg : Config ι γ η ρ υ) :
    TimerService.gate cfg.entry cfg.timer = some cfg.gate := by
  unfold TimerService.gate TimerService.viewOf
  rw [cfg.entry_timer]

section Steps

variable [DecidableEq ι] [DecidableEq γ] [DecidableEq ρ] [DecidableEq υ]
  [DecidableEq κ] {s s' : State ι γ ρ υ κ} {a : Action ι γ ρ υ κ}

omit [DecidableEq ι] [DecidableEq γ] [DecidableEq ρ] [DecidableEq υ]
  [DecidableEq κ] in
theorem Unstarted.of_awaiter (h : Unstarted cfg s)
    (hgates : s'.gates.service.add = s.gates.service.add)
    (htoken : s'.token = s.token)
    (hadd : s'.suspend.beforeAdd = true → s.suspend.beforeAdd = true)
    (hregister : s'.suspend.beforeRegister = true →
      s.suspend.beforeRegister = true)
    (hunregister : s'.suspend.beforeReady = true ∨
      s'.resume.beforeUnregister = true →
        s.suspend.beforeReady = true ∨ s.resume.beforeUnregister = true)
    (hregisters : s'.suspend.registers = true → cfg.hasToken = true)
    (hstored : s'.callbackId ≠ 0 → s'.suspend = .done) :
    Unstarted cfg s' where
  timer hs := by
    rw [hgates]
    exact h.timer (hadd hs)
  register hs := by
    rw [htoken]
    exact h.register (hs.imp_left hregister)
  unregister hs := by
    rw [htoken]
    exact h.unregister (hunregister hs)
  token := hregisters
  stored := hstored

omit [DecidableEq ι] [DecidableEq γ] [DecidableEq ρ] [DecidableEq υ]
  [DecidableEq κ] in
theorem Unstarted.of_same (h : Unstarted cfg s)
    (hgates : s'.gates.service.add = s.gates.service.add)
    (htoken : s'.token = s.token) (hsuspend : s'.suspend = s.suspend)
    (hresume : s'.resume.beforeUnregister = true →
      s.resume.beforeUnregister = true)
    (hid : s'.callbackId = s.callbackId) : Unstarted cfg s' := by
  refine h.of_awaiter hgates htoken ?_ ?_ ?_ ?_ ?_
  · rw [hsuspend]
    exact fun hs => hs
  · rw [hsuspend]
    exact fun hs => hs
  · rw [hsuspend]
    exact Or.imp_right hresume
  · rw [hsuspend]
    exact h.token
  · rw [hsuspend, hid]
    exact h.stored

theorem unstarted_gates (h : Unstarted cfg s)
    {b : TimerService.GateAction ι γ} (ha : Enabled cfg s (.gates b)) :
    Unstarted cfg (next cfg s (.gates b)) := by
  refine ⟨fun hs => ?_, h.register, h.unregister, h.token, h.stored⟩
  cases b with
  | claim g => exact h.timer hs
  | deliver g => exact h.timer hs
  | service b =>
      refine TimerService.add_eq_idle_next (h.timer hs) ha.1.1 ?_
      rintro rfl
      exact ha.2 rfl

theorem unstarted_token (h : Unstarted cfg s)
    {b : Cancellation.Action ρ υ κ} (ha : Enabled cfg s (.token b)) :
    Unstarted cfg (next cfg s (.token b)) := by
  refine ⟨h.timer, fun hs => ?_, fun hs => ?_, h.token, h.stored⟩
  · refine Cancellation.register_eq_idle_next (h.register hs) ha.1 ?_
    rintro rfl
    exact ha.2 rfl
  · refine Cancellation.unregister_eq_idle_next (h.unregister hs) ha.1 ?_
    rintro id rfl
    exact ha.2.1 rfl

omit [DecidableEq ι] [DecidableEq γ] [DecidableEq ρ] [DecidableEq υ]
  [DecidableEq κ] in
theorem Unstarted.no_id (h : Unstarted cfg s) (hs : s.suspend ≠ .done) :
    s.callbackId = 0 := by
  by_contra hid
  exact hs (h.stored hid)

theorem unstarted_next (h : Unstarted cfg s) (ha : Enabled cfg s a) :
    Unstarted cfg (next cfg s a) := by
  cases a with
  | gates b => exact unstarted_gates h ha
  | token b => exact unstarted_token h ha
  | coAwait =>
      have hs : s.suspend = .idle := ha
      refine h.of_awaiter rfl rfl (fun _ => by rw [hs]; rfl)
        (fun _ => by rw [hs]; rfl) (fun _ => .inl (by rw [hs]; rfl)) nofun ?_
      exact fun hid => absurd (h.no_id (by simp [hs])) hid
  | readyToken =>
      have hs : s.suspend = .readyToken := ha
      have hid : s.callbackId = 0 := h.no_id (by simp [hs])
      simp only [next]
      split <;> exact h.of_awaiter rfl rfl (fun _ => by rw [hs]; rfl)
        (fun _ => by rw [hs]; rfl) (fun _ => .inl (by rw [hs]; rfl)) nofun
        fun hne => absurd hid hne
  | readyClock =>
      have hs : s.suspend = .readyClock := ha
      have hid : s.callbackId = 0 := h.no_id (by simp [hs])
      simp only [next]
      split <;> exact h.of_awaiter rfl rfl (fun _ => by rw [hs]; rfl)
        (fun _ => by rw [hs]; rfl) (fun _ => .inl (by rw [hs]; rfl)) nofun
        fun hne => absurd hid hne
  | storeState =>
      have hs : s.suspend = .storeState := ha
      exact h.of_awaiter rfl rfl (fun _ => by rw [hs]; rfl)
        (fun _ => by rw [hs]; rfl) (Or.imp_left nofun) nofun
        fun hid => absurd (h.no_id (by simp [hs])) hid
  | addTimer =>
      have hs : s.suspend = .addTimer := ha
      refine ⟨nofun, fun _ => h.register (.inl (by rw [hs]; rfl)),
        fun hr => h.unregister (hr.imp_left nofun), nofun, fun hid => ?_⟩
      exact absurd (h.no_id (by simp [hs])) hid
  | timerAdded =>
      have hs : s.suspend = .adding := ha.1
      have hid : s.callbackId = 0 := h.no_id (by simp [hs])
      cases htoken : cfg.hasToken with
      | true =>
          simp only [next, htoken, if_true]
          exact h.of_awaiter rfl rfl nofun (fun _ => by rw [hs]; rfl)
            (Or.imp_left nofun) (fun _ => htoken) fun hne => absurd hid hne
      | false =>
          simp only [next, htoken]
          exact h.of_awaiter rfl rfl nofun nofun (Or.imp_left nofun) nofun
            fun hne => absurd hid hne
  | register =>
      have hs : s.suspend = .register := ha
      have htoken : cfg.hasToken = true := h.token (by rw [hs]; rfl)
      refine ⟨nofun, ?_, fun hr => h.unregister (hr.imp_left nofun),
        fun _ => htoken, fun hid => absurd (h.no_id (by simp [hs])) hid⟩
      rintro (hr | hr)
      · cases hr
      · exact absurd (htoken.symm.trans hr) (by simp)
  | storeId id =>
      exact h.of_awaiter rfl rfl nofun nofun (Or.imp_left nofun) nofun
        fun _ => rfl
  | callbackWon | callbackLost | callbackSchedule =>
      exact h.of_same rfl rfl rfl (fun hr => hr) rfl
  | resume =>
      exact h.of_same rfl rfl rfl (fun _ => by rw [ha.1]; rfl) rfl
  | loadId =>
      simp only [next]
      split
      · rename_i hid
        have hdone := h.stored hid.2
        refine ⟨h.timer, h.register, ?_, h.token, h.stored⟩
        rintro (hr | hr)
        · exact absurd hr (by simp [hdone, SuspendPc.beforeReady])
        · cases hr
      · exact h.of_same rfl rfl rfl nofun rfl
  | unregistered id | loadToken => exact h.of_same rfl rfl rfl nofun rfl

theorem unstarted_reachable (hs : (system cfg κ).Reachable s) :
    Unstarted cfg s := by
  refine hs.invariant (Unstarted cfg) ?_ fun s a h ha => unstarted_next h ha
  rintro s ⟨clock, rfl⟩
  exact ⟨fun _ => rfl, fun _ => rfl, fun _ => rfl, nofun,
    fun hid => absurd rfl hid⟩

/-- What a step does to the token: nothing, or a step of one of its calls. -/
theorem token_next_cases (hs : (system cfg κ).Reachable s)
    (ha : Enabled cfg s a) :
    (next cfg s a).token = s.token ∨
      ∃ b, Cancellation.Enabled s.token b ∧
        (next cfg s a).token = Cancellation.next s.token b ∧
          (a = .token b ∨ b = .callRegister cfg.registration ∨
            a = .loadId ∧ s.callbackId ≠ 0 ∧
              b = .callUnregister cfg.unregistration s.callbackId) := by
  have hstart := unstarted_reachable hs
  cases a with
  | token b => exact .inr ⟨b, ha.1, rfl, .inl rfl⟩
  | register =>
      have hsuspend : s.suspend = .register := ha
      exact .inr ⟨.callRegister cfg.registration,
        hstart.register (.inl (by rw [hsuspend]; rfl)), rfl,
        .inr (.inl rfl)⟩
  | loadId =>
      have hresume : s.resume = .loadId := ha
      simp only [next]
      split
      · rename_i hid
        exact .inr ⟨.callUnregister cfg.unregistration s.callbackId,
          hstart.unregister (.inr (by rw [hresume]; rfl)), rfl,
          .inr (.inr ⟨trivial, hid.2, rfl⟩)⟩
      · exact .inl rfl
  | readyToken | readyClock =>
      left
      simp only [next]
      split <;> rfl
  | _ => exact .inl rfl

/-- The token takes part in each step with one of its own or with none. -/
theorem token_reachable (hs : (system cfg κ).Reachable s) :
    (Cancellation.system ρ υ κ).Reachable s.token := by
  refine hs.project (fun s => s.token) ?_ ?_
  · rintro s ⟨clock, rfl⟩
    rfl
  · intro s a hs ha _
    exact (token_next_cases hs ha).imp_right
      fun ⟨b, hb, htoken, _⟩ => ⟨b, hb, trivial, htoken⟩

/-- The timer service takes part in each step with one of its own or with
none. -/
theorem service_reachable (hs : (system cfg κ).Reachable s) :
    (TimerService.system cfg.entry).Reachable s.gates.service := by
  refine hs.project (fun s => s.gates.service) ?_ ?_
  · rintro s ⟨clock, rfl⟩
    exact ⟨_, clock, rfl⟩
  · intro s a hs ha _
    cases a with
    | gates b =>
        cases b with
        | service b => exact .inr ⟨b, ha.1.1, trivial, rfl⟩
        | claim g => exact .inr ⟨.store g true, trivial, trivial, rfl⟩
        | deliver g => exact .inl rfl
    | storeState =>
        exact .inr ⟨.store cfg.gate false, trivial, trivial, rfl⟩
    | addTimer =>
        have hsuspend : s.suspend = .addTimer := ha
        exact .inr ⟨.callAdd cfg.timer, (unstarted_reachable hs).timer
          (by rw [hsuspend]; rfl), trivial, rfl⟩
    | callbackWon =>
        exact .inr ⟨.store cfg.gate true, trivial, trivial, rfl⟩
    | readyToken | readyClock | loadId =>
        left
        simp only [system, next]
        split <;> rfl
    | _ => exact .inl rfl

/-! ## The gate of the sleep -/

/-- The body of the callback runs from its invocation on. -/
def Called (cfg : Config ι γ η ρ υ) (s : State ι γ ρ υ κ) : Prop :=
  s.callback = .idle ↔ s.token.invocations cfg.registration = []

theorem called_next (h : Called cfg s) (ha : Enabled cfg s a) :
    Called cfg (next cfg s a) := by
  have hsame : ∀ {s' : State ι γ ρ υ κ}, s'.token = s.token →
      (s'.callback = .idle ↔ s.callback = .idle) → Called cfg s' := by
    intro s' htoken hcallback
    unfold Called
    rw [hcallback, htoken]
    exact h
  cases a with
  | token b =>
      by_cases hb : b.invokes = some cfg.registration
      · have hcallback : (next cfg s (.token b)).callback = .claim :=
          if_pos hb
        refine iff_of_false (by rw [hcallback]; nofun) ?_
        exact Cancellation.invocations_next_ne_nil hb
      · have hcallback : (next cfg s (.token b)).callback = s.callback :=
          if_neg hb
        unfold Called
        rw [hcallback, show s.callback = .idle ↔ _ from h]
        exact Eq.congr_left (Cancellation.invocations_next_of_ne hb).symm
  | callbackWon | callbackLost =>
      exact hsame rfl (iff_of_false nofun (by rw [ha.1]; nofun))
  | callbackSchedule =>
      have hc : s.callback = .schedule := ha
      exact hsame rfl (iff_of_false nofun (by rw [hc]; nofun))
  | readyToken | readyClock =>
      simp only [next]
      split <;> exact hsame rfl Iff.rfl
  | loadId =>
      simp only [next]
      split
      · exact h
      · exact hsame rfl Iff.rfl
  | register => exact h
  | _ => exact hsame rfl Iff.rfl

theorem called_reachable (hs : (system cfg κ).Reachable s) :
    Called cfg s := by
  refine hs.invariant (Called cfg) ?_ fun s a h ha => called_next h ha
  rintro s ⟨clock, rfl⟩
  exact iff_of_true rfl rfl

/-- While the callback runs, the state is cancelled and the sleep has a
token. -/
theorem cancelled_of_callback (hs : (system cfg κ).Reachable s)
    (hcallback : s.callback ≠ .idle) : s.isCancelled cfg = true := by
  have hinvoked : s.token.invocations cfg.registration ≠ [] :=
    fun hnil => hcallback ((called_reachable hs).mpr hnil)
  have hcancelled :=
    Cancellation.cancelled_of_invocations (token_reachable hs) hinvoked
  unfold State.isCancelled
  cases htoken : cfg.hasToken with
  | true => rw [hcancelled]; rfl
  | false =>
      have hidle := (unstarted_reachable hs).register (.inr htoken)
      exact absurd
        (Cancellation.invocations_of_idle (token_reachable hs) hidle) hinvoked

/-- The callback of the sleep does not run before its timer is added. -/
theorem callback_of_beforeAdd (hs : (system cfg κ).Reachable s)
    (hbefore : s.suspend.beforeAdd = true) : s.callback = .idle := by
  apply (called_reachable hs).mpr
  apply Cancellation.invocations_of_idle (token_reachable hs)
  apply (unstarted_reachable hs).register
  left
  revert hbefore
  cases s.suspend <;> simp [SuspendPc.beforeAdd, SuspendPc.beforeRegister]

/-- A step of the service does not set the gate before the timer is added. -/
theorem unset_gates (hs : (system cfg κ).Reachable s)
    (hunset : s.gates.service.fired cfg.gate = false)
    (hbefore : s.suspend.beforeAdd = true)
    {b : TimerService.GateAction ι γ} (ha : Enabled cfg s (.gates b)) :
    (s.gates.next cfg.entry b).service.fired cfg.gate = false := by
  cases b with
  | claim g =>
      rw [← hunset]
      exact Function.update_of_ne (Ne.symm ha.2) _ _
  | deliver g => exact hunset
  | service b =>
      rw [← hunset]
      refine TimerService.fired_next_of_ne fun hsets => ?_
      obtain ⟨i, hi, -, hhas⟩ := TimerService.has_of_sets ha.1.1 ha.1.2 hsets
      obtain rfl := cfg.eq_timer hi
      have hpushed := TimerService.hasPushed_of_has (service_reachable hs)
        (i := cfg.timer) ?_
      · rw [(unstarted_reachable hs).timer hbefore] at hpushed
        cases hpushed
      · rcases hhas with ht | ⟨rest, hsh⟩
        · exact .inr (.inl (by rw [ht]; rfl))
        · exact .inr (.inr (by rw [hsh]; exact List.mem_cons_self))

/-- Nobody sets the gate before the timer is added. -/
theorem fired_of_beforeAdd (hs : (system cfg κ).Reachable s)
    (hbefore : s.suspend.beforeAdd = true) :
    s.gates.service.fired cfg.gate = false := by
  refine hs.invariant_of (J := (system cfg κ).Reachable)
    (fun s => s.suspend.beforeAdd = true →
      s.gates.service.fired cfg.gate = false) (fun s hs => hs) ?_ ?_ hbefore
  · rintro s ⟨clock, rfl⟩ -
    rfl
  · intro s a hs h ha hbefore
    have hkeep : ∀ {s' : State ι γ ρ υ κ},
        s'.gates.service.fired = s.gates.service.fired →
        (s'.suspend.beforeAdd = true → s.suspend.beforeAdd = true) →
          s'.suspend.beforeAdd = true →
            s'.gates.service.fired cfg.gate = false := by
      intro s' hfired hsuspend hs'
      rw [hfired]
      exact h (hsuspend hs')
    cases a with
    | gates b => exact unset_gates hs (h hbefore) hbefore ha
    | callbackWon =>
        have hidle := callback_of_beforeAdd hs hbefore
        exact nomatch hidle.symm.trans ha.1
    | storeState => exact Function.update_self ..
    | coAwait =>
        have hsuspend : s.suspend = .idle := ha
        exact hkeep rfl (fun _ => by rw [hsuspend]; rfl) hbefore
    | readyToken =>
        have hsuspend : s.suspend = .readyToken := ha
        revert hbefore
        simp only [system, next]
        split <;> exact hkeep rfl fun _ => by rw [hsuspend]; rfl
    | readyClock =>
        have hsuspend : s.suspend = .readyClock := ha
        revert hbefore
        simp only [system, next]
        split <;> exact hkeep rfl fun _ => by rw [hsuspend]; rfl
    | loadId =>
        revert hbefore
        simp only [system, next]
        split <;> exact hkeep rfl fun hs' => hs'
    | timerAdded =>
        revert hbefore
        cases htoken : cfg.hasToken <;>
          simp [system, next, htoken, SuspendPc.beforeAdd]
    | addTimer | register | storeId id => cases hbefore
    | _ => exact hkeep rfl (fun hs' => hs') hbefore

/-- The callback has claimed the gate exactly while it is to schedule. -/
theorem claimed_iff (hs : (system cfg κ).Reachable s) :
    s.gates.other cfg.gate = .claimed ↔ s.callback = .schedule := by
  refine hs.invariant_of (J := (system cfg κ).Reachable)
    (fun s => s.gates.other cfg.gate = .claimed ↔ s.callback = .schedule)
    (fun s hs => hs) ?_ ?_
  · rintro s ⟨clock, rfl⟩
    exact iff_of_false nofun nofun
  · intro s a hs h ha
    cases a with
    | gates b =>
        have hother : (s.gates.next cfg.entry b).other cfg.gate =
            s.gates.other cfg.gate := by
          cases b with
          | service b => rfl
          | claim g => exact Function.update_of_ne (Ne.symm ha.2) _ _
          | deliver g => exact Function.update_of_ne (Ne.symm ha.2) _ _
        exact (Eq.congr_left hother).trans h
    | token b =>
        by_cases hb : b.invokes = some cfg.registration
        · have hidle : s.callback = .idle := (called_reachable hs).mpr
            (Cancellation.invocations_of_invokes (token_reachable hs) ha.1 hb)
          have hcallback : (next cfg s (.token b)).callback = .claim :=
            if_pos hb
          refine iff_of_false (fun hclaimed => ?_) ?_
          · exact nomatch hidle.symm.trans (h.mp hclaimed)
          · exact fun hc => nomatch hcallback.symm.trans hc
        · have hcallback : (next cfg s (.token b)).callback = s.callback :=
            if_neg hb
          exact h.trans (Eq.congr_left hcallback.symm)
    | callbackWon => exact iff_of_true (Function.update_self ..) rfl
    | callbackLost =>
        refine iff_of_false (fun hclaimed => ?_) nofun
        exact nomatch ha.1.symm.trans (h.mp hclaimed)
    | callbackSchedule =>
        refine iff_of_false (fun hclaimed => ?_) nofun
        exact nomatch (Function.update_self ..).symm.trans hclaimed
    | readyToken | readyClock | loadId =>
        simp only [system, next]
        split <;> exact h
    | _ => exact h

/-- The service and its gates take part in each step with one of their own or
with none. -/
theorem gates_reachable (hs : (system cfg κ).Reachable s) :
    (TimerService.gateSystem cfg.entry).Reachable s.gates := by
  refine hs.project (fun s => s.gates) ?_ ?_
  · rintro s ⟨clock, rfl⟩
    exact ⟨clock, rfl⟩
  · intro s a hs ha _
    cases a with
    | gates b => exact .inr ⟨b, ha.1, trivial, rfl⟩
    | storeState =>
        left
        have hsuspend : s.suspend = .storeState := ha
        have hunset := fired_of_beforeAdd hs (by rw [hsuspend]; rfl)
        have hfired : Function.update s.gates.service.fired cfg.gate false =
            s.gates.service.fired :=
          Function.update_eq_self_iff.mpr hunset.symm
        simp only [system, next, TimerService.next, hfired]
    | addTimer =>
        have hsuspend : s.suspend = .addTimer := ha
        exact .inr ⟨.service (.callAdd cfg.timer),
          ⟨(unstarted_reachable hs).timer (by rw [hsuspend]; rfl), rfl⟩,
          trivial, rfl⟩
    | callbackWon => exact .inr ⟨.claim cfg.gate, ha.2, trivial, rfl⟩
    | callbackSchedule =>
        exact .inr ⟨.deliver cfg.gate, (claimed_iff hs).mpr ha, trivial, rfl⟩
    | readyToken | readyClock | loadId =>
        left
        simp only [system, next]
        split <;> rfl
    | _ => exact .inl rfl

end Steps

end Sleep
end Ethreads
