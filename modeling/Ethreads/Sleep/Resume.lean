import Ethreads.Sleep.Components
import Ethreads.TimerService.Sweep

/-!
# A cancellable sleep is resumed once

The timer thread, `shutdown` and the cancellation callback compete for the gate
of the sleep.  Whoever sets it has a reason: the deadline has passed, the timer
service was stopped, or the token is cancelled.  These reasons do not go away,
so that the status, which is read from the token afterwards, is truthful.
-/

namespace Ethreads
namespace Sleep

variable {ι γ η ρ υ κ : Type*} {cfg : Config ι γ η ρ υ}

/-- The timer thread has taken the entry out of the heap and tried its gate, or
the sweep of `shutdown` has passed the entry. -/
def Expired (cfg : Config ι γ η ρ υ) (s : State ι γ ρ υ κ) : Prop :=
  (s.gates.service.add cfg.timer).hasPushed = true ∧
    s.gates.service.timer ≠ .fire cfg.timer ∧
      (cfg.timer ∉ s.gates.service.heap ∨
        ∃ l, s.gates.service.shutdown.remaining = some l ∧ cfg.timer ∉ l)

/-- Nobody stands between setting the gate and scheduling the coroutine. -/
def NobodyBetween (cfg : Config ι γ η ρ υ) (s : State ι γ ρ υ κ) : Prop :=
  s.gates.service.timer.owed ≠ some cfg.timer ∧
    s.gates.service.shutdown.owed ≠ some cfg.timer ∧ s.callback ≠ .schedule

def Passed (cfg : Config ι γ η ρ υ) (s : State ι γ ρ υ κ) : Prop :=
  cfg.deadline ≤ s.gates.service.clock

def Stopped (s : State ι γ ρ υ κ) : Prop :=
  s.gates.service.running = false

/-- The handle of the sleep is scheduled once, and its status is truthful. -/
structure ResumesOnce (cfg : Config ι γ η ρ υ) (s : State ι γ ρ υ κ) :
    Prop where
  atMostOnce : (s.gates.calls cfg.gate).length ≤ 1
  exactlyOnce : Expired cfg s ∨ s.callback = .done → NobodyBetween cfg s →
    (s.gates.calls cfg.gate).length = 1
  cancelled : s.resume = .returned .cancelled → s.isCancelled cfg = true
  completed : s.resume = .returned .completed → Passed cfg s ∨ Stopped s

def Reason (cfg : Config ι γ η ρ υ) (s : State ι γ ρ υ κ) : Prop :=
  s.isCancelled cfg = true ∨ Passed cfg s ∨ Stopped s

/-- The gate is set and the coroutine goes on for a reason. -/
structure Justified (cfg : Config ι γ η ρ υ) (s : State ι γ ρ υ κ) :
    Prop where
  fired : s.gates.service.fired cfg.gate = true → Reason cfg s
  resumed : s.resume ≠ .waiting → Reason cfg s

/-- The status is the one read from the token. -/
structure Truthful (cfg : Config ι γ η ρ υ) (s : State ι γ ρ υ κ) :
    Prop where
  cancelled : s.resume = .returned .cancelled → s.isCancelled cfg = true
  completed : s.resume = .returned .completed → Passed cfg s ∨ Stopped s

section Steps

variable [DecidableEq ι] [DecidableEq γ] [DecidableEq ρ] [DecidableEq υ]
  [DecidableEq κ] {s : State ι γ ρ υ κ} {a : Action ι γ ρ υ κ}

/-! ## The reasons stay -/

theorem isCancelled_next (h : s.isCancelled cfg = true) :
    (next cfg s a).isCancelled cfg = true := by
  obtain ⟨htoken, hcancelled⟩ := Bool.and_eq_true_iff.mp h
  have hkeep : ∀ {s' : State ι γ ρ υ κ}, s'.token.cancelled = true →
      s'.isCancelled cfg = true :=
    fun hs' => Bool.and_eq_true_iff.mpr ⟨htoken, hs'⟩
  cases a with
  | token b => exact hkeep (Cancellation.cancelled_next hcancelled)
  | readyToken | readyClock | loadId =>
      simp only [next]
      split <;> exact hkeep hcancelled
  | _ => exact hkeep hcancelled

theorem service_next_cases (cfg : Config ι γ η ρ υ) (s : State ι γ ρ υ κ)
    (a : Action ι γ ρ υ κ) :
    (next cfg s a).gates.service = s.gates.service ∨
      ∃ b, (next cfg s a).gates.service =
        TimerService.next s.gates.service b := by
  cases a with
  | gates b =>
      cases b with
      | service b => exact .inr ⟨b, rfl⟩
      | claim g => exact .inr ⟨.store g true, rfl⟩
      | deliver g => exact .inl rfl
  | storeState => exact .inr ⟨.store cfg.gate false, rfl⟩
  | addTimer => exact .inr ⟨.callAdd cfg.timer, rfl⟩
  | callbackWon => exact .inr ⟨.store cfg.gate true, rfl⟩
  | readyToken | readyClock | loadId =>
      left
      simp only [next]
      split <;> rfl
  | _ => exact .inl rfl

theorem passed_next (h : Passed cfg s) : Passed cfg (next cfg s a) := by
  unfold Passed
  rcases service_next_cases cfg s a with hsame | ⟨b, hb⟩
  · rwa [hsame]
  · rw [hb]
    exact h.trans (TimerService.clock_le_next _ b)

theorem stopped_next (h : Stopped s) : Stopped (next cfg s a) := by
  unfold Stopped
  rcases service_next_cases cfg s a with hsame | ⟨b, hb⟩
  · rwa [hsame]
  · rw [hb, ← Bool.not_eq_true]
    intro hr
    have hbefore := TimerService.running_of_next hr
    exact absurd (hbefore.symm.trans h) (by simp)

theorem reason_next (h : Reason cfg s) : Reason cfg (next cfg s a) :=
  h.imp isCancelled_next (Or.imp passed_next stopped_next)

/-! ## Whoever sets the gate has a reason -/

theorem reason_of_gates (hs : (system cfg κ).Reachable s)
    {b : TimerService.GateAction ι γ} (ha : Enabled cfg s (.gates b))
    (hunset : s.gates.service.fired cfg.gate = false)
    (hset : (s.gates.next cfg.entry b).service.fired cfg.gate = true) :
    Reason cfg s := by
  have hservice := service_reachable hs
  cases b with
  | claim g =>
      have hsame : (s.gates.next cfg.entry (.claim g)).service.fired cfg.gate =
          s.gates.service.fired cfg.gate :=
        Function.update_of_ne (Ne.symm ha.2) _ _
      exact absurd (hset.symm.trans (hsame.trans hunset)) (by simp)
  | deliver g => exact absurd (hset.symm.trans hunset) (by simp)
  | service b =>
      by_cases hsets : b.sets = some cfg.gate
      · obtain ⟨i, hi, -, ht | ⟨rest, hsh⟩⟩ :=
          TimerService.has_of_sets ha.1.1 ha.1.2 hsets
        · obtain rfl := cfg.eq_timer hi
          have hdue := (TimerService.due_of_reachable hservice).entry
            (i := cfg.timer) (by rw [ht]; rfl)
          rw [cfg.entry_timer] at hdue
          exact .inr (.inl hdue)
        · refine .inr (.inr ?_)
          unfold Stopped
          rw [← Bool.not_eq_true]
          intro hr
          rcases TimerService.shutdown_of_running hservice hr with hpc | hpc
          · exact nomatch hpc.symm.trans hsh
          · exact nomatch hpc.symm.trans hsh
      · have hsame := TimerService.fired_next_of_ne (t := s.gates.service) hsets
        exact absurd (hset.symm.trans (hsame.trans hunset)) (by simp)

theorem justified_next (hs : (system cfg κ).Reachable s)
    (h : Justified cfg s) (ha : Enabled cfg s a) :
    Justified cfg (next cfg s a) := by
  have hkeep : ∀ {s' : State ι γ ρ υ κ}, (Reason cfg s → Reason cfg s') →
      s'.gates.service.fired = s.gates.service.fired →
      (s'.resume ≠ .waiting → s.resume ≠ .waiting) → Justified cfg s' :=
    fun hreason hfired hresume =>
      ⟨fun hset => hreason (h.fired (hfired ▸ hset)),
        fun hr => hreason (h.resumed (hresume hr))⟩
  cases a with
  | gates b =>
      refine ⟨fun hset => reason_next ?_, fun hr => reason_next (h.resumed hr)⟩
      cases hunset : s.gates.service.fired cfg.gate with
      | true => exact h.fired hunset
      | false => exact reason_of_gates hs ha hunset hset
  | callbackWon =>
      refine ⟨fun _ => reason_next (.inl ?_),
        fun hr => reason_next (h.resumed hr)⟩
      exact cancelled_of_callback hs (by simp [ha.1])
  | storeState =>
      refine ⟨fun hset => ?_, fun hr => reason_next (h.resumed hr)⟩
      cases (Function.update_self ..).symm.trans hset
  | readyToken =>
      simp only [next]
      split
      · rename_i hcancelled
        exact ⟨fun _ => .inl hcancelled, fun _ => .inl hcancelled⟩
      · exact hkeep (fun hr => hr) rfl fun hr => hr
  | readyClock =>
      simp only [next]
      split
      · rename_i hpassed
        exact ⟨fun _ => .inr (.inl hpassed), fun _ => .inr (.inl hpassed)⟩
      · exact hkeep (fun hr => hr) rfl fun hr => hr
  | resume =>
      have hset : s.gates.service.fired cfg.gate = true := by
        by_contra hunset
        rw [Bool.not_eq_true] at hunset
        have haccount := TimerService.account_reachable (gates_reachable hs)
          cfg.gate
        exact ha.2 (haccount.unset hunset).2.1
      exact ⟨fun _ => h.fired hset, fun _ => h.fired hset⟩
  | loadId =>
      have hresume : s.resume ≠ .waiting := by
        simp [show s.resume = .loadId from ha]
      simp only [next]
      split <;> exact hkeep (fun hr => hr) rfl fun _ => hresume
  | unregistered id =>
      exact hkeep (fun hr => hr) rfl fun _ => by simp [ha.1]
  | loadToken =>
      have hresume : s.resume = .loadToken := ha
      exact hkeep (fun hr => hr) rfl fun _ => by simp [hresume]
  | token b => exact hkeep reason_next rfl fun hr => hr
  | addTimer => exact hkeep reason_next rfl fun hr => hr
  | _ => exact hkeep (fun hr => hr) rfl fun hr => hr

theorem justified_reachable (hs : (system cfg κ).Reachable s) :
    Justified cfg s := by
  refine hs.invariant_of (J := (system cfg κ).Reachable) (Justified cfg)
    (fun s hs => hs) ?_ fun s a hs h ha => justified_next hs h ha
  rintro s ⟨clock, rfl⟩
  exact ⟨nofun, fun hr => absurd rfl hr⟩

theorem truthful_next (hjust : Justified cfg s) (h : Truthful cfg s)
    (ha : Enabled cfg s a) : Truthful cfg (next cfg s a) := by
  have hsame : (next cfg s a).resume = s.resume →
      Truthful cfg (next cfg s a) := by
    intro hresume
    refine ⟨fun hr => isCancelled_next (h.cancelled (hresume ▸ hr)),
      fun hr => ?_⟩
    exact (h.completed (hresume ▸ hr)).imp passed_next stopped_next
  have hmoved : (∀ status, (next cfg s a).resume ≠ .returned status) →
      Truthful cfg (next cfg s a) :=
    fun hne => ⟨fun hr => absurd hr (hne _), fun hr => absurd hr (hne _)⟩
  cases a with
  | loadToken =>
      have hresume : s.resume = .loadToken := ha
      have hreason := hjust.resumed (by simp [hresume])
      cases hcancelled : s.isCancelled cfg with
      | true =>
          have hstatus : (next cfg s .loadToken).resume =
              .returned .cancelled := by
            simp [next, hcancelled]
          refine ⟨fun _ => hcancelled, fun hr => ?_⟩
          cases hstatus.symm.trans hr
      | false =>
          have hstatus : (next cfg s .loadToken).resume =
              .returned .completed := by
            simp [next, hcancelled]
          refine ⟨fun hr => ?_, fun _ => ?_⟩
          · cases hstatus.symm.trans hr
          · exact hreason.resolve_left (by simp [hcancelled])
  | readyToken =>
      by_cases hcancelled : s.isCancelled cfg = true
      · exact hmoved fun status => by simp [next, hcancelled]
      · exact hsame (by simp [next, hcancelled])
  | readyClock =>
      by_cases hpassed : cfg.deadline ≤ s.gates.service.clock
      · exact hmoved fun status => by simp [next, hpassed]
      · exact hsame (by simp [next, hpassed])
  | resume | unregistered id => exact hmoved fun _ => by rintro ⟨⟩
  | loadId =>
      refine hmoved fun status => ?_
      simp only [next]
      split <;> rintro ⟨⟩
  | _ => exact hsame rfl

theorem truthful_reachable (hs : (system cfg κ).Reachable s) :
    Truthful cfg s := by
  refine hs.invariant_of (J := Justified cfg) (Truthful cfg)
    (fun s hs => justified_reachable hs) ?_
    fun s a hjust h ha => truthful_next hjust h ha
  rintro s ⟨clock, rfl⟩
  exact ⟨nofun, nofun⟩

/-! ## Whoever has tried the gate has found it set or has set it -/

theorem fired_of_expired (hs : (system cfg κ).Reachable s)
    (h : Expired cfg s) : s.gates.service.fired cfg.gate = true := by
  obtain ⟨hpushed, hfire, hgone⟩ := h
  have hcan : TimerService.canFire cfg.entry cfg.timer = true := by
    unfold TimerService.canFire TimerService.viewOf
    rw [cfg.entry_timer]
    rfl
  rcases TimerService.placed_reachable (gates_reachable hs) hcan
    cfg.gate_timer hpushed with ⟨hmem, hrest⟩ | ht | hset
  · rcases hgone with hout | ⟨l, hl, hout⟩
    · exact absurd hmem hout
    · exact absurd (hrest l hl) hout
  · exact absurd ht hfire
  · exact hset

/-- Once set, the gate stays set, as it is reset only before the timer is
added. -/
theorem fired_next (hs : (system cfg κ).Reachable s)
    (ha : Enabled cfg s a) (hset : s.gates.service.fired cfg.gate = true) :
    (next cfg s a).gates.service.fired cfg.gate = true := by
  have hgates : ∀ b, s.gates.Enabled cfg.entry b →
      (s.gates.next cfg.entry b).service.fired cfg.gate = true := by
    intro b hb
    cases b with
    | claim g => exact TimerService.fired_update_true hset
    | deliver g => exact hset
    | service b =>
        cases b with
        | fireWon i g | drainWon i rest g =>
            exact TimerService.fired_update_true hset
        | store g b => exact nomatch hb.2
        | _ => exact hset
  cases a with
  | gates b => exact hgates b ha.1
  | callbackWon => exact hgates (.claim cfg.gate) ha.2
  | storeState =>
      have hsuspend : s.suspend = .storeState := ha
      have hunset := fired_of_beforeAdd hs (by rw [hsuspend]; rfl)
      exact absurd (hset.symm.trans hunset) (by simp)
  | readyToken | readyClock | loadId =>
      simp only [next]
      split <;> exact hset
  | _ => exact hset

theorem fired_of_callback (hs : (system cfg κ).Reachable s)
    (hdone : s.callback = .schedule ∨ s.callback = .done) :
    s.gates.service.fired cfg.gate = true := by
  refine hs.invariant_of (J := (system cfg κ).Reachable)
    (fun s => s.callback = .schedule ∨ s.callback = .done →
      s.gates.service.fired cfg.gate = true) (fun s hs => hs) ?_ ?_ hdone
  · rintro s ⟨clock, rfl⟩ (hc | hc) <;> cases hc
  · intro s a hs h ha hdone
    cases a with
    | callbackWon => exact Function.update_self ..
    | callbackLost => exact ha.2
    | callbackSchedule => exact fired_next hs ha (h (.inl ha))
    | token b =>
        by_cases hb : b.invokes = some cfg.registration
        · have hcallback : (next cfg s (.token b)).callback = .claim :=
            if_pos hb
          rcases hdone with hc | hc
          · exact nomatch hcallback.symm.trans hc
          · exact nomatch hcallback.symm.trans hc
        · have hcallback : (next cfg s (.token b)).callback = s.callback :=
            if_neg hb
          exact h (hcallback ▸ hdone)
    | readyToken | readyClock | loadId =>
        revert hdone
        simp only [system, next]
        split <;> exact h
    | _ => exact fired_next hs ha (h hdone)

/-- A cancellable sleep is resumed once, with a truthful status. -/
theorem resumesOnce (cfg : Config ι γ η ρ υ) (κ : Type*) [DecidableEq κ] :
    ∀ s, (system cfg κ).Reachable s → ResumesOnce cfg s := by
  intro s hs
  have haccount :=
    TimerService.account_reachable (gates_reachable hs) cfg.gate
  have htruthful := truthful_reachable hs
  refine ⟨?_, fun hattempt hnobody => ?_, htruthful.cancelled,
    htruthful.completed⟩
  · rcases haccount.calls_eq with hnil | hone
    · simp [hnil]
    · simp [hone]
  · have hfired : s.gates.service.fired cfg.gate = true := by
      rcases hattempt with hexpired | hdone
      · exact fired_of_expired hs hexpired
      · exact fired_of_callback hs (.inr hdone)
    obtain ⟨htimer, hshutdown, hcallback⟩ := hnobody
    rw [haccount.calls_of_attempted hfired fun p => ?_]
    · rfl
    · cases p with
      | timer =>
          intro howes
          obtain ⟨i, hi, hg⟩ := Option.bind_eq_some_iff.mp howes
          exact htimer (cfg.eq_timer hg ▸ hi)
      | shutdown =>
          intro howes
          obtain ⟨i, hi, hg⟩ := Option.bind_eq_some_iff.mp howes
          exact hshutdown (cfg.eq_timer hg ▸ hi)
      | other => exact fun howes => hcallback ((claimed_iff hs).mp howes)

end Steps

/-- One sleep with a token, and nobody else but those who cancel. -/
def loneSleep : Config (Fin 1) (Fin 1) (Fin 1) (Fin 1) (Fin 1) where
  entry := fun _ => ⟨1, none, none, some ⟨some 0, 0⟩⟩
  timer := 0
  deadline := 1
  handle := 0
  gate := 0
  hasToken := true
  registration := 0
  unregistration := 0
  target := fun _ => 0
  entry_timer := rfl
  gate_ne i hi := absurd (Subsingleton.elim i 0) hi

abbrev Schedule := List (Action (Fin 1) (Fin 1) (Fin 1) (Fin 1) (Fin 1))

def addsTimer : List (Action (Fin 1) (Fin 1) (Fin 1) (Fin 1) (Fin 1)) :=
  [.coAwait, .readyToken, .readyClock, .storeState, .addTimer,
    .gates (.service (.lockAdd 0)), .gates (.service (.push 0)),
    .gates (.service (.unlockAdd 0)), .gates (.service (.notifyAdd 0)),
    .timerAdded]

def registersCallback :
    List (Action (Fin 1) (Fin 1) (Fin 1) (Fin 1) (Fin 1)) :=
  [.register, .token (.lockRegister 0), .token (.loadRegister 0),
    .token (.push 0), .token (.unlockRegister 0 1), .storeId 1]

/-- The timer thread takes the entry and tries its gate, which the callback has
set before; then the coroutine goes on. -/
def cancelledBeforeDeadline :
    List (Action (Fin 1) (Fin 1) (Fin 1) (Fin 1) (Fin 1)) :=
  addsTimer ++ (registersCallback ++
    ([.token (.callCancel 0), .token (.exchange 0), .token (.lockCancel 0),
      .token (.swap 0), .token (.unlockCancel 0 [0]), .token (.start 0 0 []),
      .callbackWon, .gates (.service .tick), .gates (.service .lockTimer),
      .gates (.service .loadRunningTrue), .gates (.service .heapNotEmpty),
      .gates (.service .readClock), .gates (.service (.pop 1 0)),
      .gates (.service (.fireLost 0 0)), .callbackSchedule, .resume, .loadId,
      .token (.testZero 0 1), .token (.loadFast 0 1), .unregistered 1,
      .loadToken] : Schedule))

theorem resumesOnce_cancelledBeforeDeadline :
    ResumesOnce loneSleep ((system loneSleep (Fin 1)).after
      (initialState (Fin 1) (Fin 1) (Fin 1) (Fin 1) (Fin 1) 0)
        cancelledBeforeDeadline) :=
  resumesOnce loneSleep (Fin 1) _
    (TransitionSystem.Executes.reachable (.init ⟨_, rfl⟩) (by decide))

end Sleep
end Ethreads
