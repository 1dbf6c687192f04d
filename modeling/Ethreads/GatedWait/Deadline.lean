import Ethreads.GatedWait.Lifetime

/-!
# Timed waits and their deadlines

The timer heap refers to a wait by the address of its gate.  An entry stays in
the heap when its wait ends early, and a later wait may then have its gate at
that address.  The timer thread ends a wait only at its own deadline as long
as no awaiter is constructed where the gate of an entry was that can still be
fired.
-/

namespace Ethreads
namespace GatedWait

variable {ω γ ν κ ι τ : Type*}

/-! ## Deadlines -/

def State.Passed (cfg : Config ω γ ν κ ι) (s : State ω γ ν κ ι τ) (w : ω) :
    Prop :=
  ∃ d, cfg.deadline w = some d ∧ d ≤ s.timer.clock

/-- The wait has an entry that the timer thread has not fired yet, or is still
to add one. -/
def State.Armed (cfg : Config ω γ ν κ ι) (s : State ω γ ν κ ι τ) (v : ω) :
    Prop :=
  s.timer.Queued v ∨
    ((s.suspend v = .storeGate ∨ s.suspend v = .addTimer) ∧
      (s.timer.add v).hasPushed = false ∧ (cfg.deadline v).isSome = true)

/-- Nobody constructs an awaiter whose gate is that of an armed wait, and the
last attempt of a wait fails only if the timer thread or the test of the
deadline in `ready_impl` has ended it. -/
def KeepsDeadlines (cfg : Config ω γ ν κ ι) (s : State ω γ ν κ ι τ) :
    Action ω γ ν κ ι τ → Prop
  | .construct w => ∀ v, s.Armed cfg v → cfg.gate v ≠ cfg.gate w
  | .finish w timedOut =>
      timedOut = true →
        s.winner (cfg.gate w) = some .timer ∨ s.expired w = true
  | _ => True

/-- The timer thread wins the gate of a wait only for the entry that this wait
has added, and no wait reports a time-out before its deadline. -/
structure EndsOnTime (cfg : Config ω γ ν κ ι) (s : State ω γ ν κ ι τ) :
    Prop where
  own : ∀ v w, s.timer.timer = .fire v →
    s.timer.fired (cfg.gate v) = false → s.InProgress w →
      cfg.gate w = cfg.gate v → w = v
  notBefore : ∀ w time, s.report w = some (true, time) →
    ∃ d, cfg.deadline w = some d ∧ d ≤ time

section Steps

variable [DecidableEq ω] [DecidableEq γ] [DecidableEq ν] [DecidableEq κ]
  [DecidableEq ι] [DecidableEq τ] {cfg : Config ω γ ν κ ι}
  {s : State ω γ ν κ ι τ} {a : Action ω γ ν κ ι τ} {v w : ω}

/-! ## Armed waits -/

omit [DecidableEq ω] [DecidableEq γ] [DecidableEq ν] [DecidableEq κ]
  [DecidableEq ι] [DecidableEq τ] in
theorem eq_readyFalse_of_suspendsTo
    (h : a.suspendsTo cfg = some (w, .storeGate)) : a = .readyFalse w := by
  have hregister : ∀ v j, register cfg v j ≠ .storeGate :=
    register_ne nofun nofun
  have hstore : ∀ v, afterStore cfg v ≠ .storeGate :=
    afterStore_ne nofun nofun nofun
  cases a <;> simp_all [Action.suspendsTo]

omit [DecidableEq ω] [DecidableEq γ] [DecidableEq ν] [DecidableEq κ]
  [DecidableEq ι] [DecidableEq τ] in
theorem eq_storeGate_of_suspendsTo
    (h : a.suspendsTo cfg = some (w, .addTimer)) :
    a = .storeGate w ∧ (cfg.deadline w).isSome = true := by
  have hregister : ∀ v j, register cfg v j ≠ .addTimer :=
    register_ne nofun nofun
  have hstore : ∀ v, afterStore cfg v = .addTimer →
      (cfg.deadline v).isSome = true := by
    intro v hv
    unfold afterStore at hv
    split at hv
    · assumption
    · exact absurd hv (hregister v 0)
  cases a with
  | storeGate u =>
      obtain ⟨rfl, hu⟩ : u = w ∧ afterStore cfg u = .addTimer := by
        simpa [Action.suspendsTo] using h
      exact ⟨rfl, hstore u hu⟩
  | _ => simp_all [Action.suspendsTo]

/-- Only a wait with a deadline calls `add_timer`, and it goes on only after
the call has returned. -/
structure Adds (cfg : Config ω γ ν κ ι) (s : State ω γ ν κ ι τ) (v : ω) :
    Prop where
  timed : s.suspend v = .addTimer → (cfg.deadline v).isSome = true
  called : s.timer.add v ≠ .idle → (cfg.deadline v).isSome = true
  stays : s.timer.add v ≠ .idle → (s.timer.add v).hasPushed = false →
    s.suspend v = .addTimer

omit [DecidableEq ν] [DecidableEq κ] [DecidableEq ι] [DecidableEq τ] in
/-- What a step of the timer service does to a call of `add_timer`. -/
theorem add_of_timerStep {b : TimerService.Action ω γ}
    (ha : TimerService.Enabled (entry cfg) s.timer b) (hb : TimerStep s b)
    (hadd : (TimerService.next s.timer b).add v ≠ .idle) :
    s.timer.add v ≠ .idle ∨ s.suspend v = .addTimer := by
  by_cases hidle : s.timer.add v = .idle
  · right
    cases b with
    | callAdd u =>
        by_cases hu : v = u
        · rw [hu]
          exact hb
        · exact absurd ((Function.update_of_ne hu _ _).trans hidle) hadd
    | lockAdd u =>
        have hu : v ≠ u := by
          rintro rfl
          exact nomatch hidle.symm.trans ha.1
        exact absurd ((Function.update_of_ne hu _ _).trans hidle) hadd
    | push u | unlockAdd u | notifyAdd u =>
        have hu : v ≠ u := by
          rintro rfl
          exact nomatch hidle.symm.trans ha
        exact absurd ((Function.update_of_ne hu _ _).trans hidle) hadd
    | _ => exact absurd hidle hadd
  · exact .inl hidle

theorem add_next : (next cfg s a).timer.add =
    match a with
    | .timer b => (TimerService.next s.timer b).add
    | _ => s.timer.add := by
  cases a with
  | timer b => simp [next]
  | _ => rfl

theorem addTimer_next (ha : Enabled cfg s a)
    (hv : s.suspend v = .addTimer) :
    (next cfg s a).suspend v = .addTimer ∨ a = .addedTimer v := by
  rcases suspend_of_next (rfl : (next cfg s a).suspend v = _) with
    ⟨hstays, -⟩ | hmoves
  · exact .inl (hstays.symm.trans hv)
  · have hfrom : SuspendPc.addTimer = a.suspendsFrom :=
      hv.symm.trans (suspend_eq_suspendsFrom ha hmoves)
    cases a with
    | addedTimer u =>
        obtain ⟨rfl, -⟩ := Prod.mk.inj (Option.some.inj hmoves)
        exact .inr rfl
    | _ => exact nomatch hfrom

theorem adds_next (h : Adds cfg s v) (ha : Enabled cfg s a) :
    Adds cfg (next cfg s a) v := by
  have hcalls : (next cfg s a).timer.add v ≠ .idle →
      s.timer.add v ≠ .idle ∨ s.suspend v = .addTimer := by
    intro hadd
    rw [add_next] at hadd
    cases a with
    | timer b => exact add_of_timerStep ha.1 ha.2 hadd
    | _ => exact .inl hadd
  have hpushed : (s.timer.add v).hasPushed = true →
      ((next cfg s a).timer.add v).hasPushed = true := by
    intro hv
    rw [add_next]
    cases a with
    | timer b => exact TimerService.hasPushed_next ha.1 hv
    | _ => exact hv
  refine ⟨fun hv => ?_, fun hadd => ?_, fun hadd hnot => ?_⟩
  · rcases suspend_of_next hv with ⟨hold, -⟩ | hmoves
    · exact h.timed hold
    · exact (eq_storeGate_of_suspendsTo hmoves).2
  · rcases hcalls hadd with hold | hold
    · exact h.called hold
    · exact h.timed hold
  · have hnotOld : (s.timer.add v).hasPushed = false := by
      by_contra hold
      rw [hpushed (by simpa using hold)] at hnot
      exact nomatch hnot
    have hold : s.suspend v = .addTimer := by
      rcases hcalls hadd with hold | hold
      · exact h.stays hold hnotOld
      · exact hold
    rcases addTimer_next ha hold with hstays | rfl
    · exact hstays
    · rw [ha.2] at hnotOld
      exact nomatch hnotOld

theorem adds_of_reachable (hs : (system cfg τ).Reachable s) (v : ω) :
    Adds cfg s v := by
  refine hs.invariant (fun s => Adds cfg s v) ?_ fun s a h ha => adds_next h ha
  rintro s ⟨clock, rfl⟩
  exact ⟨nofun, fun h => absurd rfl h, fun h => absurd rfl h⟩

/-- A wait becomes armed when it has found that it must suspend. -/
theorem armed_of_next (hadds : Adds cfg s v) (ha : Enabled cfg s a)
    (hv : (next cfg s a).Armed cfg v) :
    s.Armed cfg v ∨ a = .readyFalse v := by
  rcases hv with hqueued | ⟨hsuspend, hpushed, hdeadline⟩
  · left
    cases a with
    | timer b =>
        simp only [next, afterTimer_timer] at hqueued
        rcases TimerService.queued_of_next ha.1 hqueued with hold | rfl
        · exact .inl hold
        · have hpush : s.timer.add v = .push := ha.1
          have hbusy : s.timer.add v ≠ .idle := by simp [hpush]
          refine .inr ⟨.inr (hadds.stays hbusy ?_), ?_, hadds.called hbusy⟩
          · rw [hpush]
            rfl
          · rw [hpush]
            rfl
    | _ => exact .inl hqueued
  · have hold : (s.timer.add v).hasPushed = false := by
      rw [add_next] at hpushed
      cases a with
      | timer b =>
          by_contra hnot
          have htrue := TimerService.hasPushed_next ha.1
            (by simpa using hnot : (s.timer.add v).hasPushed = true)
          rw [hpushed] at htrue
          cases htrue
      | _ => exact hpushed
    rcases hsuspend with hsuspend | hsuspend
    · rcases suspend_of_next hsuspend with ⟨hstays, -⟩ | hmoves
      · exact .inl (.inr ⟨.inl hstays, hold, hdeadline⟩)
      · exact .inr (eq_readyFalse_of_suspendsTo hmoves)
    · rcases suspend_of_next hsuspend with ⟨hstays, -⟩ | hmoves
      · exact .inl (.inr ⟨.inr hstays, hold, hdeadline⟩)
      · obtain rfl := (eq_storeGate_of_suspendsTo hmoves).1
        exact .inl (.inr ⟨.inl ha, hold, hdeadline⟩)

/-- An armed wait shares its gate with no other wait in progress. -/
theorem eq_of_armed
    (hs : (system cfg τ).ReachableWhere (KeepsDeadlines cfg) s)
    (hv : s.Armed cfg v) (hw : s.InProgress w)
    (hgate : cfg.gate v = cfg.gate w) : v = w := by
  refine hs.invariant_of (J := (system cfg τ).Reachable)
    (fun s => ∀ v w, s.Armed cfg v → s.InProgress w →
      cfg.gate v = cfg.gate w → v = w)
    (fun s hs => hs.reachable) ?_ ?_ v w hv hw hgate
  · rintro s ⟨clock, rfl⟩ v w hv hw
    exact absurd rfl hw.1
  · intro s a hs h ha hkeeps v w hv hw hgate
    have henabled : Enabled cfg s a := ha
    have hfresh := fresh_of_reachable hs
    rcases armed_of_next (adds_of_reachable hs v) henabled hv with hvs | rfl
    · rcases inProgress_of_next hfresh henabled hw with hws | rfl
      · exact h v w hvs hws hgate
      · exact absurd hgate (hkeeps v hvs)
    · rcases inProgress_of_next hfresh henabled hw with hws | heq
      · have hready : s.suspend v = .ready := ha
        refine eq_of_gate_eq hs ⟨?_, ?_⟩ hws hgate
        · rw [hready]
          nofun
        · rw [hfresh v (.inr hready)]
          nofun
      · exact nomatch heq

/-! ## Who has ended a wait, and when -/

theorem clock_next (cfg : Config ω γ ν κ ι) (s : State ω γ ν κ ι τ)
    (a : Action ω γ ν κ ι τ) :
    s.timer.clock ≤ (next cfg s a).timer.clock := by
  cases a with
  | timer b =>
      simp only [next, afterTimer_timer]
      cases b with
      | tick => exact Nat.le_succ _
      | _ => exact le_rfl
  | _ => exact le_rfl

theorem passed_next (h : s.Passed cfg w) (a : Action ω γ ν κ ι τ) :
    (next cfg s a).Passed cfg w := by
  obtain ⟨d, hd, hle⟩ := h
  exact ⟨d, hd, hle.trans (clock_next cfg s a)⟩

/-- The entry in the hands of the timer thread is due. -/
theorem passed_of_fire (hs : (system cfg τ).Reachable s)
    (hv : s.timer.timer = .fire v) : s.Passed cfg v := by
  have htimer := timer_reachable hs
  have hentry : s.timer.timer.entry = some v := by
    rw [hv]
    rfl
  have hpushed := TimerService.hasPushed_of_has htimer
    (.inr (.inl hentry) : s.timer.Has v)
  have hbusy : s.timer.add v ≠ .idle := by
    intro hidle
    rw [hidle] at hpushed
    exact nomatch hpushed
  obtain ⟨d, hd⟩ :=
    Option.isSome_iff_exists.mp ((adds_of_reachable hs v).called hbusy)
  have hdue := (TimerService.due_of_reachable htimer).entry hentry
  exact ⟨d, hd, by simpa [entry, hd] using hdue⟩

theorem expired_next (h : s.expired w = true → s.Passed cfg w)
    (ha : Enabled cfg s a) (hw : (next cfg s a).expired w = true) :
    (next cfg s a).Passed cfg w := by
  cases a with
  | readyTrue v e =>
      by_cases hv : w = v
      · subst hv
        obtain rfl : e = true := by
          simpa [next, State.suspendTo] using hw
        have hany := ha.2 rfl
        cases hd : cfg.deadline w with
        | none => simp [hd] at hany
        | some d =>
            have hle : d ≤ s.timer.clock := by simpa [hd] using hany
            exact ⟨d, hd, hle⟩
      · exact passed_next (h ((Function.update_of_ne hv _ _).symm.trans hw)) _
  | timer b =>
      simp only [next, afterTimer_expired] at hw
      exact passed_next (h hw) _
  | _ => exact passed_next (h hw) _

theorem passed_of_expired (hs : (system cfg τ).Reachable s)
    (hw : s.expired w = true) : s.Passed cfg w := by
  refine hs.invariant (fun s => s.expired w = true → s.Passed cfg w) ?_
    (fun s a h ha => expired_next h ha) hw
  rintro s ⟨clock, rfl⟩ hw
  exact nomatch hw

theorem winner_of_next {g : γ}
    (hg : (next cfg s a).winner g = some .timer) :
    (∃ v, a = .timer (.fireWon v g)) ∨
      s.winner g = some .timer ∧ ∀ w, a = .construct w → cfg.gate w ≠ g := by
  have hupdate : ∀ {h : γ} {p : Option (Party ι τ)},
      Function.update s.winner h p g = some .timer → p ≠ some .timer →
        s.winner g = some .timer ∧ h ≠ g := by
    intro h p hg hp
    by_cases hgh : g = h
    · rw [hgh, Function.update_self] at hg
      exact absurd hg hp
    · rw [Function.update_of_ne hgh] at hg
      exact ⟨hg, Ne.symm hgh⟩
  cases a with
  | construct v =>
      obtain ⟨hold, hne⟩ := hupdate hg nofun
      refine .inr ⟨hold, fun w heq => ?_⟩
      obtain rfl : v = w := Action.construct.inj heq
      exact hne
  | casWon v => exact .inr ⟨(hupdate hg nofun).1, nofun⟩
  | gateWon i t n r h => exact .inr ⟨(hupdate hg nofun).1, nofun⟩
  | timer b =>
      cases b with
      | fireWon v h =>
          by_cases hgh : h = g
          · exact .inl ⟨v, by rw [hgh]⟩
          · refine .inr ⟨?_, nofun⟩
            exact (Function.update_of_ne (Ne.symm hgh) _ _).symm.trans hg
      | drainWon v rest h => exact .inr ⟨(hupdate hg nofun).1, nofun⟩
      | _ => exact .inr ⟨hg, nofun⟩
  | _ => exact .inr ⟨hg, nofun⟩

/-- The timer thread has ended a wait only after its deadline. -/
theorem passed_of_winner
    (hs : (system cfg τ).ReachableWhere (KeepsDeadlines cfg) s)
    (hw : s.InProgress w) (hwinner : s.winner (cfg.gate w) = some .timer) :
    s.Passed cfg w := by
  refine hs.invariant_of
    (J := (system cfg τ).ReachableWhere (KeepsDeadlines cfg))
    (fun s => ∀ w, s.InProgress w → s.winner (cfg.gate w) = some .timer →
      s.Passed cfg w) (fun s hs => hs) ?_ ?_ w hw hwinner
  · rintro s ⟨clock, rfl⟩ w hw
    exact absurd rfl hw.1
  · intro s a hs h ha _ w hw hwinner
    have henabled : Enabled cfg s a := ha
    have hfresh := fresh_of_reachable hs.reachable
    rcases winner_of_next hwinner with ⟨v, rfl⟩ | ⟨hold, hnew⟩
    · obtain ⟨hfire, hgate, -⟩ := henabled.1
      have hws : s.InProgress w := by
        rcases inProgress_of_next hfresh henabled hw with hws | heq
        · exact hws
        · exact nomatch heq
      obtain rfl := eq_of_armed hs (.inl (.inr hfire)) hws
        (Option.some.inj hgate)
      exact passed_next (passed_of_fire hs.reachable hfire) _
    · rcases inProgress_of_next hfresh henabled hw with hws | heq
      · exact passed_next (h w hws hold) _
      · exact absurd rfl (hnew w heq)

/-! ## Waits end on time -/

theorem report_next
    (hs : (system cfg τ).ReachableWhere (KeepsDeadlines cfg) s)
    (h : ∀ time, s.report w = some (true, time) →
      ∃ d, cfg.deadline w = some d ∧ d ≤ time)
    (ha : Enabled cfg s a) (hkeeps : KeepsDeadlines cfg s a) (time : ℕ)
    (hw : (next cfg s a).report w = some (true, time)) :
    ∃ d, cfg.deadline w = some d ∧ d ≤ time := by
  cases a with
  | finish v timedOut =>
      by_cases hv : w = v
      · subst hv
        obtain ⟨rfl, rfl⟩ : timedOut = true ∧ s.timer.clock = time := by
          simpa [next] using hw
        have hbusy : s.InProgress w := by
          refine ⟨fun hidle => ?_, ?_⟩
          · have hfresh := fresh_of_reachable hs.reachable w (.inl hidle)
            cases hfresh.symm.trans ha.1
          · simp [ha.1]
        rcases hkeeps rfl with hwinner | hexpired
        · exact passed_of_winner hs hbusy hwinner
        · exact passed_of_expired hs.reachable hexpired
      · exact h time ((Function.update_of_ne hv _ _).symm.trans hw)
  | timer b =>
      simp only [next, afterTimer_report] at hw
      exact h time hw
  | _ => exact h time hw

/-- As long as no awaiter is constructed where the gate of an armed wait was,
and only waits that the timer thread or the test of the deadline has ended
fail in their last attempt, the timer thread wins the gate of a wait only for
its own entry, and no wait reports a time-out before its deadline. -/
theorem endsOnTime_of_keepsDeadlines
    (hs : (system cfg τ).ReachableWhere (KeepsDeadlines cfg) s) :
    EndsOnTime cfg s where
  own v w hfire _ hw hgate :=
    (eq_of_armed hs (.inl (.inr hfire)) hw hgate.symm).symm
  notBefore w := by
    refine hs.invariant_of
      (J := (system cfg τ).ReachableWhere (KeepsDeadlines cfg))
      (fun s => ∀ time, s.report w = some (true, time) →
        ∃ d, cfg.deadline w = some d ∧ d ≤ time) (fun s hs => hs) ?_ ?_
    · rintro s ⟨clock, rfl⟩ time hw
      exact nomatch hw
    · exact fun s a hs h ha hkeeps => report_next hs h ha hkeeps

end Steps

/-! ## An entry that outlives its wait -/

instance (cfg : Config ω γ ν κ ι) (s : State ω γ ν κ ι τ) (v : ω)
    [DecidableEq ω] : Decidable (s.Armed cfg v) :=
  inferInstanceAs (Decidable (_ ∨ _ ∧ _))

instance [Fintype ω] [DecidableEq ω] [DecidableEq γ] [DecidableEq ι]
    [DecidableEq τ] (cfg : Config ω γ ν κ ι) (s : State ω γ ν κ ι τ)
    (a : Action ω γ ν κ ι τ) : Decidable (KeepsDeadlines cfg s a) := by
  induction a using Action.casesOn <;> dsimp only [KeepsDeadlines] <;>
    infer_instance

/-- The wait reports a time-out. -/
def timeOut (w : Bool) : List (Action Bool Unit ℕ Unit Unit Unit) :=
  [.resume w, .finish w true]

/-- The first wait ends through its own timer. -/
def ownTimer : List (Action Bool Unit ℕ Unit Unit Unit) :=
  registerBoth false ++ fireEntry false 1 ++ timeOut false

theorem endsOnTime_ownTimer :
    let s := (system waitTwice Unit).after
      (initialState Bool Unit ℕ Unit Unit Unit 0) ownTimer
    EndsOnTime waitTwice s ∧ s.report false = some (true, 1) := by
  intro s
  refine ⟨endsOnTime_of_keepsDeadlines ?_, by decide⟩
  exact TransitionSystem.Executes.reachableWhere (.init ⟨_, rfl⟩) (by decide)

/-- The first wait is woken before its deadline.  Its entry ends the second
one, which reports a time-out before its own. -/
def staleEntry : List (Action Bool Unit ℕ Unit Unit Unit) :=
  registerBoth false ++ wakeWait false ++ registerBoth true ++
    fireEntry false 1 ++ timeOut true

theorem not_forall_endsOnTime :
    ¬∀ s, (system waitTwice Unit).Reachable s → EndsOnTime waitTwice s := by
  intro h
  have hearly := (h ((system waitTwice Unit).after
    (initialState Bool Unit ℕ Unit Unit Unit 0) staleEntry)
    (TransitionSystem.Executes.reachable (.init ⟨_, rfl⟩)
      (by decide))).notBefore true 1 (by decide)
  obtain ⟨d, hd, hle⟩ := hearly
  obtain rfl : 3 = d := by simpa [waitTwice] using hd
  exact absurd hle (by decide)

end GatedWait
end Ethreads
