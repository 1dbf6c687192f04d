import Ethreads.GatedWait.Private
import Ethreads.Support.OneShot

/-!
# A gated wait is resumed exactly once

Every attempt to schedule the coroutine of a wait goes through its gate, which
is a one-shot flag: the timer thread, `shutdown`, the threads that wake the
waiters of a list and the re-check of `suspend_impl` compete for it, and the
winner makes the only call of `schedule_coro_handle`.
-/

namespace Ethreads
namespace GatedWait

variable {ω γ ν κ ι τ : Type*}

/-! ## The account of a wait -/

/-- The entry that the timer thread has won and not yet scheduled. -/
def timerOwes : TimerService.TimerPc ω → Option ω
  | .unlockFired v | .schedule v => some v
  | _ => none

/-- The entry that `shutdown` has won and not yet scheduled. -/
def shutdownOwes : TimerService.ShutdownPc ω → Option ω
  | .schedule v _ => some v
  | _ => none

section Account

variable [DecidableEq ω] [DecidableEq ν]

/-- The call is made on behalf of the wait. -/
def Source.isFor (cfg : Config ω γ ν κ ι) (w : ω) : Source ω ν → Bool
  | entry v | recheck v => v = w
  | node n => n ∈ nodes cfg w

/-- The coroutines that were scheduled on behalf of the wait. -/
def State.callsFor (cfg : Config ω γ ν κ ι) (s : State ω γ ν κ ι τ)
    (w : ω) : List κ :=
  (s.calls.filter fun call => call.1.isFor cfg w).map Prod.snd

/-- The party has won the gate of the wait and not yet called
`schedule_coro_handle`. -/
def State.Owes (cfg : Config ω γ ν κ ι) (s : State ω γ ν κ ι τ) (w : ω) :
    Party ι τ → Prop
  | .timer => timerOwes s.timer.timer = some w
  | .shutdown => shutdownOwes s.timer.shutdown = some w
  | .waker i t => s.delivery i t = .schedule (some (cfg.gate w))
  | .recheck => s.suspend w = .schedule

/-- The coroutine of the wait is scheduled at most once, and exactly once when
somebody has attempted the gate and nobody still has to schedule. -/
structure ResumedOnce (cfg : Config ω γ ν κ ι) (s : State ω γ ν κ ι τ)
    (w : ω) : Prop where
  atMostOnce : (s.callsFor cfg w).length ≤ 1
  itsCoroutine : ∀ k ∈ s.callsFor cfg w, k = cfg.coroutine w
  once : s.attempted (cfg.gate w) = true → (∀ p, ¬s.Owes cfg w p) →
    s.callsFor cfg w = [cfg.coroutine w]

end Account

section Steps

variable [DecidableEq ω] [DecidableEq γ] [DecidableEq ν] [DecidableEq κ]
  [DecidableEq ι] [DecidableEq τ] {cfg : Config ω γ ν κ ι}
  {s : State ω γ ν κ ι τ} {a : Action ω γ ν κ ι τ} {w : ω}

/-! ## The gate as a one-shot flag -/

/-- The account of the gate of the wait. -/
def Account (cfg : Config ω γ ν κ ι) (s : State ω γ ν κ ι τ) (w : ω) :
    Prop :=
  OneShot (cfg.coroutine w) (s.timer.fired (cfg.gate w))
    (s.attempted (cfg.gate w)) (s.callsFor cfg w) (s.Owes cfg w)

omit [DecidableEq ω] [DecidableEq γ] [DecidableEq ν] [DecidableEq κ]
  [DecidableEq ι] [DecidableEq τ] in
/-- Who owes a call after a step, party by party. -/
theorem owes_iff {s' : State ω γ ν κ ι τ} {P : Party ι τ → Prop}
    (htimer : s'.Owes cfg w .timer ↔ P .timer)
    (hshutdown : s'.Owes cfg w .shutdown ↔ P .shutdown)
    (hwaker : ∀ i t, s'.Owes cfg w (.waker i t) ↔ P (.waker i t))
    (hrecheck : s'.Owes cfg w .recheck ↔ P .recheck) (p : Party ι τ) :
    s'.Owes cfg w p ↔ P p := by
  cases p with
  | timer => exact htimer
  | shutdown => exact hshutdown
  | waker i t => exact hwaker i t
  | recheck => exact hrecheck

omit [DecidableEq γ] [DecidableEq κ] [DecidableEq ι] [DecidableEq τ] in
theorem callsFor_append {s' : State ω γ ν κ ι τ} (src : Source ω ν) (k : κ)
    (hcalls : s'.calls = s.calls ++ [(src, k)]) :
    s'.callsFor cfg w =
      s.callsFor cfg w ++ if src.isFor cfg w then [k] else [] := by
  unfold State.callsFor
  rw [hcalls, List.filter_append, List.map_append]
  by_cases hsrc : src.isFor cfg w = true
  · simp [hsrc]
  · simp [hsrc]

omit [DecidableEq γ] [DecidableEq κ] [DecidableEq ι] [DecidableEq τ] in
theorem Account.of_same {s' : State ω γ ν κ ι τ} (h : Account cfg s w)
    (hfired : s'.timer.fired (cfg.gate w) = s.timer.fired (cfg.gate w))
    (hattempted : s'.attempted (cfg.gate w) = s.attempted (cfg.gate w))
    (hcalls : s'.callsFor cfg w = s.callsFor cfg w)
    (howes : ∀ p, s'.Owes cfg w p ↔ s.Owes cfg w p) : Account cfg s' w := by
  unfold Account
  rw [hfired, hattempted, hcalls]
  exact h.congr howes

omit [DecidableEq γ] [DecidableEq κ] [DecidableEq ι] [DecidableEq τ] in
theorem Account.won {s' : State ω γ ν κ ι τ} (h : Account cfg s w)
    {p : Party ι τ} (hunset : s.timer.fired (cfg.gate w) = false)
    (hfired : s'.timer.fired (cfg.gate w) = true)
    (hattempted : s'.attempted (cfg.gate w) = true)
    (hcalls : s'.callsFor cfg w = s.callsFor cfg w)
    (howes : ∀ q, s'.Owes cfg w q ↔ s.Owes cfg w q ∨ q = p) :
    Account cfg s' w := by
  unfold Account at h ⊢
  rw [hunset] at h
  rw [hfired, hattempted, hcalls]
  exact h.win howes

omit [DecidableEq γ] [DecidableEq κ] [DecidableEq ι] [DecidableEq τ] in
theorem Account.lost {s' : State ω γ ν κ ι τ} (h : Account cfg s w)
    (hset : s.timer.fired (cfg.gate w) = true)
    (hfired : s'.timer.fired (cfg.gate w) = true)
    (hattempted : s'.attempted (cfg.gate w) = true)
    (hcalls : s'.callsFor cfg w = s.callsFor cfg w)
    (howes : ∀ p, s'.Owes cfg w p ↔ s.Owes cfg w p) : Account cfg s' w := by
  unfold Account at h ⊢
  rw [hset] at h
  rw [hfired, hattempted, hcalls]
  exact h.lose.congr howes

omit [DecidableEq γ] [DecidableEq κ] [DecidableEq ι] [DecidableEq τ] in
theorem Account.called {s' : State ω γ ν κ ι τ} (h : Account cfg s w)
    {p : Party ι τ} (hp : s.Owes cfg w p)
    (hfired : s'.timer.fired (cfg.gate w) = s.timer.fired (cfg.gate w))
    (hattempted : s'.attempted (cfg.gate w) = s.attempted (cfg.gate w))
    (hcalls : s'.callsFor cfg w = s.callsFor cfg w ++ [cfg.coroutine w])
    (howes : ∀ q, s'.Owes cfg w q ↔ s.Owes cfg w q ∧ q ≠ p) :
    Account cfg s' w := by
  unfold Account
  rw [hfired, hattempted, hcalls]
  exact h.call hp howes

omit [DecidableEq ω] [DecidableEq γ] [DecidableEq ν] [DecidableEq κ]
  [DecidableEq ι] [DecidableEq τ] in
theorem timerOwes_notify (p : TimerService.TimerPc ω) :
    timerOwes p.notify = timerOwes p := by
  cases p <;> rfl

theorem Account.of_quiet (h : Account cfg s w)
    {b : TimerService.Action ω γ}
    (hfired : (TimerService.next s.timer b).fired (cfg.gate w) =
      s.timer.fired (cfg.gate w))
    (hattempted : (next cfg s (.timer b)).attempted (cfg.gate w) =
      s.attempted (cfg.gate w))
    (hcalls : (next cfg s (.timer b)).callsFor cfg w = s.callsFor cfg w)
    (htimer : timerOwes (TimerService.next s.timer b).timer = some w ↔
      timerOwes s.timer.timer = some w)
    (hshutdown : shutdownOwes (TimerService.next s.timer b).shutdown = some w ↔
      shutdownOwes s.timer.shutdown = some w) :
    Account cfg (next cfg s (.timer b)) w := by
  refine h.of_same ?_ hattempted hcalls (owes_iff ?_ ?_ ?_ ?_)
  · simp only [next, afterTimer_timer]
    exact hfired
  · simp only [State.Owes, next, afterTimer_timer]
    exact htimer
  · simp only [State.Owes, next, afterTimer_timer]
    exact hshutdown
  · intro i t
    simp only [State.Owes, next, afterTimer_delivery]
  · simp only [State.Owes, next, afterTimer_suspend]

theorem account_fireWon (halone : Alone cfg w) (h : Account cfg s w) {v : ω}
    {g : γ} (ha : TimerService.Enabled (entry cfg) s.timer (.fireWon v g)) :
    Account cfg (next cfg s (.timer (.fireWon v g))) w := by
  obtain ⟨hpc, hg, hfired⟩ := ha
  obtain rfl : cfg.gate v = g := Option.some.inj hg
  by_cases hv : v = w
  · subst hv
    refine h.won (p := .timer) hfired ?_ ?_ rfl (owes_iff ?_ ?_ ?_ ?_) <;>
      simp [State.Owes, next, TimerService.next, State.afterTimer, State.win,
        State.attempt, timerOwes]
  · have hgate := (halone.gate_ne hv).symm
    refine h.of_quiet (Function.update_of_ne hgate _ _)
      (Function.update_of_ne hgate _ _) rfl ?_ Iff.rfl
    simp [TimerService.next, hpc, timerOwes, hv]

theorem account_drainWon (halone : Alone cfg w) (h : Account cfg s w) {v : ω}
    {rest : List ω} {g : γ}
    (ha : TimerService.Enabled (entry cfg) s.timer (.drainWon v rest g)) :
    Account cfg (next cfg s (.timer (.drainWon v rest g))) w := by
  obtain ⟨hpc, hg, hfired⟩ := ha
  obtain rfl : cfg.gate v = g := Option.some.inj hg
  by_cases hv : v = w
  · subst hv
    refine h.won (p := .shutdown) hfired ?_ ?_ rfl (owes_iff ?_ ?_ ?_ ?_) <;>
      simp [State.Owes, next, TimerService.next, State.afterTimer, State.win,
        State.attempt, shutdownOwes]
  · have hgate := (halone.gate_ne hv).symm
    refine h.of_quiet (Function.update_of_ne hgate _ _)
      (Function.update_of_ne hgate _ _) rfl Iff.rfl ?_
    simp [TimerService.next, hpc, shutdownOwes, hv]

theorem Account.of_lost (h : Account cfg s w) {v : ω}
    {b : TimerService.Action ω γ} (halone : Alone cfg w)
    (hlost : s.timer.fired (cfg.gate v) = true)
    (hafter : ∀ s : State ω γ ν κ ι τ,
      s.afterTimer cfg b = s.attempt (cfg.gate v))
    (hfired : (TimerService.next s.timer b).fired = s.timer.fired)
    (htimer : timerOwes (TimerService.next s.timer b).timer =
      timerOwes s.timer.timer)
    (hshutdown : shutdownOwes (TimerService.next s.timer b).shutdown =
      shutdownOwes s.timer.shutdown) :
    Account cfg (next cfg s (.timer b)) w := by
  have howes : ∀ p, (next cfg s (.timer b)).Owes cfg w p ↔
      s.Owes cfg w p := by
    refine owes_iff ?_ ?_ ?_ ?_ <;>
      simp [State.Owes, next, htimer, hshutdown]
  have hcalls : (next cfg s (.timer b)).callsFor cfg w =
      s.callsFor cfg w := by
    simp [next, hafter, State.attempt, State.callsFor]
  by_cases hv : v = w
  · subst hv
    refine h.lost hlost ?_ ?_ hcalls howes
    · simp [next, hfired, hlost]
    · simp [next, hafter, State.attempt]
  · have hgate := (halone.gate_ne hv).symm
    refine h.of_same ?_ ?_ hcalls howes
    · simp [next, hfired]
    · simp [next, hafter, State.attempt, hgate]

theorem Account.of_schedule (h : Account cfg s w) {v : ω}
    {b : TimerService.Action ω γ} {p : Party ι τ} (hp : v = w → s.Owes cfg w p)
    (hafter : ∀ s : State ω γ ν κ ι τ, s.afterTimer cfg b =
      s.call (.entry v) (some (cfg.coroutine v)))
    (hfired : (TimerService.next s.timer b).fired = s.timer.fired)
    (howes : ∀ q, (next cfg s (.timer b)).Owes cfg w q ↔
      s.Owes cfg w q ∧ (v = w → q ≠ p)) :
    Account cfg (next cfg s (.timer b)) w := by
  have hcalls : (next cfg s (.timer b)).callsFor cfg w = s.callsFor cfg w ++
      if v = w then [cfg.coroutine v] else [] := by
    rw [callsFor_append (s := s) (.entry v) (cfg.coroutine v)]
    · simp [Source.isFor]
    · simp [next, hafter, State.call]
  have hattempted : (next cfg s (.timer b)).attempted = s.attempted := by
    simp [next, hafter, State.call]
  have hfired' : (next cfg s (.timer b)).timer.fired = s.timer.fired := by
    simp [next, hfired]
  by_cases hv : v = w
  · subst hv
    rw [if_pos rfl] at hcalls
    refine h.called (hp rfl) (congrFun hfired' _) (congrFun hattempted _)
      hcalls fun q => ?_
    rw [howes]
    simp
  · refine h.of_same (congrFun hfired' _) (congrFun hattempted _) ?_ ?_
    · rw [hcalls, if_neg hv, List.append_nil]
    · intro q
      rw [howes]
      simp [hv]

theorem account_timer (halone : Alone cfg w) (h : Account cfg s w)
    {b : TimerService.Action ω γ}
    (ha : TimerService.Enabled (entry cfg) s.timer b) (hb : TimerStep s b) :
    Account cfg (next cfg s (.timer b)) w := by
  have hmoves : ∀ {p q : TimerService.TimerPc ω}, s.timer.timer = p →
      timerOwes q = timerOwes p →
        (timerOwes q = some w ↔ timerOwes s.timer.timer = some w) := by
    intro p q hp hq
    rw [hp, hq]
  have hshuts : ∀ {p q : TimerService.ShutdownPc ω}, s.timer.shutdown = p →
      shutdownOwes q = shutdownOwes p →
        (shutdownOwes q = some w ↔ shutdownOwes s.timer.shutdown = some w) := by
    intro p q hp hq
    rw [hp, hq]
  cases b with
  | fireWon v g => exact account_fireWon halone h ha
  | drainWon v rest g => exact account_drainWon halone h ha
  | fireLost v g =>
      obtain ⟨hpc, hg, hfired⟩ := ha
      obtain rfl : cfg.gate v = g := Option.some.inj hg
      exact h.of_lost halone hfired (fun _ => rfl) rfl (by rw [hpc]; rfl) rfl
  | drainLost v rest g =>
      obtain ⟨hpc, hg, hfired⟩ := ha
      obtain rfl : cfg.gate v = g := Option.some.inj hg
      exact h.of_lost halone hfired (fun _ => rfl) rfl rfl (by rw [hpc]; rfl)
  | schedule v =>
      have hpc : s.timer.timer = .schedule v := ha
      refine h.of_schedule (p := .timer) (v := v) ?_ (fun _ => rfl) rfl ?_
      · rintro rfl
        simp [State.Owes, hpc, timerOwes]
      · refine owes_iff ?_ ?_ ?_ ?_ <;>
          simp [State.Owes, next, TimerService.next, hpc, timerOwes]
  | drainSchedule v rest =>
      have hpc : s.timer.shutdown = .schedule v rest := ha
      refine h.of_schedule (p := .shutdown) (v := v) ?_ (fun _ => rfl) rfl ?_
      · rintro rfl
        simp [State.Owes, hpc, shutdownOwes]
      · refine owes_iff ?_ ?_ ?_ ?_ <;>
          simp [State.Owes, next, TimerService.next, hpc, shutdownOwes]
  | store g c => exact hb.elim
  | relockWait =>
      rcases ha.1 with hp | hp <;>
        exact h.of_quiet rfl rfl rfl (hmoves hp rfl) Iff.rfl
  | notifyAdd v =>
      exact h.of_quiet rfl rfl rfl (by
        rw [show (TimerService.next s.timer (.notifyAdd v)).timer =
          s.timer.timer.notify from rfl, timerOwes_notify]) Iff.rfl
  | notifyShutdown =>
      exact h.of_quiet rfl rfl rfl (by
        rw [show (TimerService.next s.timer .notifyShutdown).timer =
          s.timer.timer.notify from rfl, timerOwes_notify]) (hshuts ha rfl)
  | callShutdown =>
      rcases ha with hp | hp <;>
        exact h.of_quiet rfl rfl rfl Iff.rfl (hshuts hp rfl)
  | exchangeFirst | exchangeAgain | join | lockShutdown | drainNothing v rest
  | drain v rest =>
      exact h.of_quiet rfl rfl rfl Iff.rfl (hshuts ha.1 rfl)
  | clear | unlockShutdown =>
      exact h.of_quiet rfl rfl rfl Iff.rfl (hshuts ha rfl)
  | callAdd v | lockAdd v | push v | unlockAdd v | tick =>
      exact h.of_quiet rfl rfl rfl Iff.rfl Iff.rfl
  | wait | wake | readClock | timedWait | timedWake | unlockFired v
  | unlockExit =>
      exact h.of_quiet rfl rfl rfl (hmoves ha rfl) Iff.rfl
  | _ => exact h.of_quiet rfl rfl rfl (hmoves ha.1 rfl) Iff.rfl

/-! ## Suspending and waking threads -/

omit [DecidableEq γ] [DecidableEq ν] [DecidableEq κ] [DecidableEq ι]
  [DecidableEq τ] in
/-- A suspending thread moves that neither owes the call before nor after. -/
theorem owes_of_suspend {s' : State ω γ ν κ ι τ} {v : ω} {p q : SuspendPc}
    (htimer : s'.timer.timer = s.timer.timer)
    (hshutdown : s'.timer.shutdown = s.timer.shutdown)
    (hdelivery : s'.delivery = s.delivery)
    (hsuspend : s'.suspend = Function.update s.suspend v q)
    (hp : s.suspend v = p) (hpne : p ≠ .schedule) (hqne : q ≠ .schedule)
    (r : Party ι τ) : s'.Owes cfg w r ↔ s.Owes cfg w r := by
  refine owes_iff ?_ ?_ ?_ ?_ r
  · simp only [State.Owes, htimer]
  · simp only [State.Owes, hshutdown]
  · intro i t
    simp only [State.Owes, hdelivery]
  · simp only [State.Owes, hsuspend]
    by_cases hv : w = v
    · subst hv
      rw [Function.update_self, hp]
      exact iff_of_false hqne hpne
    · rw [Function.update_of_ne hv]

omit [DecidableEq ω] [DecidableEq γ] [DecidableEq ν] [DecidableEq κ] in
/-- Who owes a call after a waking thread has moved. -/
theorem owes_of_deliver {s' : State ω γ ν κ ι τ} {i : ι} {t : τ}
    {q : Delivery γ} {P : Party ι τ → Prop}
    (hsuspend : s'.suspend = s.suspend)
    (htimer : s'.timer.timer = s.timer.timer)
    (hshutdown : s'.timer.shutdown = s.timer.shutdown)
    (hdelivery : s'.delivery = (s.deliveryTo i t q).delivery)
    (hmover : q = .schedule (some (cfg.gate w)) ↔ P (.waker i t))
    (hothers : ∀ p, p ≠ .waker i t → (P p ↔ s.Owes cfg w p))
    (p : Party ι τ) : s'.Owes cfg w p ↔ P p := by
  refine owes_iff ?_ ?_ ?_ ?_ p
  · rw [hothers .timer nofun]
    simp only [State.Owes, htimer]
  · rw [hothers .shutdown nofun]
    simp only [State.Owes, hshutdown]
  · intro k u
    simp only [State.Owes, hdelivery, delivery_deliveryTo]
    by_cases hk : k = i ∧ u = t
    · obtain ⟨rfl, rfl⟩ := hk
      rw [if_pos ⟨rfl, rfl⟩]
      exact hmover
    · rw [if_neg hk, hothers _ fun heq => hk (by simpa using heq)]
      simp only [State.Owes]
  · rw [hothers .recheck nofun]
    simp only [State.Owes, hsuspend]

omit [DecidableEq ω] [DecidableEq γ] [DecidableEq ν] [DecidableEq κ] in
/-- A waking thread moves that neither owes the call before nor after. -/
theorem owes_of_delivery {s' : State ω γ ν κ ι τ} {i : ι} {t : τ}
    {q : Delivery γ} (hpne : s.delivery i t ≠ .schedule (some (cfg.gate w)))
    (hqne : q ≠ .schedule (some (cfg.gate w)))
    (hsuspend : s'.suspend = s.suspend)
    (htimer : s'.timer.timer = s.timer.timer)
    (hshutdown : s'.timer.shutdown = s.timer.shutdown)
    (hdelivery : s'.delivery = (s.deliveryTo i t q).delivery)
    (p : Party ι τ) : s'.Owes cfg w p ↔ s.Owes cfg w p :=
  owes_of_deliver hsuspend htimer hshutdown hdelivery
    (iff_of_false hqne hpne) (fun _ _ => Iff.rfl) p

omit [DecidableEq ν] [DecidableEq κ] [DecidableEq ι] [DecidableEq τ] in
/-- The gate of a wait is initialised before anybody can set it. -/
theorem fired_of_initialised (halone : Alone cfg w) (h : Private cfg s w)
    {v : ω} (hearly : (s.suspend v).isEarly = true) :
    Function.update s.timer.fired (cfg.gate v) false (cfg.gate w) =
      s.timer.fired (cfg.gate w) := by
  by_cases hv : v = w
  · subst hv
    rw [Function.update_self, (h.early hearly).1]
  · exact Function.update_of_ne (halone.gate_ne hv).symm _ _

theorem account_casWon (halone : Alone cfg w) (h : Account cfg s w) {v : ω}
    (ha : Enabled cfg s (.casWon v)) :
    Account cfg (next cfg s (.casWon v)) w := by
  by_cases hv : v = w
  · subst hv
    refine h.won (p := .recheck) ha.2 ?_ ?_ rfl (owes_iff ?_ ?_ ?_ ?_) <;>
      simp [State.Owes, next, State.win, State.attempt, State.storeGate,
        State.suspendTo]
  · have hgate := (halone.gate_ne hv).symm
    have hwv : w ≠ v := Ne.symm hv
    refine h.of_same ?_ ?_ rfl (owes_iff Iff.rfl Iff.rfl ?_ ?_)
    · exact Function.update_of_ne hgate _ _
    · exact Function.update_of_ne hgate _ _
    · exact fun i t => Iff.rfl
    · simp [State.Owes, next, State.win, State.attempt, State.storeGate,
        State.suspendTo, hwv]

theorem account_casLost (halone : Alone cfg w) (h : Account cfg s w) {v : ω}
    (ha : Enabled cfg s (.casLost v)) :
    Account cfg (next cfg s (.casLost v)) w := by
  have howes : ∀ p, (next cfg s (.casLost v)).Owes cfg w p ↔
      s.Owes cfg w p :=
    owes_of_suspend rfl rfl rfl rfl ha.1 nofun nofun
  by_cases hv : v = w
  · subst hv
    exact h.lost ha.2 ha.2 (Function.update_self _ _ _) rfl howes
  · have hgate := (halone.gate_ne hv).symm
    exact h.of_same rfl (Function.update_of_ne hgate _ _) rfl howes

theorem account_schedule (h : Account cfg s w) {v : ω}
    (ha : Enabled cfg s (.schedule v)) :
    Account cfg (next cfg s (.schedule v)) w := by
  have hcalls : (next cfg s (.schedule v)).callsFor cfg w = s.callsFor cfg w ++
      if (Source.recheck v : Source ω ν).isFor cfg w then [cfg.coroutine v]
      else [] := callsFor_append (.recheck v) (cfg.coroutine v) rfl
  by_cases hv : v = w
  · subst hv
    have hcalls' : (next cfg s (.schedule v)).callsFor cfg v =
        s.callsFor cfg v ++ [cfg.coroutine v] := by
      simpa [Source.isFor] using hcalls
    refine h.called (p := .recheck) ha rfl rfl hcalls'
      (owes_iff ?_ ?_ ?_ ?_) <;>
      simp [State.Owes, next, State.call, State.suspendTo]
  · have hcalls' : (next cfg s (.schedule v)).callsFor cfg w =
        s.callsFor cfg w := by
      simpa [Source.isFor, hv] using hcalls
    have hwv : w ≠ v := Ne.symm hv
    refine h.of_same rfl rfl hcalls' (owes_iff Iff.rfl Iff.rfl ?_ ?_)
    · exact fun i t => Iff.rfl
    · simp [State.Owes, next, State.call, State.suspendTo, hwv]

theorem account_gateWon (h : Account cfg s w) {i : ι} {t : τ} {n : ν}
    {r : Option ν} {g : γ} (ha : Enabled cfg s (.gateWon i t n r g)) :
    Account cfg (next cfg s (.gateWon i t n r g)) w := by
  by_cases hg : g = cfg.gate w
  · subst hg
    refine h.won (p := .waker i t) ha.2.2 (Function.update_self _ _ _)
      (Function.update_self _ _ _) rfl
      (owes_of_deliver (s := s) rfl rfl rfl rfl ?_ ?_)
    · exact iff_of_true rfl (.inr rfl)
    · exact fun p hp => or_iff_left hp
  · have hgate : cfg.gate w ≠ g := Ne.symm hg
    refine h.of_same (Function.update_of_ne hgate _ _)
      (Function.update_of_ne hgate _ _) rfl
      (owes_of_delivery (q := .schedule (some g)) ?_ ?_ rfl rfl rfl rfl)
    · rw [ha.1]
      nofun
    · simpa using hg

theorem account_gateLost (h : Account cfg s w) {i : ι} {t : τ} {n : ν}
    {r : Option ν} {g : γ} (ha : Enabled cfg s (.gateLost i t n r g)) :
    Account cfg (next cfg s (.gateLost i t n r g)) w := by
  have howes : ∀ p, (next cfg s (.gateLost i t n r g)).Owes cfg w p ↔
      s.Owes cfg w p := by
    refine owes_of_delivery (q := .testHandle) ?_ nofun rfl rfl rfl rfl
    rw [ha.1]
    nofun
  by_cases hg : g = cfg.gate w
  · subst hg
    exact h.lost ha.2.2 ha.2.2 (Function.update_self _ _ _) rfl howes
  · have hgate : cfg.gate w ≠ g := Ne.symm hg
    exact h.of_same rfl (Function.update_of_ne hgate _ _) rfl howes

/-- A waking thread schedules whom it has found: the coroutine of the wait if
it has won its gate, and otherwise not on behalf of the wait. -/
theorem account_deliver (hprivate : Private cfg s w) (h : Account cfg s w)
    {i : ι} {t : τ} {n : ν} {r : Option ν} {g : Option γ}
    (ha : Enabled cfg s (.deliver i t n r g)) :
    Account cfg (next cfg s (.deliver i t n r g)) w := by
  obtain ⟨hdelivery, hpc⟩ := ha
  have hcarries := hprivate.carries i t
  rw [Carries, hdelivery] at hcarries
  have hnode : g = some (cfg.gate w) ↔ n ∈ nodes cfg w := by
    cases g with
    | none =>
        obtain ⟨m, o, hm, hmem⟩ := hcarries
        obtain ⟨rfl, rfl⟩ : n = m ∧ r = o := by simpa [hpc] using hm
        exact iff_of_false (by simp) hmem
    | some g =>
        obtain ⟨m, o, hm, hiff⟩ := hcarries
        obtain ⟨rfl, rfl⟩ : n = m ∧ r = o := by simpa [hpc] using hm
        rw [← hiff, Option.some.injEq]
  by_cases hmem : n ∈ nodes cfg w
  · have hhandle := (hprivate.registered_of_deliver hpc hmem).1
    obtain rfl := hnode.mpr hmem
    have hcalls : (next cfg s (.deliver i t n r (some (cfg.gate w)))).callsFor
        cfg w = s.callsFor cfg w ++ [cfg.coroutine w] := by
      rw [callsFor_append (s := s) (.node n) (cfg.coroutine w), if_pos]
      · simpa [Source.isFor] using hmem
      · simp [next, State.call, State.delivered, State.listTo,
          State.deliveryTo, hhandle]
    refine h.called (p := .waker i t) hdelivery rfl rfl hcalls
      (owes_of_deliver (s := s) (q := .testHandle) rfl rfl rfl rfl ?_ ?_)
    · exact iff_of_false (by simp) fun hboth => hboth.2 rfl
    · exact fun p hp => and_iff_left hp
  · refine h.of_same rfl rfl ?_
      (owes_of_delivery (q := .testHandle) ?_ (by simp) rfl rfl rfl rfl)
    · cases hhandle : s.handle n with
      | none =>
          simp [next, State.call, State.callsFor, State.delivered,
            State.listTo, State.deliveryTo, hhandle]
      | some k =>
          rw [callsFor_append (s := s) (.node n) k]
          · simp [Source.isFor, hmem]
          · simp [next, State.call, State.delivered, State.listTo,
              State.deliveryTo, hhandle]
    · rw [hdelivery]
      intro heq
      exact hmem (hnode.mp (by simpa using heq))

theorem account_next (halone : Alone cfg w) (hprivate : Private cfg s w)
    (h : Account cfg s w) (ha : Enabled cfg s a) :
    Account cfg (next cfg s a) w := by
  have hstays : ∀ {v : ω} {p q : SuspendPc} {s' : State ω γ ν κ ι τ},
      s'.timer = s.timer → s'.delivery = s.delivery →
        s'.suspend = Function.update s.suspend v q →
          s'.attempted = s.attempted → s'.calls = s.calls →
            s.suspend v = p → p ≠ .schedule → q ≠ .schedule →
              Account cfg s' w := by
    intro v p q s' htimer hdelivery hsuspend hattempted hcalls hp hpne hqne
    refine h.of_same (by rw [htimer]) (by rw [hattempted]) ?_
      (owes_of_suspend (by rw [htimer]) (by rw [htimer]) hdelivery hsuspend
        hp hpne hqne)
    simp only [State.callsFor, hcalls]
  have hregister : ∀ v k, register cfg v k ≠ .schedule :=
    register_ne nofun nofun
  have hstore : ∀ v, afterStore cfg v ≠ .schedule :=
    afterStore_ne nofun nofun nofun
  cases a with
  | construct v =>
      refine h.of_same (fired_of_initialised halone hprivate ?_) rfl rfl
        (owes_of_suspend rfl rfl rfl rfl ha.1 nofun nofun)
      rw [ha.1]
      rfl
  | storeGate v =>
      refine h.of_same (fired_of_initialised halone hprivate ?_) rfl rfl
        (owes_of_suspend rfl rfl rfl rfl ha nofun (hstore v))
      rw [show s.suspend v = .storeGate from ha]
      rfl
  | timer b => exact account_timer halone h ha.1 ha.2
  | casWon v => exact account_casWon halone h ha
  | casLost v => exact account_casLost halone h ha
  | schedule v => exact account_schedule h ha
  | gateWon i t n r g => exact account_gateWon h ha
  | gateLost i t n r g => exact account_gateLost h ha
  | deliver i t n r g => exact account_deliver hprivate h ha
  | handleNull i t n r =>
      refine h.of_same rfl rfl rfl
        (owes_of_delivery (q := .testHandle) ?_ nofun rfl rfl rfl rfl)
      rw [ha.1]
      nofun
  | handleFound i t n r =>
      refine h.of_same rfl rfl rfl
        (owes_of_delivery (q := .testGate) ?_ nofun rfl rfl rfl rfl)
      rw [ha.1]
      nofun
  | gateRead i t n r =>
      refine h.of_same rfl rfl rfl
        (owes_of_delivery (q := .ofGate (s.gate n)) ?_ ?_ rfl rfl rfl rfl)
      · rw [ha.1]
        nofun
      · cases s.gate n <;> nofun
  | readyTrue v e => exact hstays rfl rfl rfl rfl rfl ha.1 nofun nofun
  | addedTimer v =>
      exact hstays rfl rfl rfl rfl rfl ha.1 nofun (hregister v 0)
  | added v j i =>
      exact hstays rfl rfl rfl rfl rfl ha.1 nofun (hregister v (j + 1))
  | callAdd v j i => exact hstays rfl rfl rfl rfl rfl ha.1 nofun nofun
  | readyFalse v | setHandle v j | setGate v j | recheckEmpty v
  | recheckFound v => exact hstays rfl rfl rfl rfl rfl ha nofun nofun
  | list i b | resume v | finish v c =>
      exact h.of_same rfl rfl rfl fun _ => Iff.rfl

theorem account_of_reachable (halone : Alone cfg w)
    (hs : (system cfg τ).Reachable s) : Account cfg s w := by
  refine hs.invariant_of (J := fun s => Private cfg s w)
    (fun s => Account cfg s w) ?_ ?_ ?_
  · exact fun s hs => private_of_reachable halone hs
  · rintro s ⟨clock, rfl⟩
    refine OneShot.initial.congr (owes_iff ?_ ?_ ?_ ?_) <;>
      simp [State.Owes, initialState, TimerService.initialState, timerOwes,
        shutdownOwes]
  · exact fun s a hJ h ha => account_next halone hJ h ha

/-- A wait whose gate and nodes no other wait uses is resumed at most once, and
exactly once in every state in which its gate has been attempted and nobody
has won it without having scheduled yet. -/
theorem resumedOnce_of_reachable (halone : Alone cfg w)
    (hs : (system cfg τ).Reachable s) : ResumedOnce cfg s w where
  atMostOnce := by
    rcases (account_of_reachable halone hs).calls_eq with hcalls | hcalls
    · simp [hcalls]
    · simp [hcalls]
  itsCoroutine := by
    rcases (account_of_reachable halone hs).calls_eq with hcalls | hcalls
    · simp [hcalls]
    · simp [hcalls]
  once hattempted hnobody :=
    (account_of_reachable halone hs).calls_of_attempted hattempted hnobody

end Steps

/-! ## A timer against a wake -/

/-- A timed wait on one list and a select over two lists. -/
def timedAndSelect : Config Bool Bool (Bool × ℕ) Bool Bool where
  gate := id
  node := Prod.mk
  coroutine := id
  deadline w := if w then none else some 0
  lists w := if w then [false, true] else [false]
  node_injective _ _ _ h := congrArg Prod.snd h

/-- The timed wait registers its timer and its node. -/
def registerTimed : List (Action Bool Bool (Bool × ℕ) Bool Bool Unit) :=
  [.construct false, .readyFalse false, .storeGate false,
    .timer (.callAdd false), .timer (.lockAdd false), .timer (.push false),
    .timer (.unlockAdd false), .timer (.notifyAdd false), .addedTimer false,
    .setHandle false 0, .setGate false 0, .callAdd false 0 false,
    .list false (.addLoad (.inr false) (false, 0)),
    .list false (.addLink (.inr false) (false, 0) none),
    .list false (.addCas (.inr false) (false, 0) none), .added false 0 false]

/-- The timer thread wins the gate while a call of `wake_one` has the node in
its hands. -/
def timerBeatsWake : List (Action Bool Bool (Bool × ℕ) Bool Bool Unit) :=
  [.recheckEmpty false, .timer .lockTimer, .timer .loadRunningTrue,
    .timer .heapNotEmpty, .timer .readClock, .timer (.pop 0 false),
    .list false (.callWakeOne (.inl ())), .list false (.wakeLoad (.inl ())),
    .list false (.wakeNext (.inl ()) (false, 0)),
    .list false (.wakeCas (.inl ()) (false, 0) none),
    .handleFound false () (false, 0) none,
    .gateRead false () (false, 0) none, .timer (.fireWon false false),
    .gateLost false () (false, 0) none false,
    .timer (.unlockFired false), .timer (.schedule false), .resume false]

theorem resumedOnce_timerBeatsWake :
    let s := (system timedAndSelect Unit).after
      (initialState Bool Bool (Bool × ℕ) Bool Bool Unit 0)
      (registerTimed ++ timerBeatsWake)
    ResumedOnce timedAndSelect s false ∧ s.attempted false = true ∧
      s.callsFor timedAndSelect false = [false] := by
  intro s
  refine ⟨?_, by decide, by decide⟩
  refine resumedOnce_of_reachable (by decide) ?_
  exact TransitionSystem.Executes.reachable (.init ⟨_, rfl⟩) (by decide)

end GatedWait
end Ethreads
