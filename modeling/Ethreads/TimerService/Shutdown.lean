import Ethreads.Scheduler.Wakeup
import Ethreads.TimerService.Model

/-!
# Shutdown and the waits of the service threads

The stop flags are stored and the notifications sent without the mutex that
the waiting threads use.  A thread that has tested the flag before it was
stored, and enters its wait after the notification, waits for nobody.  A
coroutine worker is safe when it still finds a handle in the external queue,
and the timer thread when it has not yet read `running_` for the predicate of
its wait.
-/

namespace Ethreads

/-! ## Coroutine workers -/

namespace Scheduler

variable {k : ℕ} {C : Type*}

/-- The destructor has issued its notification. -/
def DestructorPc.hasNotified : DestructorPc → Bool
  | close | join _ | cleared => true
  | _ => false

/-- The destructor has notified and a worker is blocked in its wait. -/
def Unnotified (s : State k C) : Prop :=
  s.destructor.hasNotified = true ∧ ∃ w, s.worker w = .waiting

/-- The worker is about to look into the external queue, without testing the
flag before. -/
def WorkerPc.looks : WorkerPc C → ℕ
  | popOwn | tryReceive => 1
  | _ => 0

/-- `notify_all` is called while every worker either tests the flag again or
finds a handle in the external queue before it would wait. -/
def NotifiesWorkers (s : State k C) : Action k C → Prop
  | .notifyAll => (∀ w, (s.worker w).committed = false) ∧
      tally WorkerPc.looks s.worker ≤ s.externalCoroQueue.length
  | _ => True

instance (s : State k C) (a : Action k C) :
    Decidable (NotifiesWorkers s a) := by
  induction a using Action.casesOn <;> dsimp only [NotifiesWorkers] <;>
    infer_instance

/-- Nobody waits or will wait after the notification. -/
structure Leaving (s : State k C) : Prop where
  shuttingDown : s.destructor ≠ .alive → s.shuttingDown = true
  waiting : s.destructor.hasNotified = true → ∀ w, s.worker w ≠ .waiting
  committed : s.destructor.hasNotified = true →
    ∀ w, (s.worker w).committed = false
  looks : s.destructor.hasNotified = true →
    tally WorkerPc.looks s.worker ≤ s.externalCoroQueue.length

theorem looks_mark (p : WorkerPc C) : p.mark.looks = p.looks := by
  cases p <;> rfl

theorem committed_mark (p : WorkerPc C) :
    p.mark.committed = p.committed := by
  cases p <;> rfl

theorem mark_ne_waiting (p : WorkerPc C) : p.mark ≠ .waiting := by
  cases p <;> simp [WorkerPc.mark]

theorem not_hasNotified_of_shuttingDown {s : State k C} (h : Leaving s)
    (hopen : s.shuttingDown = false) :
    s.destructor.hasNotified = false := by
  by_contra hnotified
  have halive : s.destructor ≠ .alive := by
    intro hd
    rw [hd] at hnotified
    exact hnotified rfl
  exact absurd ((h.shuttingDown halive).symm.trans hopen) (by simp)

section Steps

variable [DecidableEq C] {s s' : State k C}

omit [DecidableEq C] in
theorem Leaving.of_worker (h : Leaving s) {w : Fin k} {p q : WorkerPc C}
    (hp : s.worker w = p) (hw : s'.worker = Function.update s.worker w q)
    (hdestructor : s'.destructor = s.destructor)
    (hflag : s'.shuttingDown = s.shuttingDown)
    (hwaiting : s.destructor.hasNotified = true → q ≠ .waiting)
    (hcommitted : s.destructor.hasNotified = true → q.committed = false)
    (hlooks : s.destructor.hasNotified = true →
      q.looks + s.externalCoroQueue.length ≤
        p.looks + s'.externalCoroQueue.length) : Leaving s' := by
  constructor
  · rw [hdestructor, hflag]
    exact h.shuttingDown
  · intro hn v
    rw [hdestructor] at hn
    rw [hw]
    by_cases hv : v = w
    · rw [hv, Function.update_self]
      exact hwaiting hn
    · rw [Function.update_of_ne hv]
      exact h.waiting hn v
  · intro hn v
    rw [hdestructor] at hn
    rw [hw]
    by_cases hv : v = w
    · rw [hv, Function.update_self]
      exact hcommitted hn
    · rw [Function.update_of_ne hv]
      exact h.committed hn v
  · intro hn
    rw [hdestructor] at hn
    have htally := tally_update WorkerPc.looks s.worker w q
    have hbefore := h.looks hn
    have hmoved := hlooks hn
    rw [hp] at htally
    rw [hw]
    omega

omit [DecidableEq C] in
theorem Leaving.of_same (h : Leaving s) (hw : s'.worker = s.worker)
    (hdestructor : s'.destructor = s.destructor)
    (hflag : s'.shuttingDown = s.shuttingDown)
    (hqueue : s.externalCoroQueue.length ≤ s'.externalCoroQueue.length) :
    Leaving s' := by
  constructor
  · rw [hdestructor, hflag]
    exact h.shuttingDown
  · rw [hdestructor, hw]
    exact h.waiting
  · rw [hdestructor, hw]
    exact h.committed
  · rw [hdestructor, hw]
    exact fun hn => (h.looks hn).trans hqueue

omit [DecidableEq C] in
theorem Leaving.of_destructor (h : Leaving s)
    (hn : s.destructor.hasNotified = true) (hw : s'.worker = s.worker)
    (hflag : s'.shuttingDown = s.shuttingDown)
    (hqueue : s'.externalCoroQueue = s.externalCoroQueue) :
    Leaving s' := by
  have halive : s.destructor ≠ .alive := by
    intro hd
    rw [hd] at hn
    exact absurd hn (by simp [DestructorPc.hasNotified])
  constructor
  · rw [hflag]
    exact fun _ => h.shuttingDown halive
  · rw [hw]
    exact fun _ => h.waiting hn
  · rw [hw]
    exact fun _ => h.committed hn
  · rw [hw, hqueue]
    exact fun _ => h.looks hn

omit [DecidableEq C] in
/-- A worker that looks into the queue finds something, as there are no more
such workers than handles. -/
theorem Leaving.queue_ne_nil (h : Leaving s)
    (hn : s.destructor.hasNotified = true) {w : Fin k}
    (hw : s.worker w = .tryReceive) : s.externalCoroQueue ≠ [] := by
  intro hnil
  have hle := le_tally WorkerPc.looks s.worker w
  have hlooks := h.looks hn
  rw [hnil, List.length_nil] at hlooks
  rw [hw] at hle
  simp only [WorkerPc.looks] at hle
  omega

theorem leaving_next {cfg : Config C} {a : Action k C} (hreg : Regular s)
    (h : Leaving s) (ha : Enabled cfg s a) (hP : NotifiesWorkers s a) :
    Leaving (next s a) := by
  have hfree : ∀ (w : Fin k), (s.worker w).committed = true →
      ¬s.destructor.hasNotified = true := by
    intro w hw hn
    exact absurd ((h.committed hn w).symm.trans hw) (by simp)
  have hstay : ∀ {s' : State k C} (w : Fin k) {p q : WorkerPc C},
      s.worker w = p → p.committed = true →
      s'.worker = Function.update s.worker w q →
      s'.destructor = s.destructor → s'.shuttingDown = s.shuttingDown →
        Leaving s' := by
    intro s' w p q hp hc hw hd hflag
    have hnot := hfree w (by rw [hp]; exact hc)
    exact h.of_worker hp hw hd hflag (fun hn => absurd hn hnot)
      (fun hn => absurd hn hnot) fun hn => absurd hn hnot
  cases a with
  | enterLoop w =>
      have hnot : ¬s.destructor.hasNotified = true := by
        rw [not_hasNotified_of_shuttingDown h ha.2]
        simp
      exact h.of_worker ha.1 rfl rfl rfl (fun hn => absurd hn hnot)
        (fun hn => absurd hn hnot) fun hn => absurd hn hnot
  | popOwn w c =>
      exact absurd ha.2 (by simp [hreg.localQueue])
  | receive w c =>
      have hqueue : s.externalCoroQueue.length =
          s.externalCoroQueue.tail.length + 1 := by
        rw [List.length_tail]
        have hpos : 0 < s.externalCoroQueue.length := by
          apply List.length_pos_of_mem
          exact List.mem_of_mem_head? ha.2
        omega
      refine h.of_worker ha.1 rfl rfl rfl (by simp) (fun _ => rfl) fun _ => ?_
      simp only [WorkerPc.looks, next]
      omega
  | receiveEmpty w =>
      have hnot : ¬s.destructor.hasNotified = true := fun hn =>
        h.queue_ne_nil hn ha.1 ha.2
      exact h.of_worker ha.1 rfl rfl rfl (fun hn => absurd hn hnot)
        (fun hn => absurd hn hnot) fun hn => absurd hn hnot
  | chooseStart w _ | seekNobody w | skipSelf w _ _ | steal w _ _ _
  | stealEmpty w _ _ | stealDone w _ _ | resumeStolen w _ _ _
  | discardStolen w _ _ _ | lockWork w =>
      exact hstay w ha.1 rfl rfl rfl rfl
  | wait w => exact hstay w ha rfl rfl rfl rfl
  | relock w =>
      rcases ha.1 with hp | hp
      · exact h.of_worker hp rfl rfl rfl (by simp) (fun _ => rfl)
          fun _ => le_rfl
      · exact h.of_worker hp rfl rfl rfl (by simp) (fun _ => rfl)
          fun _ => le_rfl
  | leaveLoop w | popOwnEmpty w | resume w _ | discard w _ =>
      exact h.of_worker ha.1 rfl rfl rfl (by simp) (fun _ => rfl)
        fun _ => le_rfl
  | suspend w | wake w | unlockWork w =>
      exact h.of_worker ha rfl rfl rfl (by simp) (fun _ => rfl)
        fun _ => le_rfl
  | notifyOne c w =>
      exact h.of_worker ha.2 rfl rfl rfl (by simp) (fun _ => rfl)
        fun _ => le_rfl
  | push c =>
      refine h.of_same rfl rfl rfl ?_
      simp [next]
  | storeShuttingDown =>
      exact ⟨fun _ => rfl, by rintro ⟨⟩, by rintro ⟨⟩, by rintro ⟨⟩⟩
  | notifyAll =>
      have hd : s.destructor = .notifyAll := ha
      refine ⟨fun _ => h.shuttingDown (by simp [hd]), ?_, ?_, ?_⟩
      · exact fun _ w => mark_ne_waiting (s.worker w)
      · exact fun _ w => (committed_mark (s.worker w)).trans (hP.1 w)
      · intro _
        rw [show tally WorkerPc.looks (next s .notifyAll).worker =
          tally WorkerPc.looks s.worker from
            tally_congr fun w => looks_mark (s.worker w)]
        exact hP.2
  | close =>
      have hd : s.destructor = .close := ha
      exact h.of_destructor (by rw [hd]; rfl) rfl rfl rfl
  | join w => exact h.of_destructor (by rw [ha.1]; rfl) rfl rfl rfl
  | clear =>
      have hd : s.destructor = .join k := ha
      exact h.of_destructor (by rw [hd]; rfl) rfl rfl rfl
  | _ => exact h.of_same rfl rfl rfl le_rfl

theorem leaving_reachable {cfg : Config C}
    (hs : (system cfg k).ReachableWhere NotifiesWorkers s) : Leaving s := by
  refine hs.invariant_of Leaving
    (fun s hs => regular_reachable hs.reachable) ?_
    fun s a hreg h ha hP => leaving_next hreg h ha hP
  rintro s ⟨isDone, rfl⟩
  exact ⟨fun hd => absurd rfl hd, nofun, nofun, nofun⟩

/-! ### A missed notification -/

theorem leads_next {cfg : Config C} {a : Action k C} (ha : Enabled cfg s a) :
    (system cfg k).Leads s (next s a) :=
  .step (.refl s) ha

/-- A committed worker comes to its wait, or one that holds the mutex does. -/
theorem Regular.leads_unnotified (cfg : Config C) (h : Regular s)
    (hn : s.destructor.hasNotified = true) {w : Fin k}
    (hw : (s.worker w).committed = true) :
    ∃ s', (system cfg k).Leads s s' ∧ Unnotified s' := by
  induction hd : (s.worker w).distance k using Nat.strong_induction_on
    generalizing s with
  | _ n ih =>
    by_cases hfree : s.worker w = .lockWork → s.coroWorkMutex = none
    · obtain ⟨a, q, ha, hworker, hq, hcloser, -, -, -, hdestructor⟩ :=
        h.exists_step cfg hw hfree
      have hself : (next s a).worker w = q := by
        rw [hworker, Function.update_self]
      have hstep := leads_next ha
      rcases hq with hq | rfl
      · obtain ⟨s', hleads, hs'⟩ := ih (q.distance k) (hd ▸ hcloser)
          (regular_next h ha) (hdestructor ▸ hn) (by rw [hself, hq])
          (by rw [hself])
        exact ⟨s', hstep.trans hleads, hs'⟩
      · exact ⟨next s a, hstep, hdestructor ▸ hn, w, hself⟩
    · push Not at hfree
      obtain ⟨hlock, hheld⟩ := hfree
      obtain ⟨v, hv⟩ := Option.ne_none_iff_exists'.mp hheld
      have hvw : v ≠ w := by
        rintro rfl
        have hinside := (h.exclusive v).mpr hv
        rw [hlock] at hinside
        exact absurd hinside (by simp [WorkerPc.holdsMutex])
      have hinside := (h.exclusive v).mpr hv
      cases hp : s.worker v with
      | enterWait =>
          have ha : Enabled cfg s (.wait v) := hp
          exact ⟨_, leads_next ha, hn, v, Function.update_self _ _ _⟩
      | unlockWork =>
          have ha : Enabled cfg s (.unlockWork v) := hp
          have hother : (next s (.unlockWork v)).worker w = .lockWork := by
            rw [← hlock]
            exact Function.update_of_ne hvw.symm _ _
          have hlocks : Enabled cfg (next s (.unlockWork v))
              (.lockWork w) := ⟨hother, rfl⟩
          have hself : (next (next s (.unlockWork v)) (.lockWork w)).worker w =
              .enterWait := Function.update_self _ _ _
          have hleads : (system cfg k).Leads s
              (next (next s (.unlockWork v)) (.lockWork w)) :=
            (leads_next ha).trans (leads_next hlocks)
          obtain ⟨s', hs, hs'⟩ := ih 1
            (by rw [← hd, hlock]; simp [WorkerPc.distance])
            (regular_next (regular_next h ha) hlocks) hn
            (by rw [hself]; rfl) (by rw [hself]; rfl)
          exact ⟨s', hleads.trans hs, hs'⟩
      | _ =>
          rw [hp] at hinside
          exact absurd hinside (by simp [WorkerPc.holdsMutex])

/-- How many workers are still to look into their own deques. -/
def WorkerPc.popsOwn : WorkerPc C → ℕ
  | popOwn => 1
  | _ => 0

/-- When more workers look into the queue than there are handles, one of them
finds it empty. -/
theorem Regular.leads_committed (cfg : Config C) (h : Regular s)
    (hn : s.destructor.hasNotified = true)
    (hlooks : s.externalCoroQueue.length < tally WorkerPc.looks s.worker) :
    ∃ s' w, (system cfg k).Leads s s' ∧ Regular s' ∧
      s'.destructor.hasNotified = true ∧ (s'.worker w).committed = true := by
  induction hd : s.externalCoroQueue.length + tally WorkerPc.popsOwn s.worker
    using Nat.strong_induction_on generalizing s with
  | _ n ih =>
    obtain ⟨w, hw⟩ := tally_pos_iff.mp (Nat.zero_lt_of_lt hlooks)
    cases hp : s.worker w with
    | popOwn =>
        have ha : Enabled cfg s (.popOwnEmpty w) :=
          ⟨hp, h.localQueue w⟩
        have hpops := tally_update WorkerPc.popsOwn s.worker w .tryReceive
        have hlook := tally_update WorkerPc.looks s.worker w .tryReceive
        rw [hp] at hpops hlook
        simp only [WorkerPc.popsOwn, WorkerPc.looks] at hpops hlook
        have hworker : (next s (.popOwnEmpty w)).worker =
            Function.update s.worker w .tryReceive := rfl
        have hless : (next s (.popOwnEmpty w)).externalCoroQueue.length +
            tally WorkerPc.popsOwn (next s (.popOwnEmpty w)).worker < n := by
          rw [hworker]
          simp only [next, State.workerTo]
          omega
        have hmore : (next s (.popOwnEmpty w)).externalCoroQueue.length <
            tally WorkerPc.looks (next s (.popOwnEmpty w)).worker := by
          rw [hworker]
          simp only [next, State.workerTo]
          omega
        obtain ⟨s', v, hleads, hs'⟩ :=
          ih _ hless (regular_next h ha) hn hmore rfl
        exact ⟨s', v, (leads_next ha).trans hleads, hs'⟩
    | tryReceive =>
        cases hqueue : s.externalCoroQueue with
        | nil =>
            have ha : Enabled cfg s (.receiveEmpty w) := ⟨hp, hqueue⟩
            have hself : (next s (.receiveEmpty w)).worker w = .seekVictim :=
              Function.update_self _ _ _
            exact ⟨_, w, leads_next ha, regular_next h ha, hn,
              by rw [hself]; rfl⟩
        | cons c cs =>
            have ha : Enabled cfg s (.receive w c) :=
              ⟨hp, by rw [hqueue]; rfl⟩
            have hpops := tally_update WorkerPc.popsOwn s.worker w (.found c)
            have hlook := tally_update WorkerPc.looks s.worker w (.found c)
            have hlength : s.externalCoroQueue.length = cs.length + 1 := by
              rw [hqueue, List.length_cons]
            rw [hp] at hpops hlook
            simp only [WorkerPc.popsOwn, WorkerPc.looks] at hpops hlook
            have htail : (next s (.receive w c)).externalCoroQueue = cs := by
              rw [show (next s (.receive w c)).externalCoroQueue =
                s.externalCoroQueue.tail from rfl, hqueue, List.tail_cons]
            have hworker : (next s (.receive w c)).worker =
                Function.update s.worker w (.found c) := rfl
            have hless : (next s (.receive w c)).externalCoroQueue.length +
                tally WorkerPc.popsOwn (next s (.receive w c)).worker < n := by
              rw [htail, hworker]
              omega
            have hmore : (next s (.receive w c)).externalCoroQueue.length <
                tally WorkerPc.looks (next s (.receive w c)).worker := by
              rw [htail, hworker]
              omega
            obtain ⟨s', v, hleads, hs'⟩ :=
              ih _ hless (regular_next h ha) hn hmore rfl
            exact ⟨s', v, (leads_next ha).trans hleads, hs'⟩
    | _ =>
        rw [hp] at hw
        exact absurd hw (by simp [WorkerPc.looks])

/-- The destructor leaves no worker waiting for its notification in the runs
in which no worker can miss it; after a notification that some worker can miss,
a worker can be left waiting. -/
theorem not_unnotified_of_notifiesWorkers_and_leads (cfg : Config C) (k : ℕ) :
    (∀ s, (system cfg k).ReachableWhere NotifiesWorkers s →
      ¬Unnotified s) ∧
    (∀ s a, (system cfg k).Reachable s → (system cfg k).Enabled s a →
      ¬NotifiesWorkers s a →
        ∃ s', (system cfg k).Leads ((system cfg k).next s a) s' ∧
          Unnotified s') := by
  constructor
  · rintro s hs ⟨hn, w, hw⟩
    exact (leaving_reachable hs).waiting hn w hw
  · intro s a hs ha hmisses
    have hreg := regular_next (regular_reachable hs) ha
    cases a with
    | notifyAll =>
        have hn : (next s .notifyAll).destructor.hasNotified = true := rfl
        by_cases hcommitted : ∀ w, (s.worker w).committed = false
        · have hlooks : (next s .notifyAll).externalCoroQueue.length <
              tally WorkerPc.looks (next s .notifyAll).worker := by
            rw [show tally WorkerPc.looks (next s .notifyAll).worker =
              tally WorkerPc.looks s.worker from
                tally_congr fun w => looks_mark (s.worker w)]
            by_contra hle
            exact hmisses ⟨hcommitted, not_lt.mp hle⟩
          obtain ⟨s₁, w, hleads, hreg₁, hn₁, hw⟩ :=
            hreg.leads_committed cfg hn hlooks
          obtain ⟨s', hleads', hs'⟩ := hreg₁.leads_unnotified cfg hn₁ hw
          exact ⟨s', hleads.trans hleads', hs'⟩
        · push Not at hcommitted
          obtain ⟨w, hw⟩ := hcommitted
          refine hreg.leads_unnotified cfg hn (w := w) ?_
          exact (committed_mark (s.worker w)).trans (by simpa using hw)
    | _ => exact absurd trivial hmisses

end Steps

end Scheduler

/-! ## The timer thread -/

namespace TimerService

variable {ι γ η : Type*}

/-- `shutdown` has stored the flag and issued its notification, and the timer
thread is blocked in its wait for a first timer. -/
def Unnotified (s : State ι γ) : Prop :=
  s.running = false ∧ s.shutdown ≠ .notify ∧ s.timer = .waiting

/-- `shutdown` notifies while the timer thread is not between the predicate
and its wait. -/
def NotifiesTimer (s : State ι γ) : Action ι γ → Prop
  | .notifyShutdown => s.timer ≠ .enterWait
  | _ => True

instance [DecidableEq ι] (s : State ι γ) (a : Action ι γ) :
    Decidable (NotifiesTimer s a) := by
  induction a using Action.casesOn <;> dsimp only [NotifiesTimer] <;>
    infer_instance

/-- The timer thread is neither in its wait nor about to enter it. -/
def TimerPc.awake (p : TimerPc ι) : Prop :=
  p ≠ .enterWait ∧ p ≠ .waiting

/-- The timer thread does not wait after the notification. -/
structure Leaving (s : State ι γ) : Prop where
  running : s.shutdown = .notify → s.running = false
  awake : s.running = false → s.shutdown ≠ .notify → s.timer.awake

theorem awake_notify {p : TimerPc ι} (h : p ≠ .enterWait) :
    p.notify.awake := by
  cases p with
  | enterWait => exact absurd rfl h
  | _ => simp [TimerPc.notify, TimerPc.awake]

theorem Leaving.of_timer {s s' : State ι γ} (h : Leaving s)
    (hrunning : s'.running = s.running) (hshutdown : s'.shutdown = s.shutdown)
    (hawake : s.running = false → s.timer.awake → s'.timer.awake) :
    Leaving s' := by
  constructor
  · rw [hrunning, hshutdown]
    exact h.running
  · intro hr hs
    rw [hrunning] at hr
    rw [hshutdown] at hs
    exact hawake hr (h.awake hr hs)

theorem Leaving.of_shutdown {s s' : State ι γ} (h : Leaving s)
    (hrunning : s'.running = s.running) (htimer : s'.timer = s.timer)
    (hbefore : s.shutdown ≠ .notify) (hafter : s'.shutdown ≠ .notify) :
    Leaving s' := by
  constructor
  · exact fun hs => absurd hs hafter
  · intro hr _
    rw [hrunning] at hr
    rw [htimer]
    exact h.awake hr hbefore

section Steps

variable [DecidableEq ι] [DecidableEq γ] {s : State ι γ} {a : Action ι γ}
  {entry : ι → Entry γ η}

theorem leaving_next (h : Leaving s) (ha : Enabled entry s a)
    (hP : NotifiesTimer s a) : Leaving (next s a) := by
  cases a with
  | predicateRunning =>
      refine h.of_timer rfl rfl fun hr _ => ?_
      exact absurd (ha.2.symm.trans hr) (by simp)
  | wait =>
      exact h.of_timer rfl rfl fun _ hawake => absurd ha hawake.1
  | notifyAdd i =>
      exact h.of_timer rfl rfl fun _ hawake => awake_notify hawake.1
  | exchangeFirst =>
      exact ⟨fun _ => rfl, fun _ hs => absurd rfl hs⟩
  | notifyShutdown =>
      exact ⟨nofun, fun _ _ => awake_notify hP⟩
  | callShutdown =>
      refine h.of_shutdown rfl rfl ?_ nofun
      rcases ha with hs | hs <;> rw [hs] <;> nofun
  | exchangeAgain | join | lockShutdown | drainNothing i rest | drain i rest
  | drainWon i rest g | drainLost i rest g =>
      exact h.of_shutdown rfl rfl (by rw [ha.1]; nofun) nofun
  | drainSchedule i rest | clear | unlockShutdown =>
      exact h.of_shutdown rfl rfl (by rw [ha]; nofun) nofun
  | callAdd i | lockAdd i | push i | unlockAdd i | store g b | tick =>
      exact h.of_timer rfl rfl fun _ => id
  | _ => exact h.of_timer rfl rfl fun _ _ => by simp [next, TimerPc.awake]

theorem leaving_reachable
    (hs : (system entry).ReachableWhere NotifiesTimer s) : Leaving s := by
  refine hs.invariant Leaving ?_ fun s a h ha hP => leaving_next h ha hP
  rintro s ⟨fired, clock, rfl⟩
  exact ⟨nofun, nofun⟩

theorem running_of_notify (hs : (system entry).Reachable s)
    (hn : s.shutdown = .notify) : s.running = false := by
  refine hs.invariant (fun s => s.shutdown = .notify → s.running = false)
    ?_ ?_ hn
  · rintro s ⟨fired, clock, rfl⟩
    nofun
  · intro s a h ha hn
    cases a with
    | exchangeFirst => rfl
    | callShutdown | exchangeAgain | notifyShutdown | join | lockShutdown
    | drainNothing i rest | drain i rest | drainWon i rest g
    | drainLost i rest g | drainSchedule i rest | clear | unlockShutdown =>
        exact absurd hn nofun
    | _ => exact h hn

/-- `shutdown` leaves the timer thread waiting for its notification only if it
notifies between the predicate and the wait, and then the thread can be left
waiting. -/
theorem not_unnotified_of_notifiesTimer_and_leads (entry : ι → Entry γ η) :
    (∀ s, (system entry).ReachableWhere NotifiesTimer s → ¬Unnotified s) ∧
    (∀ s a, (system entry).Reachable s → (system entry).Enabled s a →
      ¬NotifiesTimer s a →
        ∃ s', (system entry).Leads ((system entry).next s a) s' ∧
          Unnotified s') := by
  constructor
  · rintro s hs ⟨hr, hn, hw⟩
    exact ((leaving_reachable hs).awake hr hn).2 hw
  · intro s a hs ha hmisses
    cases a with
    | notifyShutdown =>
        have hwait : s.timer = .enterWait := not_not.mp hmisses
        have hwaits :
            (system entry).Enabled (next s .notifyShutdown) .wait := by
          simp [system, Enabled, next, hwait, TimerPc.notify]
        have hrunning : s.running = false := running_of_notify hs ha
        exact ⟨_, .step (.refl _) hwaits, hrunning, nofun, rfl⟩
    | _ => exact absurd trivial hmisses

end Steps

end TimerService

/-! ## Both kinds of service threads -/

namespace TimerService

/-- Neither `~task_scheduler` nor `timer_service::shutdown` leaves a thread
waiting for its notification in the runs in which no thread can miss it; after
a notification that a thread can miss, one can be left waiting. -/
theorem not_unnotified_of_notifies_and_leads {C ι γ η : Type*} [DecidableEq C]
    [DecidableEq ι] [DecidableEq γ] (cfg : Scheduler.Config C) (k : ℕ)
    (entry : ι → Entry γ η) :
    ((∀ s, (Scheduler.system cfg k).ReachableWhere
        Scheduler.NotifiesWorkers s → ¬Scheduler.Unnotified s) ∧
      ∀ s, (system entry).ReachableWhere NotifiesTimer s →
        ¬Unnotified s) ∧
    (∀ s a, (Scheduler.system cfg k).Reachable s →
      (Scheduler.system cfg k).Enabled s a → ¬Scheduler.NotifiesWorkers s a →
        ∃ s', (Scheduler.system cfg k).Leads
          ((Scheduler.system cfg k).next s a) s' ∧ Scheduler.Unnotified s') ∧
    ∀ s a, (system entry).Reachable s → (system entry).Enabled s a →
      ¬NotifiesTimer s a →
        ∃ s', (system entry).Leads ((system entry).next s a) s' ∧
          Unnotified s' := by
  have hworkers := Scheduler.not_unnotified_of_notifiesWorkers_and_leads cfg k
  have htimer := not_unnotified_of_notifiesTimer_and_leads entry
  exact ⟨⟨hworkers.1, htimer.1⟩, hworkers.2, htimer.2⟩

def dueTimer : Fin 1 → Entry (Fin 1) (Fin 1) :=
  fun _ => ⟨0, some 0, some 0, none⟩

/-- The worker waits when the destructor notifies it. -/
def notifyWaitingWorker : List (Scheduler.Action 1 Unit) :=
  [.enterLoop 0, .popOwnEmpty 0, .receiveEmpty 0, .seekNobody 0, .lockWork 0,
    .wait 0, .storeShuttingDown, .notifyAll, .close, .relock 0, .unlockWork 0,
    .leaveLoop 0, .join 0, .clear]

/-- The timer thread waits, is notified of a timer, fires it, and waits again
when it is shut down. -/
def notifyWaitingTimer : List (Action (Fin 1) (Fin 1)) :=
  [.lockTimer, .loadRunningTrue, .heapEmpty, .predicateHeapFalse,
    .predicateRunning, .wait, .callAdd 0, .lockAdd 0, .push 0, .unlockAdd 0,
    .notifyAdd 0, .relockWait, .predicateHeapTrue, .loadRunningTrue,
    .heapNotEmpty, .readClock, .pop 0 0, .fireWon 0 0, .unlockFired 0,
    .schedule 0, .relock, .loadRunningTrue, .heapEmpty, .predicateHeapFalse,
    .predicateRunning, .wait, .callShutdown, .exchangeFirst, .notifyShutdown,
    .relockWait, .predicateHeapFalse, .predicateStopped, .loadRunningFalse,
    .unlockExit, .join, .lockShutdown, .clear, .unlockShutdown]

theorem not_unnotified_notifyWaiting :
    ¬Scheduler.Unnotified ((Scheduler.system Scheduler.singleCall 1).after
      (Scheduler.initialState 1 Unit fun _ => false) notifyWaitingWorker) ∧
    ¬Unnotified ((system dueTimer).after
      (initialState (Fin 1) (Fin 1) (fun _ => false) 0)
        notifyWaitingTimer) := by
  have h := (not_unnotified_of_notifies_and_leads Scheduler.singleCall 1
    dueTimer).1
  constructor
  · exact h.1 _ (TransitionSystem.Executes.reachableWhere
      (.init ⟨_, rfl⟩) (by decide))
  · exact h.2 _ (TransitionSystem.Executes.reachableWhere
      (.init ⟨_, _, rfl⟩) (by decide))

/-- The worker has found no work, but does not wait yet, when the destructor
notifies. -/
def missWorker : List (Scheduler.Action 1 Unit) :=
  [.enterLoop 0, .popOwnEmpty 0, .receiveEmpty 0, .seekNobody 0,
    .storeShuttingDown, .notifyAll, .lockWork 0, .wait 0]

/-- The timer thread has read `running_` for its predicate, but does not wait
yet, when it is shut down. -/
def missTimer : List (Action (Fin 1) (Fin 1)) :=
  [.lockTimer, .loadRunningTrue, .heapEmpty, .predicateHeapFalse,
    .predicateRunning, .callShutdown, .exchangeFirst, .notifyShutdown, .wait]

theorem not_forall_not_unnotified :
    (¬∀ s, (Scheduler.system Scheduler.singleCall 1).Reachable s →
      ¬Scheduler.Unnotified s) ∧
    ¬∀ s, (system dueTimer).Reachable s → ¬Unnotified s := by
  constructor
  · intro h
    refine h ((Scheduler.system Scheduler.singleCall 1).after
      (Scheduler.initialState 1 Unit fun _ => false) missWorker) ?_ ?_
    · exact TransitionSystem.Executes.reachable (.init ⟨_, rfl⟩) (by decide)
    · exact ⟨rfl, 0, rfl⟩
  · intro h
    refine h ((system dueTimer).after
      (initialState (Fin 1) (Fin 1) (fun _ => false) 0) missTimer) ?_ ?_
    · exact TransitionSystem.Executes.reachable (.init ⟨_, _, rfl⟩) (by decide)
    · exact ⟨rfl, nofun, rfl⟩

end TimerService

end Ethreads
