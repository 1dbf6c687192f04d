import Ethreads.Scheduler.Model
import Ethreads.Support.Tally
import Ethreads.Support.Mutex

/-!
# When a submitted handle wakes a worker

A worker looks for work without holding `coro_work_mutex` and then waits
without a predicate, and a submitter notifies without taking that mutex.  A
notification is lost when it finds nobody waiting while every worker has
already looked into the external queue.  We show that this is the only way in
which a handle can be stranded, and that every lost notification can be
continued to a stranded handle.
-/

namespace Ethreads
namespace Scheduler

variable {k : ℕ} {C : Type*}

/-- A handle is queued, every worker waits and no call will notify. -/
def Stranded (s : State k C) : Prop :=
  s.externalCoroQueue ≠ [] ∧ (∀ w, s.worker w = .waiting) ∧
    ∀ c, s.call c ≠ .notify

/-- The worker will look into the external queue before it waits. -/
def WorkerPc.willLook : WorkerPc C → Bool
  | loadFlag | popOwn | tryReceive | found _ | resuming | notified | woken
  | unlockWork => true
  | _ => false

/-- The worker is about to wait, without looking into the external queue or
testing the flag before. -/
def WorkerPc.committed : WorkerPc C → Bool
  | seekVictim | steal _ _ | stolen _ _ _ | lockWork | enterWait => true
  | _ => false

/-- The notification of call `c` is lost: it finds nobody waiting, no worker
will look into the queue, and nobody else is going to notify. -/
def LostNotify (s : State k C) (c : C) : Prop :=
  s.externalCoroQueue ≠ [] ∧ (∀ w, (s.worker w).willLook = false) ∧
    ∀ d, d ≠ c → s.call d ≠ .notify

/-- A step that does not lose a notification. -/
def KeepsNotify (s : State k C) (a : Action k C) : Prop :=
  ∀ c, a = .notifyNobody c → ¬LostNotify s c

/-! ## Without lost notifications -/

/-- While a handle is queued, somebody will notify or look. -/
def Attended (s : State k C) : Prop :=
  s.shuttingDown = false → s.externalCoroQueue ≠ [] →
    (∃ c, s.call c = .notify) ∨ ∃ w, (s.worker w).willLook = true

theorem Attended.not_stranded {s : State k C} (h : Attended s)
    (hopen : s.shuttingDown = false) : ¬Stranded s := by
  rintro ⟨hqueue, hwaiting, hnotify⟩
  rcases h hopen hqueue with ⟨c, hc⟩ | ⟨w, hw⟩
  · exact hnotify c hc
  · rw [hwaiting w] at hw
    cases hw

section Steps

variable {s s' : State k C}

/-- A worker that comes to a point from which it will look attends to the
queue. -/
theorem attended_of_look {w : Fin k} {q : WorkerPc C}
    (hw : s'.worker = Function.update s.worker w q)
    (hq : q.willLook = true) : Attended s' := by
  intro _ _
  exact Or.inr ⟨w, by rw [hw, Function.update_self]; exact hq⟩

theorem Attended.of_not_look (h : Attended s) {w : Fin k} {p q : WorkerPc C}
    (hp : s.worker w = p) (hplook : p.willLook = false)
    (hw : s'.worker = Function.update s.worker w q)
    (hcall : s'.call = s.call) (hflag : s'.shuttingDown = s.shuttingDown)
    (hqueue : s'.externalCoroQueue = s.externalCoroQueue) :
    Attended s' := by
  intro hopen hne
  rw [hflag] at hopen
  rw [hqueue] at hne
  rcases h hopen hne with ⟨c, hc⟩ | ⟨v, hv⟩
  · exact Or.inl ⟨c, by rw [hcall]; exact hc⟩
  · have hvw : v ≠ w := by
      rintro rfl
      rw [hp, hplook] at hv
      cases hv
    exact Or.inr ⟨v, by rw [hw, Function.update_of_ne hvw]; exact hv⟩

theorem Attended.of_call [DecidableEq C] (h : Attended s) {c : C}
    {p q : CallPc} (hp : s.call c = p) (hpn : p ≠ .notify)
    (hcall : s'.call = Function.update s.call c q)
    (hw : s'.worker = s.worker) (hflag : s'.shuttingDown = s.shuttingDown)
    (hqueue : s'.externalCoroQueue = s.externalCoroQueue) :
    Attended s' := by
  intro hopen hne
  rw [hflag] at hopen
  rw [hqueue] at hne
  rcases h hopen hne with ⟨d, hd⟩ | hlook
  · have hdc : d ≠ c := by
      rintro rfl
      exact hpn (hp.symm.trans hd)
    exact Or.inl ⟨d, by rw [hcall, Function.update_of_ne hdc]; exact hd⟩
  · exact Or.inr (hw ▸ hlook)

theorem Attended.of_same (h : Attended s) (hcall : s'.call = s.call)
    (hw : s'.worker = s.worker) (hflag : s'.shuttingDown = s.shuttingDown)
    (hqueue : s'.externalCoroQueue = s.externalCoroQueue) :
    Attended s' := by
  intro hopen hne
  rw [hflag] at hopen
  rw [hqueue] at hne
  rw [hcall, hw]
  exact h hopen hne

end Steps

theorem willLook_mark (p : WorkerPc C) (hp : p.willLook = true) :
    p.mark.willLook = true := by
  cases p <;> first | rfl | cases hp

variable [DecidableEq C]

theorem attended_next {cfg : Config C} {s : State k C} {a : Action k C}
    (h : Attended s) (ha : Enabled cfg s a) (hP : KeepsNotify s a) :
    Attended (next s a) := by
  cases a with
  | leaveLoop w =>
      intro hopen
      have hset : s.shuttingDown = true := ha.2
      cases hset.symm.trans hopen
  | receiveEmpty w => exact fun _ hne => absurd ha.2 hne
  | chooseStart w start => exact h.of_not_look ha.1 rfl rfl rfl rfl rfl
  | seekNobody w => exact h.of_not_look ha.1 rfl rfl rfl rfl rfl
  | skipSelf w start i => exact h.of_not_look ha.1 rfl rfl rfl rfl rfl
  | steal w start i c => exact h.of_not_look ha.1 rfl rfl rfl rfl rfl
  | stealEmpty w start i => exact h.of_not_look ha.1 rfl rfl rfl rfl rfl
  | stealDone w start i => exact h.of_not_look ha.1 rfl rfl rfl rfl rfl
  | discardStolen w c start i => exact h.of_not_look ha.1 rfl rfl rfl rfl rfl
  | lockWork w => exact h.of_not_look ha.1 rfl rfl rfl rfl rfl
  | wait w => exact h.of_not_look ha rfl rfl rfl rfl rfl
  | push c =>
      exact fun _ _ => Or.inl ⟨c, Function.update_self _ _ _⟩
  | notifyOne c w => exact attended_of_look rfl rfl
  | notifyNobody c =>
      intro hopen hne
      have hkeeps := hP c rfl
      by_contra hnone
      push Not at hnone
      refine hkeeps ⟨hne, fun w => ?_, fun d hd hnotify => ?_⟩
      · exact Bool.eq_false_iff.mpr (hnone.2 w)
      · refine hnone.1 d ?_
        exact (Function.update_of_ne hd _ _).trans hnotify
  | call c => exact h.of_call ha (by simp) rfl rfl rfl rfl
  | suspendInline c => exact h.of_call ha (by simp) rfl rfl rfl rfl
  | reject c => exact h.of_call ha.1 (by simp) rfl rfl rfl rfl
  | accept c => exact h.of_call ha.1 (by simp) rfl rfl rfl rfl
  | loadSet c => exact h.of_call ha.1 (by simp) rfl rfl rfl rfl
  | loadClear c => exact h.of_call ha.1 (by simp) rfl rfl rfl rfl
  | resumeInline c r => exact h.of_call ha.1 (by simp) rfl rfl rfl rfl
  | discardInline c => exact h.of_call ha.1 (by simp) rfl rfl rfl rfl
  | workersGone c => exact h.of_call ha.1 (by simp) rfl rfl rfl rfl
  | workersPresent c => exact h.of_call ha.1 (by simp) rfl rfl rfl rfl
  | sendThrows c => exact h.of_call ha.1 (by simp) rfl rfl rfl rfl
  | sendOpen c => exact h.of_call ha.1 (by simp) rfl rfl rfl rfl
  | storeShuttingDown => exact fun hopen => (by cases hopen)
  | notifyAll =>
      intro hopen hne
      refine (h hopen hne).imp_right ?_
      rintro ⟨w, hw⟩
      exact ⟨w, willLook_mark _ hw⟩
  | close => exact h.of_same rfl rfl rfl rfl
  | join w => exact h.of_same rfl rfl rfl rfl
  | clear => exact h.of_same rfl rfl rfl rfl
  | setDone a b => exact h.of_same rfl rfl rfl rfl
  | _ => exact attended_of_look rfl rfl

theorem attended_reachable {cfg : Config C} {s : State k C}
    (hs : (system cfg k).ReachableWhere KeepsNotify s) : Attended s := by
  refine hs.invariant Attended ?_ fun s a h ha hP => attended_next h ha hP
  rintro s ⟨isDone, rfl⟩
  exact fun _ hne => absurd rfl hne

/-! ## After a lost notification -/

def WorkerPc.holdsMutex : WorkerPc C → Bool
  | enterWait | unlockWork => true
  | _ => false

/-- What holds in every run: `coro_work_mutex` excludes, nobody pushes to a
worker's own deque, and a worker leaves its loop only on shutdown. -/
structure Regular (s : State k C) : Prop where
  exclusive : Guards WorkerPc.holdsMutex s.coroWorkMutex s.worker
  localQueue : ∀ i, s.localQueue i = []
  stolen : ∀ w c start i, s.worker w ≠ .stolen c start i
  exited : s.shuttingDown = false → ∀ w, s.worker w ≠ .exited

omit [DecidableEq C] in
theorem holdsMutex_mark (p : WorkerPc C) :
    p.mark.holdsMutex = p.holdsMutex := by
  cases p <;> rfl

theorem exclusive_next {cfg : Config C} {s : State k C} {a : Action k C}
    (h : Guards WorkerPc.holdsMutex s.coroWorkMutex s.worker)
    (ha : Enabled cfg s a) :
    Guards WorkerPc.holdsMutex (next s a).coroWorkMutex
      (next s a).worker := by
  have hstay : ∀ (w : Fin k) (p q : WorkerPc C), s.worker w = p →
      q.holdsMutex = p.holdsMutex →
        Guards WorkerPc.holdsMutex s.coroWorkMutex
          (Function.update s.worker w q) := by
    intro w p q hp hq
    exact h.stay (by rw [hp, hq])
  cases a with
  | lockWork w => exact h.enter ha.2 rfl
  | relock w => exact h.enter ha.2 rfl
  | wait w =>
      exact h.leave (by rw [show s.worker w = .enterWait from ha]; rfl) rfl
  | unlockWork w =>
      exact h.leave (by rw [show s.worker w = .unlockWork from ha]; rfl) rfl
  | notifyAll => exact h.map holdsMutex_mark
  | notifyOne c w => exact hstay w _ _ ha.2 rfl
  | suspend w => exact hstay w _ _ ha rfl
  | wake w => exact hstay w _ _ ha rfl
  | enterLoop w => exact hstay w _ _ ha.1 rfl
  | leaveLoop w => exact hstay w _ _ ha.1 rfl
  | popOwn w c => exact hstay w _ _ ha.1 rfl
  | popOwnEmpty w => exact hstay w _ _ ha.1 rfl
  | receive w c => exact hstay w _ _ ha.1 rfl
  | receiveEmpty w => exact hstay w _ _ ha.1 rfl
  | resume w c => exact hstay w _ _ ha.1 rfl
  | discard w c => exact hstay w _ _ ha.1 rfl
  | chooseStart w start => exact hstay w _ _ ha.1 rfl
  | seekNobody w => exact hstay w _ _ ha.1 rfl
  | skipSelf w start i => exact hstay w _ _ ha.1 rfl
  | steal w start i c => exact hstay w _ _ ha.1 rfl
  | stealEmpty w start i => exact hstay w _ _ ha.1 rfl
  | stealDone w start i => exact hstay w _ _ ha.1 rfl
  | resumeStolen w c start i => exact hstay w _ _ ha.1 rfl
  | discardStolen w c start i => exact hstay w _ _ ha.1 rfl
  | _ => exact h

omit [DecidableEq C] in
theorem update_ne {ι π : Type*} [DecidableEq ι] {f : ι → π} {i j : ι}
    {q r : π} (hq : q ≠ r) (h : f j ≠ r) : Function.update f i q j ≠ r := by
  by_cases hj : j = i
  · subst hj
    rwa [Function.update_self]
  · rwa [Function.update_of_ne hj]

omit [DecidableEq C] in
theorem mark_ne {p r : WorkerPc C} (hr : r ≠ .notified) (h : p ≠ r) :
    p.mark ≠ r := by
  cases p with
  | waiting => exact hr.symm
  | _ => exact h

theorem regular_next {cfg : Config C} {s : State k C} {a : Action k C}
    (h : Regular s) (ha : Enabled cfg s a) : Regular (next s a) where
  exclusive := exclusive_next h.exclusive ha
  localQueue := by
    intro i
    cases a with
    | popOwn w c =>
        have hsome := ha.2
        rw [h.localQueue] at hsome
        cases hsome
    | steal w start j c =>
        have hsome := ha.2.2.2
        rw [h.localQueue] at hsome
        cases hsome
    | _ => exact h.localQueue i
  stolen := by
    intro v c start i
    have hv := h.stolen v c start i
    cases a with
    | steal w start' j d =>
        have hsome := ha.2.2.2
        rw [h.localQueue] at hsome
        cases hsome
    | notifyAll => exact mark_ne (by simp) hv
    | _ => first | exact hv | exact update_ne (by simp) hv
  exited := by
    intro hopen v
    cases a with
    | storeShuttingDown => cases hopen
    | leaveLoop w =>
        have hset : s.shuttingDown = true := ha.2
        cases hset.symm.trans hopen
    | notifyAll => exact mark_ne (by simp) (h.exited hopen v)
    | _ =>
        first
        | exact h.exited hopen v
        | exact update_ne (by simp) (h.exited hopen v)

theorem regular_reachable {cfg : Config C} {s : State k C}
    (hs : (system cfg k).Reachable s) : Regular s := by
  refine TransitionSystem.Reachable.invariant hs Regular ?_
    fun s a h ha => regular_next h ha
  rintro s ⟨isDone, rfl⟩
  exact ⟨fun w => by simp [initialState, WorkerPc.holdsMutex], fun i => rfl,
    fun w c start i hw => (by cases hw), fun _ w hw => (by cases hw)⟩

/-- How many steps a worker that will not look is away from waiting. -/
def WorkerPc.distance (k : ℕ) : WorkerPc C → ℕ
  | seekVictim => k + 4
  | steal _ i => k - i + 3
  | lockWork => 2
  | enterWait => 1
  | _ => 0

/-- A queued handle to which nobody attends. -/
structure Neglected (s : State k C) : Prop where
  regular : Regular s
  isOpen : s.shuttingDown = false
  queue : s.externalCoroQueue ≠ []
  look : ∀ w, (s.worker w).willLook = false
  notify : ∀ c, s.call c ≠ .notify

/-- The step with which a committed worker comes closer to waiting. -/
theorem Regular.exists_step (cfg : Config C) {s : State k C}
    (h : Regular s) {w : Fin k} (hw : (s.worker w).committed = true)
    (hfree : s.worker w = .lockWork → s.coroWorkMutex = none) :
    ∃ a q, Enabled cfg s a ∧ (next s a).worker = Function.update s.worker w q ∧
      (q.committed = true ∨ q = .waiting) ∧
      q.distance k < (s.worker w).distance k ∧
      (next s a).shuttingDown = s.shuttingDown ∧
      (next s a).externalCoroQueue = s.externalCoroQueue ∧
      (next s a).call = s.call ∧ (next s a).destructor = s.destructor := by
  cases hp : s.worker w with
  | seekVictim =>
      by_cases hk : 1 < k
      · refine ⟨.chooseStart w 0, .steal 0 0, ⟨hp, hk, by omega⟩, rfl,
          .inl rfl, ?_, rfl, rfl, rfl, rfl⟩
        simp [WorkerPc.distance]
      · refine ⟨.seekNobody w, .lockWork, ⟨hp, by omega⟩, rfl, .inl rfl, ?_,
          rfl, rfl, rfl, rfl⟩
        simp [WorkerPc.distance]
  | steal start i =>
      by_cases hi : i < k
      · have hcloser : (WorkerPc.steal start (i + 1) : WorkerPc C).distance k <
            (WorkerPc.steal start i : WorkerPc C).distance k := by
          simp only [WorkerPc.distance]
          omega
        by_cases hself : (start + i) % k = w
        · exact ⟨.skipSelf w start i, .steal start (i + 1), ⟨hp, hi, hself⟩,
            rfl, .inl rfl, hcloser, rfl, rfl, rfl, rfl⟩
        · exact ⟨.stealEmpty w start i, .steal start (i + 1),
            ⟨hp, hi, hself, h.localQueue _⟩, rfl, .inl rfl, hcloser, rfl,
            rfl, rfl, rfl⟩
      · refine ⟨.stealDone w start i, .lockWork, ⟨hp, by omega⟩, rfl, .inl rfl,
          ?_, rfl, rfl, rfl, rfl⟩
        simp [WorkerPc.distance]
  | lockWork =>
      exact ⟨.lockWork w, .enterWait, ⟨hp, hfree hp⟩, rfl, .inl rfl, by
        simp [WorkerPc.distance], rfl, rfl, rfl, rfl⟩
  | enterWait =>
      exact ⟨.wait w, .waiting, hp, rfl, .inr rfl, by
        simp [WorkerPc.distance], rfl, rfl, rfl, rfl⟩
  | stolen c start i => exact absurd hp (h.stolen w c start i)
  | _ =>
      rw [hp] at hw
      cases hw

omit [DecidableEq C] in
/-- A worker that waits for nobody is on its way to the wait. -/
theorem Neglected.committed {s : State k C} (h : Neglected s) {w : Fin k}
    (hw : s.worker w ≠ .waiting) : (s.worker w).committed = true := by
  have hlook := h.look w
  cases hp : s.worker w with
  | waiting => exact absurd hp hw
  | exited => exact absurd hp (h.regular.exited h.isOpen w)
  | _ =>
      rw [hp] at hlook
      first
      | rfl
      | cases hlook

omit [DecidableEq C] in
/-- Some worker can always come closer to waiting: the one that holds
`coro_work_mutex`, or any other when the mutex is free. -/
theorem Neglected.exists_mover {s : State k C} (h : Neglected s)
    (hw : ∃ w, s.worker w ≠ .waiting) :
    ∃ w, s.worker w ≠ .waiting ∧
      (s.worker w = .enterWait ∨ s.coroWorkMutex = none) := by
  cases hm : s.coroWorkMutex with
  | none =>
      obtain ⟨w, hw⟩ := hw
      exact ⟨w, hw, Or.inr rfl⟩
  | some w =>
      have hholds := (h.regular.exclusive w).mpr hm
      have hlook := h.look w
      cases hp : s.worker w with
      | enterWait => exact ⟨w, by rw [hp]; simp, Or.inl hp⟩
      | unlockWork => rw [hp] at hlook; cases hlook
      | _ => rw [hp] at hholds; cases hholds

/-- All workers go to wait while the handle stays in the queue. -/
theorem Neglected.leads_stranded {cfg : Config C} {s : State k C}
    (h : Neglected s) :
    ∃ s', (system cfg k).Leads s s' ∧ s'.shuttingDown = false ∧
      Stranded s' := by
  induction hn : tally (WorkerPc.distance k) s.worker using
    Nat.strong_induction_on generalizing s with
  | _ n ih =>
    by_cases hw : ∃ w, s.worker w ≠ .waiting
    · obtain ⟨w, hwait, hfree⟩ := h.exists_mover hw
      have hlock : s.worker w = .lockWork → s.coroWorkMutex = none := by
        intro hp
        refine hfree.resolve_left ?_
        rw [hp]
        simp
      obtain ⟨a, q, ha, hworker, hq, hcloser, hflag, hqueue, hcall, -⟩ :=
        h.regular.exists_step cfg (h.committed hwait) hlock
      have hlook : q.willLook = false := by
        rcases hq with hq | rfl
        · revert hq
          cases q <;> simp [WorkerPc.committed, WorkerPc.willLook]
        · rfl
      have hnext : Neglected (next s a) := by
        refine ⟨regular_next h.regular ha, hflag.trans h.isOpen,
          hqueue ▸ h.queue, fun v => ?_, hcall ▸ h.notify⟩
        rw [hworker]
        by_cases hv : v = w
        · subst hv
          rwa [Function.update_self]
        · rw [Function.update_of_ne hv]
          exact h.look v
      have hless : tally (WorkerPc.distance k) (next s a).worker < n := by
        have := tally_update (WorkerPc.distance k) s.worker w q
        rw [hworker]
        omega
      obtain ⟨s', hleads, hstranded⟩ := ih _ hless hnext rfl
      refine ⟨s', ?_, hstranded⟩
      exact (TransitionSystem.Leads.step (.refl s) ha).trans hleads
    · push Not at hw
      exact ⟨s, .refl s, h.isOpen, h.queue, hw, h.notify⟩

theorem neglected_of_lostNotify (cfg : Config C) {s : State k C} {c : C}
    (hs : Regular s) (hopen : s.shuttingDown = false)
    (ha : Enabled cfg s (.notifyNobody c)) (hlost : LostNotify s c) :
    Neglected (next s (.notifyNobody c)) := by
  refine ⟨regular_next hs ha, hopen, hlost.1, hlost.2.1, fun d => ?_⟩
  by_cases hd : d = c
  · subst hd
    simp [next, State.callTo]
  · simp only [next, State.callTo, Function.update_of_ne hd]
    exact hlost.2.2 d hd

/-- A scheduler that is not shutting down strands a handle only through a lost
notification: without one no handle is stranded, and after one a handle can
be. -/
theorem not_stranded_of_keepsNotify_and_leads (cfg : Config C) (k : ℕ) :
    (∀ s, (system cfg k).ReachableWhere KeepsNotify s →
      s.shuttingDown = false → ¬Stranded s) ∧
    (∀ s a, (system cfg k).Reachable s → s.shuttingDown = false →
      (system cfg k).Enabled s a → ¬KeepsNotify s a →
        ∃ s', (system cfg k).Leads ((system cfg k).next s a) s' ∧
          s'.shuttingDown = false ∧ Stranded s') := by
  constructor
  · intro s hs hopen
    exact (attended_reachable hs).not_stranded hopen
  · intro s a hs hopen ha hlost
    unfold KeepsNotify at hlost
    push Not at hlost
    obtain ⟨c, rfl, hlost⟩ := hlost
    have hneglected : Neglected (next s (.notifyNobody c)) :=
      neglected_of_lostNotify cfg (regular_reachable hs) hopen ha hlost
    exact hneglected.leads_stranded

/-! ## One worker and one call -/

def singleCall : Config Unit where
  address := fun _ => 0x2000
  noopAddress := 0x1000

/-- The worker finds the queue empty, and the call sends before the worker
takes the mutex. -/
def sendAfterLook : List (Action 1 Unit) :=
  [.enterLoop 0, .popOwnEmpty 0, .receiveEmpty 0, .seekNobody 0,
    .call (), .accept (), .loadClear (), .workersPresent (), .sendOpen (),
    .push ()]

theorem sendAfterLook_reachable :
    (system singleCall 1).Reachable ((system singleCall 1).after
      (initialState 1 Unit fun _ => false) sendAfterLook) :=
  TransitionSystem.Executes.reachable (.init ⟨_, rfl⟩) (by decide)

/-- A reachable state in which the only worker waits beside a queued
handle. -/
theorem not_forall_not_stranded :
    ¬∀ s, (system singleCall 1).Reachable s → s.shuttingDown = false →
      ¬Stranded s := by
  intro h
  have hreach := TransitionSystem.Executes.reachable
    sendAfterLook_reachable
    (show (system singleCall 1).Executes _
      [.notifyNobody (), .lockWork 0, .wait 0] by decide)
  exact h _ hreach rfl ⟨List.cons_ne_nil _ _, by decide, by decide⟩

theorem stranded_of_sendAfterLook :
    ∃ s', (system singleCall 1).Leads ((system singleCall 1).after
        (initialState 1 Unit fun _ => false)
        (sendAfterLook ++ [.notifyNobody ()])) s' ∧
      s'.shuttingDown = false ∧ Stranded s' := by
  rw [TransitionSystem.after_append]
  refine (not_stranded_of_keepsNotify_and_leads singleCall 1).2 _
    (.notifyNobody ()) sendAfterLook_reachable rfl (by decide)
    fun hkeeps => ?_
  exact hkeeps () rfl ⟨List.cons_ne_nil _ _, by decide, by decide⟩

end Scheduler
end Ethreads
