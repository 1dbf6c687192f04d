import Ethreads.Scheduler.Wakeup

/-!
# Handles across shutdown

A handle that `schedule_coro_handle` has handed over is either resumed, or in
the external queue, or held by a worker.  This account balances in every run
in which nobody sends to a closed queue or a queue that no worker will look
into, in which the last worker leaves an empty queue, and in which no handle
that was taken to be resumed turns out to be useless.
-/

namespace Ethreads
namespace Scheduler

variable {k : ℕ} {C : Type*}

def Orderly (s : State k C) : Action k C → Prop
  | .sendThrows _ => False
  | .push _ => ∃ w, s.worker w ≠ .exited
  | .leaveLoop w =>
      s.externalCoroQueue = [] ∨ ∃ v, v ≠ w ∧ s.worker v ≠ .exited
  | .discard _ _ => False
  | .discardStolen _ _ _ _ => False
  | .discardInline _ => False
  | _ => True

/-- The call has put its handle into the queue or resumed it. -/
def CallPc.handedOver : CallPc → ℕ
  | resuming | notify | returned => 1
  | _ => 0

/-- All workers have been joined. -/
def State.joined (s : State k C) : Prop :=
  s.destructor = .join k ∨ s.destructor = .cleared

/-- What the destructor has established. -/
def DestructorPc.Ok (s : State k C) : DestructorPc → Prop
  | join i => ∀ w : Fin k, w < i → s.worker w = .exited
  | cleared => ∀ w, s.worker w = .exited
  | _ => True

instance [DecidableEq C] (s : State k C) (a : Action k C) :
    Decidable (Orderly s a) := by
  induction a using Action.casesOn <;> dsimp only [Orderly] <;> infer_instance

variable [DecidableEq C]

def WorkerPc.holds (c : C) : WorkerPc C → ℕ
  | found d => if d = c then 1 else 0
  | stolen d _ _ => if d = c then 1 else 0
  | _ => 0

/-- Where the handle of call `c` is accounted for. -/
def account (s : State k C) (c : C) : ℕ :=
  s.resumed c + s.externalCoroQueue.count c + tally (WorkerPc.holds c) s.worker

/-- Every handle handed over is accounted for exactly once, and a queue with
handles still has a worker. -/
structure Conserved (s : State k C) : Prop where
  account : ∀ c, account s c = (s.call c).handedOver
  manned : (∀ w, s.worker w = .exited) → s.externalCoroQueue = []
  threw : ∀ c, s.call c ≠ .threw
  destructor : s.destructor.Ok s

section Account

variable {s s' : State k C} {c : C}

theorem account_update {w : Fin k} {p q : WorkerPc C} (hp : s.worker w = p)
    (hw : s'.worker = Function.update s.worker w q) :
    account s' c + s.resumed c + s.externalCoroQueue.count c + p.holds c =
      account s c + s'.resumed c + s'.externalCoroQueue.count c +
        q.holds c := by
  have := tally_update (WorkerPc.holds c) s.worker w q
  rw [hp] at this
  unfold account
  rw [hw]
  omega

theorem account_of_worker {w : Fin k} {p q : WorkerPc C}
    (hp : s.worker w = p) (hw : s'.worker = Function.update s.worker w q)
    (hpq : p.holds c = q.holds c) (hresumed : s'.resumed = s.resumed)
    (hqueue : s'.externalCoroQueue = s.externalCoroQueue) :
    account s' c = account s c := by
  have := account_update (c := c) hp hw
  rw [hresumed, hqueue] at this
  omega

theorem account_of_same (hw : s'.worker = s.worker)
    (hresumed : s'.resumed = s.resumed)
    (hqueue : s'.externalCoroQueue = s.externalCoroQueue) :
    account s' c = account s c := by
  unfold account
  rw [hw, hresumed, hqueue]

theorem handedOver_update {d : C} {p q : CallPc} (hp : s.call d = p)
    (hcall : s'.call = Function.update s.call d q)
    (hpq : p.handedOver = q.handedOver) :
    (s'.call c).handedOver = (s.call c).handedOver := by
  rw [hcall]
  by_cases hc : c = d
  · subst hc
    rw [Function.update_self, ← hpq, hp]
  · rw [Function.update_of_ne hc]

end Account

theorem holds_mark (c : C) (p : WorkerPc C) :
    p.mark.holds c = p.holds c := by
  cases p <;> rfl

theorem account_receive {cfg : Config C} {s : State k C} {w : Fin k} {d : C}
    (ha : Enabled cfg s (.receive w d)) (c : C) :
    account (next s (.receive w d)) c = account s c := by
  have hnew := account_update (c := c) ha.1
    (show (next s (.receive w d)).worker =
      Function.update s.worker w (.found d) from rfl)
  have hqueue : s.externalCoroQueue = d :: s.externalCoroQueue.tail :=
    (List.cons_head?_tail ha.2).symm
  have hcount : s.externalCoroQueue.count c =
      s.externalCoroQueue.tail.count c + if d = c then 1 else 0 := by
    rw [hqueue, List.count_cons]
    simp
  simp only [WorkerPc.holds, next, State.workerTo] at hnew ⊢
  omega

theorem account_resume {cfg : Config C} {s : State k C} {w : Fin k} {d : C}
    (ha : Enabled cfg s (.resume w d)) (c : C) :
    account (next s (.resume w d)) c = account s c := by
  have hnew := account_update (c := c) ha.1
    (show (next s (.resume w d)).worker =
      Function.update s.worker w .resuming from rfl)
  have hres : (next s (.resume w d)).resumed c =
      s.resumed c + if d = c then 1 else 0 := by
    by_cases hd : d = c
    · subst hd
      simp [next, State.countResumed, State.workerTo]
    · simp [next, State.countResumed, State.workerTo, hd, Ne.symm hd]
  have hqueue : (next s (.resume w d)).externalCoroQueue =
    s.externalCoroQueue := rfl
  rw [hres, hqueue] at hnew
  simp only [WorkerPc.holds] at hnew
  omega

theorem account_resumeInline {cfg : Config C} {s : State k C} {d : C}
    {r : Bool} (ha : Enabled cfg s (.resumeInline d r)) {c : C}
    (h : account s c = (s.call c).handedOver) :
    account (next s (.resumeInline d r)) c =
      ((next s (.resumeInline d r)).call c).handedOver := by
  unfold account at h ⊢
  by_cases hd : c = d
  · subst hd
    rw [ha.1] at h
    simp only [next, State.countResumed, State.callTo,
      Function.update_self, CallPc.handedOver] at h ⊢
    omega
  · simp only [next, State.countResumed, State.callTo,
      Function.update_of_ne hd]
    exact h

theorem account_push {cfg : Config C} {s : State k C} {d : C}
    (ha : Enabled cfg s (.push d)) {c : C}
    (h : account s c = (s.call c).handedOver) :
    account (next s (.push d)) c =
      ((next s (.push d)).call c).handedOver := by
  unfold account at h ⊢
  by_cases hd : c = d
  · subst hd
    rw [show s.call c = .push from ha] at h
    simp only [next, State.callTo, Function.update_self,
      CallPc.handedOver, List.count_append, List.count_singleton_self] at h ⊢
    omega
  · simp only [next, State.callTo, Function.update_of_ne hd,
      List.count_append, List.count_singleton]
    simp only [beq_iff_eq, Ne.symm hd, if_false, Nat.add_zero]
    exact h

theorem account_notifyAll (s : State k C) (c : C) :
    account (next s .notifyAll) c = account s c := by
  have hmark : tally (WorkerPc.holds c) (fun w => (s.worker w).mark) =
      tally (WorkerPc.holds c) s.worker :=
    tally_congr fun w => holds_mark c (s.worker w)
  unfold account
  simp only [next, hmark]

theorem account_next {cfg : Config C} {s : State k C} {a : Action k C}
    (hreg : Regular s) (h : ∀ c, account s c = (s.call c).handedOver)
    (ha : Enabled cfg s a) (hP : Orderly s a) (c : C) :
    account (next s a) c = ((next s a).call c).handedOver := by
  have hworker : ∀ (w : Fin k) (p q : WorkerPc C), s.worker w = p →
      (next s a).worker = Function.update s.worker w q →
      p.holds c = q.holds c → (next s a).resumed = s.resumed →
      (next s a).externalCoroQueue = s.externalCoroQueue →
      (next s a).call = s.call →
        account (next s a) c = ((next s a).call c).handedOver := by
    intro w p q hp hw hpq hres hqueue hcall
    rw [account_of_worker hp hw hpq hres hqueue, hcall]
    exact h c
  have hstep : ∀ (d : C) (p q : CallPc), s.call d = p →
      (next s a).call = Function.update s.call d q →
      p.handedOver = q.handedOver → (next s a).resumed = s.resumed →
      (next s a).externalCoroQueue = s.externalCoroQueue →
      (next s a).worker = s.worker →
        account (next s a) c = ((next s a).call c).handedOver := by
    intro d p q hp hcall hpq hres hqueue hw
    rw [account_of_same hw hres hqueue, handedOver_update hp hcall hpq]
    exact h c
  cases a with
  | popOwn w d =>
      have hsome := ha.2
      rw [hreg.localQueue] at hsome
      cases hsome
  | steal w start i d =>
      have hsome := ha.2.2.2
      rw [hreg.localQueue] at hsome
      cases hsome
  | receive w d => exact (account_receive ha c).trans (h c)
  | resume w d => exact (account_resume ha c).trans (h c)
  | resumeStolen w d start i => exact absurd ha.1 (hreg.stolen w d start i)
  | discard w d => exact hP.elim
  | discardStolen w d start i => exact hP.elim
  | discardInline d => exact hP.elim
  | sendThrows d => exact hP.elim
  | resumeInline d r => exact account_resumeInline ha (h c)
  | push d => exact account_push ha (h c)
  | notifyOne d w =>
      have hmid : account (s.workerTo w .notified) c = account s c :=
        account_of_worker ha.2 rfl rfl rfl rfl
      have hend : account (next s (.notifyOne d w)) c =
        account (s.workerTo w .notified) c := account_of_same rfl rfl rfl
      rw [hend, hmid, handedOver_update (q := .returned) ha.1 rfl rfl]
      exact h c
  | notifyAll => exact (account_notifyAll s c).trans (h c)
  | suspend w | wake w | wait w | unlockWork w =>
      exact hworker w _ _ ha rfl rfl rfl rfl rfl
  | relock w =>
      rcases ha.1 with hp | hp
      · exact hworker w _ _ hp rfl rfl rfl rfl rfl
      · exact hworker w _ _ hp rfl rfl rfl rfl rfl
  | enterLoop w | leaveLoop w | popOwnEmpty w | receiveEmpty w
  | chooseStart w start | seekNobody w | skipSelf w start i
  | stealEmpty w start i | stealDone w start i | lockWork w =>
      exact hworker w _ _ ha.1 rfl rfl rfl rfl rfl
  | call d | suspendInline d => exact hstep d _ _ ha rfl rfl rfl rfl rfl
  | reject d | accept d | loadSet d | loadClear d | workersGone d
  | workersPresent d | sendOpen d | notifyNobody d =>
      exact hstep d _ _ ha.1 rfl rfl rfl rfl rfl
  | storeShuttingDown | close | join w | clear | setDone x b => exact h c

/-! ## Workers that have left -/

theorem leaveLoop_of_ne {s : State k C} {v w : Fin k} (hvw : v ≠ w) :
    (next s (.leaveLoop w)).worker v = s.worker v :=
  Function.update_of_ne hvw _ _

theorem not_exited_next {s : State k C} {a : Action k C} {v : Fin k}
    (hv : s.worker v ≠ .exited) (hleave : a ≠ .leaveLoop v) :
    (next s a).worker v ≠ .exited := by
  cases a with
  | leaveLoop w =>
      have hvw : v ≠ w := fun hvw => hleave (by rw [hvw])
      rwa [leaveLoop_of_ne hvw]
  | notifyAll => exact mark_ne (by simp) hv
  | _ => first | exact hv | exact update_ne (by simp) hv

theorem exited_next {cfg : Config C} {s : State k C} {a : Action k C}
    (ha : Enabled cfg s a) {v : Fin k} (hv : s.worker v = .exited) :
    (next s a).worker v = .exited := by
  have hother : ∀ (w : Fin k) (p q : WorkerPc C), s.worker w = p →
      p ≠ .exited → Function.update s.worker w q v = .exited := by
    intro w p q hp hne
    have hvw : v ≠ w := by
      rintro rfl
      exact hne (hp.symm.trans hv)
    rw [Function.update_of_ne hvw, hv]
  cases a with
  | suspend w => exact hother w _ _ ha (by simp)
  | wait w => exact hother w _ _ ha (by simp)
  | wake w => exact hother w _ _ ha (by simp)
  | unlockWork w => exact hother w _ _ ha (by simp)
  | relock w =>
      rcases ha.1 with hp | hp <;> exact hother w _ _ hp (by simp)
  | notifyOne c w => exact hother w _ _ ha.2 (by simp)
  | notifyAll => exact congrArg WorkerPc.mark hv
  | _ => first | exact hv | exact hother _ _ _ ha.1 (by simp)

theorem manned_next {cfg : Config C} {s : State k C} {a : Action k C}
    (h : (∀ w, s.worker w = .exited) → s.externalCoroQueue = [])
    (ha : Enabled cfg s a) (hP : Orderly s a)
    (hall : ∀ w, (next s a).worker w = .exited) :
    (next s a).externalCoroQueue = [] := by
  by_cases hleave : ∃ w, a = .leaveLoop w
  · obtain ⟨w, rfl⟩ := hleave
    rcases hP with hempty | ⟨v, hvw, hv⟩
    · exact hempty
    · exact absurd ((leaveLoop_of_ne hvw).symm.trans (hall v)) hv
  · push Not at hleave
    have hbefore : ∀ w, s.worker w = .exited := by
      intro w
      by_contra hw
      exact not_exited_next hw (hleave w) (hall w)
    cases a with
    | push c =>
        obtain ⟨w, hw⟩ := hP
        exact absurd (hbefore w) hw
    | receive w c =>
        have hw : s.worker w = .tryReceive := ha.1
        rw [hbefore w] at hw
        cases hw
    | _ => exact h hbefore

theorem destructor_next {cfg : Config C} {s : State k C} {a : Action k C}
    (h : s.destructor.Ok s) (ha : Enabled cfg s a) :
    (next s a).destructor.Ok (next s a) := by
  have hkept : ∀ p : DestructorPc, s.destructor = p →
      p.Ok (next s a) := by
    intro p hp
    rw [hp] at h
    cases p with
    | join i => exact fun w hw => exited_next ha (h w hw)
    | cleared => exact fun w => exited_next ha (h w)
    | _ => trivial
  cases a with
  | storeShuttingDown => trivial
  | notifyAll => trivial
  | close => exact fun w hw => absurd hw (Nat.not_lt_zero _)
  | join w =>
      have hprev : ∀ v : Fin k, v < w → s.worker v = .exited := by
        have hd : s.destructor = .join w := ha.1
        rw [hd] at h
        exact h
      intro v hv
      rcases Nat.lt_succ_iff_lt_or_eq.mp hv with hlt | heq
      · exact hprev v hlt
      · rw [Fin.ext heq]
        exact ha.2
  | clear =>
      have hd : s.destructor = .join k := ha
      rw [hd] at h
      exact fun w => h w w.isLt
  | _ => exact hkept _ rfl

theorem conserved_next {cfg : Config C} {s : State k C} {a : Action k C}
    (hreg : Regular s) (h : Conserved s) (ha : Enabled cfg s a)
    (hP : Orderly s a) : Conserved (next s a) where
  account := account_next hreg h.account ha hP
  manned := manned_next h.manned ha hP
  destructor := destructor_next h.destructor ha
  threw := by
    intro c
    cases a with
    | sendThrows d => exact hP.elim
    | _ => first | exact h.threw c | exact update_ne (by simp) (h.threw c)

theorem conserved_reachable {cfg : Config C} {s : State k C}
    (hs : (system cfg k).ReachableWhere Orderly s) : Conserved s := by
  refine hs.invariant_of Conserved
    (fun s hs => regular_reachable hs.reachable) ?_
    fun s a hreg h ha hP => conserved_next hreg h ha hP
  rintro s ⟨isDone, rfl⟩
  refine ⟨fun c => ?_, fun _ => rfl, fun c hc => (by cases hc), trivial⟩
  have hzero : tally (WorkerPc.holds c)
      (initialState k C isDone).worker = 0 :=
    tally_eq_zero_iff.mpr fun _ => rfl
  unfold account
  rw [hzero]
  rfl

/-! ## Shutdown keeps every handle -/

/-- No handle is lost, duplicated or turned into an exception. -/
structure HandlesKept (s : State k C) : Prop where
  /-- No call throws. -/
  threw : ∀ c, s.call c ≠ .threw
  /-- No handle is resumed twice for one call. -/
  once : ∀ c, s.resumed c ≤ 1
  /-- When all workers have been joined, every handle that a call has handed
  over has been resumed. -/
  joined : s.joined → ∀ c, (s.call c).handedOver = 1 → s.resumed c = 1

theorem Conserved.handlesKept {s : State k C} (h : Conserved s) :
    HandlesKept s where
  threw := h.threw
  once := by
    intro c
    have haccount := h.account c
    have hle : (s.call c).handedOver ≤ 1 := by
      cases s.call c <;> simp [CallPc.handedOver]
    unfold Scheduler.account at haccount
    omega
  joined := by
    intro hjoined c hc
    have hexited : ∀ w, s.worker w = .exited := by
      have hd := h.destructor
      rcases hjoined with hp | hp
      · rw [hp] at hd
        exact fun w => hd w w.isLt
      · rw [hp] at hd
        exact hd
    have hholds : tally (WorkerPc.holds c) s.worker = 0 :=
      tally_eq_zero_iff.mpr fun w => by
        rw [hexited w]
        rfl
    have haccount := h.account c
    unfold Scheduler.account at haccount
    rw [hholds, h.manned hexited, hc] at haccount
    simpa using haccount

/-- In every run with an orderly shutdown, no handle is lost, duplicated or
turned into an exception. -/
theorem handlesKept_of_orderly {cfg : Config C} {s : State k C}
    (hs : (system cfg k).ReachableWhere Orderly s) : HandlesKept s :=
  (conserved_reachable hs).handlesKept

/-- The worker resumes the submitted handle before it leaves its loop. -/
def resumeThenShutdown : List (Action 1 Unit) :=
  [.call (), .accept (), .loadClear (), .workersPresent (), .sendOpen (),
    .push (), .notifyNobody (), .enterLoop 0, .popOwnEmpty 0, .receive 0 (),
    .resume 0 (), .storeShuttingDown, .suspend 0, .leaveLoop 0, .notifyAll,
    .close, .join 0, .clear]

theorem handlesKept_resumeThenShutdown :
    HandlesKept ((system singleCall 1).after
      (initialState 1 Unit fun _ => false) resumeThenShutdown) :=
  handlesKept_of_orderly
    (TransitionSystem.Executes.reachableWhere (.init ⟨_, rfl⟩) (by decide))

/-- The flag is set and the queue closed between the call's test of the flag
and its send. -/
def closeBeforeSend : List (Action 1 Unit) :=
  [.call (), .accept (), .loadClear (), .workersPresent (),
    .storeShuttingDown, .notifyAll, .close, .sendThrows ()]

theorem not_forall_handlesKept :
    ¬∀ s, (system singleCall 1).Reachable s → HandlesKept s := by
  intro h
  have hreach : (system singleCall 1).Reachable
      ((system singleCall 1).after (initialState 1 Unit fun _ => false)
        closeBeforeSend) :=
    TransitionSystem.Executes.reachable (.init ⟨_, rfl⟩) (by decide)
  exact (h _ hreach).threw () rfl

end Scheduler
end Ethreads
