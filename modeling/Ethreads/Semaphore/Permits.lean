import Ethreads.Semaphore.Model
import Ethreads.Support.Tally

/-!
# Permits of the asynchronous semaphore

Permits are conserved as an account over all agents: besides the count and the
completed acquisitions it contains the permits held by suspended `co_await`s
whose re-check has succeeded, and on the other side the `co_await`s that have
returned without a permit.  A resumption that the re-check has not paid for
makes an entry there; without any the permits are conserved.
-/

namespace Ethreads
namespace Semaphore

variable {τ : Type*}

/-! ## What conservation says -/

def Quiescent (s : State τ) : Prop :=
  ∀ t, s.pc t = .idle

instance [Fintype τ] (s : State τ) : Decidable (Quiescent s) :=
  inferInstanceAs (Decidable (∀ t, s.pc t = .idle))

/-- At most as many acquisitions have completed as there were permits, and
once no operation is in progress every permit is available or was acquired. -/
def Conserves (initial : ℤ) (s : State τ) : Prop :=
  (s.completed : ℤ) ≤ initial + s.released ∧
    (Quiescent s → s.available + s.completed = initial + s.released)

/-- A suspended `co_await` is only resumed once its re-check has taken a
permit. -/
def ResumesPaid (_ : State τ) (a : Action τ) : Prop :=
  ∀ t r, a = .resume t r → r = some true

instance (s : State τ) (a : Action τ) : Decidable (ResumesPaid s a) :=
  match a with
  | .resume t r =>
      decidable_of_iff (r = some true)
        ⟨fun h _ _ heq => by cases heq; exact h, fun h => h t r rfl⟩
  | .callAcquire .. | .acquireTake .. | .acquireWait .. | .acquireExpired ..
  | .wake .. | .callTryAcquire .. | .tryTake .. | .tryFail ..
  | .callRelease .. | .releaseAdd .. | .notifyOne .. | .notifyNobody ..
  | .unlock .. | .loopWake .. | .loopDone .. | .callAcquireAsync ..
  | .readyTake .. | .readyFail .. | .list .. | .recheckTake ..
  | .recheckFail .. => isTrue fun _ _ heq => by cases heq

/-! ## The account -/

/-- A suspended `co_await` whose re-check has taken a permit. -/
def Pc.holdsPermit : Pc → ℕ
  | suspended (some true) => 1
  | _ => 0

/-- A `co_await` that has returned before its re-check. -/
def Pc.owesPermit : Pc → ℕ
  | resumed => 1
  | _ => 0

section Account

variable [Fintype τ]

def Balanced (initial : ℤ) (s : State τ) : Prop :=
  s.count + s.completed + tally Pc.holdsPermit s.pc =
    initial + s.released + s.unpaid + tally Pc.owesPermit s.pc

variable {initial : ℤ} {s s' : State τ} [DecidableEq τ]

/-- A step of one agent keeps the account if it enters on both sides what the
agent's own entries do not show. -/
theorem Balanced.of_update (h : Balanced initial s) {t : τ} {p q : Pc}
    (hp : s.pc t = p) (hpc : s'.pc = Function.update s.pc t q)
    (hentry : s'.count + s'.completed + q.holdsPermit + s.released +
        s.unpaid + p.owesPermit =
      s.count + s.completed + p.holdsPermit + s'.released + s'.unpaid +
        q.owesPermit) :
    Balanced initial s' := by
  have hholds := tally_update Pc.holdsPermit s.pc t q
  have howes := tally_update Pc.owesPermit s.pc t q
  rw [hp] at hholds howes
  unfold Balanced at h ⊢
  rw [hpc]
  omega

theorem Balanced.of_frame (h : Balanced initial s) {t : τ} {p q : Pc}
    (hp : s.pc t = p) (hpc : s'.pc = Function.update s.pc t q)
    (hcount : s'.count = s.count) (hcompleted : s'.completed = s.completed)
    (hreleased : s'.released = s.released) (hunpaid : s'.unpaid = s.unpaid)
    (hholds : q.holdsPermit = p.holdsPermit)
    (howes : q.owesPermit = p.owesPermit) :
    Balanced initial s' := by
  refine h.of_update hp hpc ?_
  rw [hcount, hcompleted, hreleased, hunpaid, hholds, howes]

theorem Balanced.of_goto (h : Balanced initial s) {t : τ} {p q : Pc}
    (hp : s.pc t = p) (hholds : q.holdsPermit = p.holdsPermit)
    (howes : q.owesPermit = p.owesPermit) :
    Balanced initial (s.goto t q) :=
  h.of_frame hp rfl rfl rfl rfl rfl hholds howes

/-- An acquisition that takes its permit when it completes. -/
theorem Balanced.takeAndReturn (h : Balanced initial s) {t : τ} {p : Pc}
    (hp : s.pc t = p) (hholds : p.holdsPermit = 0)
    (howes : p.owesPermit = 0) :
    Balanced initial (s.takeAndReturn t) := by
  have hidle : Pc.idle.holdsPermit = 0 ∧ Pc.idle.owesPermit = 0 := ⟨rfl, rfl⟩
  refine h.of_update (q := .idle) hp rfl ?_
  simp only [State.takeAndReturn, State.take, State.goto]
  omega

theorem holdsPermit_afterList (p : Pc) :
    p.afterList.holdsPermit = p.holdsPermit := by
  cases p <;> rfl

theorem owesPermit_afterList (p : Pc) :
    p.afterList.owesPermit = p.owesPermit := by
  cases p <;> rfl

theorem balanced_next {a : Action τ} (h : Balanced initial s)
    (ha : Enabled s a) : Balanced initial (next s a) := by
  cases a with
  | acquireTake t k e => exact h.takeAndReturn ha.1 rfl rfl
  | tryTake t => exact h.takeAndReturn ha.1 rfl rfl
  | readyTake t => exact h.takeAndReturn ha.1 rfl rfl
  | callAcquire t k => exact h.of_goto ha rfl rfl
  | acquireWait t k => exact h.of_goto ha.1 rfl rfl
  | acquireExpired t k => exact h.of_goto ha.1 rfl rfl
  | wake t k e => exact h.of_goto ha.1 rfl rfl
  | callTryAcquire t => exact h.of_goto ha rfl rfl
  | tryFail t => exact h.of_goto ha.1 rfl rfl
  | callRelease t n => exact h.of_goto ha rfl rfl
  | notifyNobody t n i => exact h.of_goto ha.1 rfl rfl
  | loopDone t n i => exact h.of_goto ha.1 rfl rfl
  | callAcquireAsync t => exact h.of_goto ha rfl rfl
  | notifyOne t n i u k =>
      have hne : t ≠ u := by
        rintro rfl
        cases ha.1.symm.trans ha.2.2
      have hu : Balanced initial (s.goto u (.acquire k false)) :=
        h.of_goto ha.2.2 rfl rfl
      have ht : (s.goto u (.acquire k false)).pc t = .notify n i :=
        (Function.update_of_ne hne _ _).trans ha.1
      exact hu.of_goto ht rfl rfl
  | unlock t n i => exact h.of_frame ha.1 rfl rfl rfl rfl rfl rfl rfl
  | loopWake t n i => exact h.of_frame ha.1 rfl rfl rfl rfl rfl rfl rfl
  | readyFail t => exact h.of_frame ha.1 rfl rfl rfl rfl rfl rfl rfl
  | releaseAdd t n =>
      refine h.of_update ha.1 rfl ?_
      simp only [next, State.goto, Pc.holdsPermit, Pc.owesPermit]
      omega
  | list t a =>
      refine h.of_frame rfl rfl rfl rfl rfl rfl ?_ ?_
      · split
        · exact holdsPermit_afterList _
        · rfl
      · split
        · exact owesPermit_afterList _
        · rfl
  | recheckTake t =>
      refine h.of_update rfl rfl ?_
      rcases ha.1 with hp | hp
      all_goals
        simp only [next, State.take, State.goto, hp, Pc.afterRecheck,
          Pc.holdsPermit, Pc.owesPermit]
        omega
  | recheckFail t =>
      refine h.of_update rfl rfl ?_
      rcases ha.1 with hp | hp
      all_goals
        simp [next, State.goto, hp, Pc.afterRecheck, Pc.holdsPermit,
          Pc.owesPermit]
        try omega
  | resume t r =>
      refine h.of_update ha.1 rfl ?_
      rcases r with _ | _ | _
      all_goals
        simp [next, State.goto, Pc.afterResume, Pc.holdsPermit,
          Pc.owesPermit]
        try omega

theorem balanced_reachable (hs : (system initial τ).Reachable s) :
    Balanced initial s := by
  refine TransitionSystem.Reachable.invariant hs (Balanced initial) ?_
    fun s a h ha => balanced_next h ha
  rintro s rfl
  simp [Balanced, initialState, tally, Pc.holdsPermit, Pc.owesPermit]

end Account

/-! ## The count and the unpaid acquisitions -/

section Steps

variable {initial : ℤ} {s : State τ} [DecidableEq τ]

theorem count_nonneg_next {a : Action τ} (h : 0 ≤ s.count)
    (ha : Enabled s a) : 0 ≤ (next s a).count := by
  have htake : s.FindsPermit → 0 ≤ s.count - 1 := by
    intro hfinds
    have hpos := hfinds.2
    omega
  cases a with
  | acquireTake t k e => exact htake ha.2
  | tryTake t => exact htake ha.2
  | readyTake t => exact htake ha.2
  | recheckTake t => exact htake ha.2
  | releaseAdd t n => exact Int.add_nonneg h (Int.natCast_nonneg n)
  | _ => exact h

theorem count_nonneg (hinitial : 0 ≤ initial)
    (hs : (system initial τ).Reachable s) : 0 ≤ s.count := by
  refine TransitionSystem.Reachable.invariant hs (fun s => 0 ≤ s.count) ?_
    fun s a h ha => count_nonneg_next h ha
  rintro s rfl
  exact hinitial

/-- Every `co_await` that has returned has taken its permit. -/
def Paid (s : State τ) : Prop :=
  s.unpaid = 0 ∧ ∀ t, s.pc t ≠ .resumed

theorem Paid.of_update (h : Paid s) {s' : State τ} {t : τ} {q : Pc}
    (hunpaid : s'.unpaid = s.unpaid)
    (hpc : s'.pc = Function.update s.pc t q) (hq : q ≠ .resumed) :
    Paid s' := by
  refine ⟨hunpaid.trans h.1, ?_⟩
  rw [hpc]
  exact (Function.forall_update_iff s.pc fun _ q => q ≠ .resumed).mpr
    ⟨hq, fun u _ => h.2 u⟩

theorem afterList_ne_resumed {p : Pc} (hp : p ≠ .resumed) :
    p.afterList ≠ .resumed := by
  cases p with
  | resumed => exact absurd rfl hp
  | _ => simp [Pc.afterList]

theorem paid_next {a : Action τ} (h : Paid s) (ha : Enabled s a)
    (hpaid : ResumesPaid s a) : Paid (next s a) := by
  cases a with
  | resume t r =>
      obtain rfl : r = some true := hpaid t r rfl
      exact h.of_update rfl rfl (by simp [Pc.afterResume])
  | recheckTake t =>
      have hp := ha.1.resolve_right (h.2 t)
      refine h.of_update rfl rfl ?_
      rw [hp]
      simp [Pc.afterRecheck]
  | recheckFail t =>
      have hp := ha.1.resolve_right (h.2 t)
      refine h.of_update (if_neg (h.2 t)) rfl ?_
      rw [hp]
      simp [Pc.afterRecheck]
  | list t a =>
      refine h.of_update rfl rfl ?_
      split
      · exact afterList_ne_resumed (h.2 t)
      · exact h.2 t
  | notifyOne t n i u k =>
      have hu : Paid (s.goto u (.acquire k false)) :=
        h.of_update rfl rfl (by simp)
      exact hu.of_update rfl rfl (by simp)
  | _ => exact h.of_update rfl rfl (by simp)

theorem paid_reachable
    (hs : (system initial τ).ReachableWhere ResumesPaid s) : Paid s := by
  refine hs.invariant Paid ?_ fun s a h ha hpaid => paid_next h ha hpaid
  rintro s rfl
  exact ⟨rfl, fun t => by simp [initialState]⟩

end Steps

/-! ## Conservation -/

section Conservation

variable [Fintype τ] [DecidableEq τ] {initial : ℤ} {s : State τ}

omit [DecidableEq τ] in
theorem tally_eq_zero_of_quiescent {w : Pc → ℕ} (hw : w .idle = 0)
    (hquiet : Quiescent s) : tally w s.pc = 0 := by
  refine tally_eq_zero_iff.mpr fun t => ?_
  rw [hquiet t, hw]

theorem conserves_of_paid (hinitial : 0 ≤ initial)
    (hs : (system initial τ).ReachableWhere ResumesPaid s) :
    Conserves initial s := by
  obtain ⟨hunpaid, hresumed⟩ := paid_reachable hs
  have hbalance : Balanced initial s := balanced_reachable hs.reachable
  have hcount := count_nonneg hinitial hs.reachable
  have howes : tally Pc.owesPermit s.pc = 0 := by
    refine tally_eq_zero_iff.mpr fun t => ?_
    have hne := hresumed t
    revert hne
    cases s.pc t <;> simp [Pc.owesPermit]
  unfold Balanced at hbalance
  rw [hunpaid, howes] at hbalance
  constructor
  · omega
  · intro hquiet
    have hholds : tally Pc.holdsPermit s.pc = 0 :=
      tally_eq_zero_of_quiescent rfl hquiet
    unfold State.available
    omega

/-- The semaphore conserves permits in every run that starts with no fewer
than zero permits and resumes a suspended `co_await` only after its re-check
has taken a permit.  In any run at all, also one with other resumptions, the
permits add up once no operation is in progress if and only if no `co_await`
was counted in `unpaid`. -/
theorem conserves_of_resumesPaid_and_balance_iff_unpaid (initial : ℤ)
    (τ : Type*) [Fintype τ] [DecidableEq τ] :
    (0 ≤ initial → ∀ s,
      (system initial τ).ReachableWhere ResumesPaid s →
        Conserves initial s) ∧
    (∀ s, (system initial τ).Reachable s → Quiescent s →
      (s.available + s.completed = initial + s.released ↔
        s.unpaid = 0)) := by
  constructor
  · intro hinitial s hs
    exact conserves_of_paid hinitial hs
  · intro s hs hquiet
    have hbalance : Balanced initial s := balanced_reachable hs
    have hholds : tally Pc.holdsPermit s.pc = 0 :=
      tally_eq_zero_of_quiescent rfl hquiet
    have howes : tally Pc.owesPermit s.pc = 0 :=
      tally_eq_zero_of_quiescent rfl hquiet
    unfold Balanced at hbalance
    unfold State.available
    omega

end Conservation

/-! ## One coroutine and one releasing thread -/

/-- The coroutine of agent `false` is suspended. -/
def suspendFirst : List (Action Bool) :=
  [.callAcquireAsync false, .readyFail false, .list false (.addLoad false false),
    .list false (.addLink false false none),
    .list false (.addCas false false none)]

/-- Agent `true` releases one permit and wakes the coroutine. -/
def releaseOne : List (Action Bool) :=
  [.callRelease true 1, .releaseAdd true 1, .notifyNobody true 1 0,
    .unlock true 1 1, .loopWake true 1 0, .list true (.wakeLoad true),
    .list true (.wakeNext true false), .list true (.wakeCas true false none),
    .list true (.schedule true false none), .loopDone true 1 1]

/-- The re-check fails, and the coroutine is resumed by the release without
taking the permit. -/
def resumeUnpaid : List (Action Bool) :=
  suspendFirst ++ .recheckFail false :: releaseOne ++
    [.resume false (some false)]

theorem not_forall_conserves :
    ¬∀ s, (system 0 Bool).Reachable s → Conserves 0 s := by
  intro h
  have hreach : (system 0 Bool).Reachable
      ((system 0 Bool).after (initialState 0 Bool) resumeUnpaid) :=
    TransitionSystem.Executes.reachable (.init rfl) (by decide)
  have hconserves := (h _ hreach).2 (by decide)
  revert hconserves
  decide

/-- The permit is released between the push onto the list and the re-check,
which takes it. -/
theorem conserves_releaseBeforeRecheck :
    Conserves 0 ((system 0 Bool).after (initialState 0 Bool)
      (suspendFirst ++ releaseOne ++
        [.recheckTake false, .resume false (some true)])) := by
  refine (conserves_of_resumesPaid_and_balance_iff_unpaid 0 Bool).1
    (by decide) _ ?_
  exact TransitionSystem.Executes.reachableWhere (.init rfl) (by decide)

end Semaphore
end Ethreads
