import Ethreads.CoroTask.Completion
import Ethreads.CoroTask.Locking
import Ethreads.Support.Variant
import Mathlib.Data.Prod.Lex

/-!
# Progress of a task

From every state the callers and the coroutine can go on until `start` has
returned and the consumer has the result.  A caller reaches by itself the
point where it may have to wait: suspended, or before `mutex`.  Then the task
has been started, and whoever stands between the update of `started_` and the
scheduling can schedule it.  After that the coroutine can move unless the
consumer is in a section protected by `mutex`, and once it has finished the
consumer can move.
-/

namespace Ethreads
namespace CoroTask

variable {τ T E : Type*} {noop : BitVec 64}

/-! ## Program points -/

namespace Pc

/-- The caller is in a call and cannot have to wait yet. -/
def entering : Pc T E → Bool
  | casStarted _ | checkDone _ | schedule _ | awaitReady | exchangeStarted
  | loadWord | casWord _ | returnAwaiting => true
  | _ => false

/-- The consumer waits for the result or has it. -/
def settled : Pc T E → Bool
  | suspended | lockState _ | testReady _ | wait _ | waiting _ | notified _
  | readResult _ | unlockState _ _ | returned _ _ => true
  | _ => false

/-- How many steps of its own the caller needs to get to the end of the call,
or to where it waits for the coroutine. -/
def distance (word : BitVec 64) : Pc T E → ℕ
  | awaitReady => 14
  | exchangeStarted => 13
  | casStarted _ => 12
  | checkDone _ => 11
  | schedule _ => 10
  | loadWord => 9
  | casWord oldVal => if word = oldVal then 7 else 8
  | returnAwaiting => 6
  | lockState _ | notified _ => 5
  | testReady _ => 4
  | wait _ => 3
  | readResult _ => 2
  | unlockState _ _ => 1
  | _ => 0

end Pc

/-- How many steps the coroutine needs to finish. -/
def CoroPc.distance (word : BitVec 64) : CoroPc T E → ℕ
  | initial => 13
  | running => 12
  | lockState _ => 11
  | storeResult _ => 10
  | storeReady => 9
  | notifyAll => 8
  | unlockState => 7
  | loadWord => 6
  | casWord oldVal => if word = oldVal then 4 else 5
  | getContinuation => 3
  | storeFinal _ => 2
  | transfer _ => 1
  | finished => 0

/-- The steps by which the calls that have been made come to an end: there is
no new call and no destructor, and nobody wakes up without a notification.
The body ends with the given completion. -/
def Advances (c : Completion T E) : Action τ T E → Prop
  | .callIsReady _ | .callStart _ | .callGet _ | .coAwait _ | .wake _ _
  | .destruct | .foundUnstarted | .foundStarted | .foundFinal
  | .destroy => False
  | .complete c' => c' = c
  | _ => True

theorem settled_mark (p : Pc T E) : p.mark.settled = p.settled := by
  cases p <;> rfl

theorem updated_of_settled {p : Pc T E} (hp : p.settled = true) :
    p.updated = true := by
  cases p <;> first | rfl | cases hp

theorem pending_of_settled {p : Pc T E} (hp : p.settled = true) :
    p.pending = 0 := by
  cases p <;> first | rfl | cases hp

theorem consumes_of_settled {p : Pc T E} (hp : p.settled = true) :
    p.consumes = true := by
  cases p <;> first | rfl | cases hp

theorem consumes_of_locks {p : Pc T E} (hp : p.locks = true) :
    p.consumes = true := by
  cases p <;> first | rfl | cases hp

variable [DecidableEq τ]

/-- The task without new calls, whose body ends with the given completion. -/
def advancing (handle : τ → Handle noop) (c : Completion T E) :
    TransitionSystem (State τ T E) (Action τ T E) :=
  (system T E handle).restrict fun _ a => Advances c a

/-! ## The callers -/

/-- The caller is in a call, waits for the result, or has returned from
`start`. -/
def Pc.underway (p : Pc T E) : Prop :=
  p.entering = true ∨ p.settled = true ∨ p = .started

omit [DecidableEq τ] in
/-- After the flag `started_` a caller of `start` is at its end, and the
consumer goes on. -/
theorem underway_afterStart (p : Purpose) :
    (afterStart p : Pc T E).underway := by
  cases p with
  | start => exact Or.inr (Or.inr rfl)
  | get => exact Or.inr (Or.inl rfl)
  | awaitSuspend => exact Or.inl rfl

omit [DecidableEq τ] in
theorem distance_afterStart_lt (word : BitVec 64) (p : Purpose) :
    (afterStart p : Pc T E).distance word < 10 := by
  cases p <;> simp [afterStart, Pc.distance]

omit [DecidableEq τ] in
theorem underway_afterSetContinuation (x y : BitVec 64) :
    (afterSetContinuation x y : Pc T E).underway := by
  unfold afterSetContinuation
  split
  · exact Or.inl rfl
  · exact Or.inr (Or.inl rfl)

omit [DecidableEq τ] in
theorem distance_afterSetContinuation_lt (word x y : BitVec 64) :
    (afterSetContinuation x y : Pc T E).distance word < 7 := by
  unfold afterSetContinuation
  split <;> simp [Pc.distance]

/-- The steps that bring a caller nearer to the end of its call. -/
structure Nears (handle : τ → Handle noop) (c : Completion T E)
    (s : State τ T E) (t : τ) (a : Action τ T E) (q : Pc T E) : Prop where
  enabled : Enabled handle s a
  advances : Advances c a
  pc : (next handle s a).pc = Function.update s.pc t q
  distance : q.distance (next handle s a).word < (s.pc t).distance s.word
  consumes : q.consumes = (s.pc t).consumes
  underway : q.underway

theorem Nears.of_pc {handle : τ → Handle noop} {c : Completion T E}
    {s : State τ T E} {t : τ} {a : Action τ T E} {p q : Pc T E}
    (hp : s.pc t = p) (ha : Enabled handle s a) (hadvances : Advances c a)
    (hpc : (next handle s a).pc = Function.update s.pc t q)
    (hdistance : q.distance (next handle s a).word < p.distance s.word)
    (hconsumes : q.consumes = p.consumes) (hq : q.underway) :
    Nears handle c s t a q :=
  ⟨ha, hadvances, hpc, by rwa [hp], by rwa [hp], hq⟩

/-- A caller that cannot have to wait yet can take a step. -/
theorem exists_nears {handle : τ → Handle noop} {s : State τ T E}
    (hoff : HandedOff handle s) (c : Completion T E) {t : τ}
    (ht : (s.pc t).entering = true) :
    ∃ a q, Nears handle c s t a q := by
  have hlt : ∀ (p : Purpose) (n : ℕ), 10 ≤ n →
      (afterStart p : Pc T E).distance s.word < n :=
    fun p n hn => (distance_afterStart_lt s.word p).trans_le hn
  cases hp : s.pc t with
  | casStarted p =>
      by_cases hstarted : s.started = true
      · exact ⟨.startAgain t p, _, .of_pc hp ⟨hp, hstarted⟩ trivial rfl
          (hlt p 12 (by decide)) (consumes_afterStart p)
          (underway_afterStart p)⟩
      · rw [Bool.not_eq_true] at hstarted
        exact ⟨.startFirst t p, .checkDone p, .of_pc hp ⟨hp, hstarted⟩
          trivial rfl (Nat.lt_succ_self 11) rfl (Or.inl rfl)⟩
  | checkDone p =>
      by_cases hdone : s.coro.isDone = true
      · exact ⟨.isDone t p, _, .of_pc hp ⟨hp, hdone⟩ trivial rfl
          (hlt p 11 (by decide)) (consumes_afterStart p)
          (underway_afterStart p)⟩
      · rw [Bool.not_eq_true] at hdone
        exact ⟨.notDone t p, .schedule p, .of_pc hp ⟨hp, hdone⟩ trivial rfl
          (Nat.lt_succ_self 10) rfl (Or.inl rfl)⟩
  | schedule p =>
      exact ⟨.schedule t p, _, .of_pc hp hp trivial rfl (hlt p 10 le_rfl)
        (consumes_afterStart p) (underway_afterStart p)⟩
  | awaitReady =>
      by_cases hready : s.ready = true
      · exact ⟨.awaitReadyTrue t, .lockState true, .of_pc hp ⟨hp, hready⟩
          trivial rfl (by decide : 5 < 14) rfl (Or.inr (Or.inl rfl))⟩
      · rw [Bool.not_eq_true] at hready
        exact ⟨.awaitReadyFalse t, .exchangeStarted, .of_pc hp ⟨hp, hready⟩
          trivial rfl (Nat.lt_succ_self 13) rfl (Or.inl rfl)⟩
  | exchangeStarted =>
      by_cases hstarted : s.started = true
      · exact ⟨.exchangeAgain t, .loadWord, .of_pc hp ⟨hp, hstarted⟩ trivial
          rfl (by decide : 9 < 13) rfl (Or.inl rfl)⟩
      · rw [Bool.not_eq_true] at hstarted
        exact ⟨.exchangeFirst t, .schedule .awaitSuspend,
          .of_pc hp ⟨hp, hstarted⟩ trivial rfl (by decide : 10 < 13) rfl
            (Or.inl rfl)⟩
  | loadWord =>
      refine ⟨.loadWord t, .casWord s.word, .of_pc hp hp trivial rfl ?_ rfl
        (Or.inl rfl)⟩
      simp [next, State.goto, Pc.distance]
  | casWord old =>
      have hok := hoff.ok t
      rw [hp] at hok
      by_cases hword : s.word = old
      · refine ⟨.setContinuation t old, _, .of_pc hp ⟨hp, hok.2, hword⟩
          trivial rfl ?_ (consumes_afterSetContinuation _ _)
          (underway_afterSetContinuation _ _)⟩
        refine (distance_afterSetContinuation_lt _ _ _).trans_le ?_
        simp [Pc.distance, hword]
      · refine ⟨.setContinuationFails t old, .casWord s.word,
          .of_pc hp ⟨hp, hok.2⟩ trivial rfl ?_ rfl (Or.inl rfl)⟩
        simp [next, State.goto, Pc.distance, hword]
  | returnAwaiting =>
      exact ⟨.returnAwaiting t, .lockState true, .of_pc hp hp trivial rfl
        (Nat.lt_succ_self 5) rfl (Or.inr (Or.inl rfl))⟩
  | _ =>
      rw [hp] at ht
      cases ht

/-- A caller comes to the end of `start`, or to where it may have to wait. -/
theorem mayReach_settled {handle : τ → Handle noop} {s : State τ T E}
    (hs : (system T E handle).Reachable s) (c : Completion T E) {t : τ}
    (ht : (s.pc t).underway) :
    (advancing handle c).MayReach s fun s' =>
      (s'.pc t).consumes = (s.pc t).consumes ∧
        ((s'.pc t).settled = true ∨ s'.pc t = .started) := by
  have hstart : (system T E handle).Reachable s ∧ (s.pc t).underway ∧
      (s.pc t).consumes = (s.pc t).consumes := ⟨hs, ht, rfl⟩
  refine TransitionSystem.MayReach.of_variant
    (I := fun s' => (system T E handle).Reachable s' ∧ (s'.pc t).underway ∧
      (s'.pc t).consumes = (s.pc t).consumes)
    (fun s' => (s'.pc t).distance s'.word) ?_ hstart
  rintro s' ⟨hs', hunderway, hconsumes⟩ hnot
  have hentering : (s'.pc t).entering = true := by
    rcases hunderway with h | h
    · exact h
    · exact absurd ⟨hconsumes, h⟩ hnot
  obtain ⟨a, q, hnears⟩ := exists_nears (handedOff_reachable hs') c hentering
  have hpc : (next handle s' a).pc t = q := by
    rw [hnears.pc, Function.update_self]
  refine ⟨a, ⟨hnears.enabled, hnears.advances⟩, ⟨?_, ?_, ?_⟩, ?_⟩
  · exact .step hs' hnears.enabled trivial
  · change ((next handle s' a).pc t).underway
    rw [hpc]
    exact hnears.underway
  · change ((next handle s' a).pc t).consumes = _
    rw [hpc, hnears.consumes, hconsumes]
  · change ((next handle s' a).pc t).distance (next handle s' a).word < _
    rw [hpc]
    exact hnears.distance

/-! ## Scheduling -/

section Scheduling

variable [Fintype τ]

/-- The task of a consumer that waits gets scheduled. -/
theorem mayReach_scheduled {handle : τ → Handle noop} {s : State τ T E}
    (hs : (system T E handle).Reachable s) (c : Completion T E) {t : τ}
    (ht : (s.pc t).settled = true) :
    (advancing handle c).MayReach s fun s' =>
      0 < s'.scheduled ∧ (s'.pc t).settled = true := by
  have hlaunch := launched_reachable hs
  by_cases hscheduled : 0 < s.scheduled
  · exact .of_now ⟨hscheduled, ht⟩
  have haccount := hlaunch.account
  rw [hlaunch.updated t (updated_of_settled ht)] at haccount
  have hpos : 0 < tally Pc.pending s.pc := by
    simp only [Bool.toNat_true] at haccount
    omega
  obtain ⟨u, hu⟩ := tally_pos_iff.mp hpos
  have hut : t ≠ u := by
    rintro rfl
    rw [pending_of_settled ht] at hu
    cases hu
  have hone : (s.pc u).pending = 1 := by
    cases hp : s.pc u <;> rw [hp] at hu <;> first | rfl | cases hu
  have hdone := hlaunch.not_isDone hone
  have hschedule : ∀ (s' : State τ T E) (p : Purpose),
      s'.pc u = .schedule p → (s'.pc t).settled = true →
        (advancing handle c).MayReach s' fun s' =>
          0 < s'.scheduled ∧ (s'.pc t).settled = true := by
    intro s' p hp hsettled
    have ha : (advancing handle c).Enabled s' (.schedule u p) := ⟨hp, trivial⟩
    refine .of_next ha (.of_now ⟨Nat.succ_pos _, ?_⟩)
    change (Function.update s'.pc u (afterStart p) t).settled = true
    rw [Function.update_of_ne hut]
    exact hsettled
  cases hp : s.pc u with
  | checkDone p =>
      have ha : (advancing handle c).Enabled s (.notDone u p) :=
        ⟨⟨hp, hdone⟩, trivial⟩
      refine .of_next ha (hschedule _ p ?_ ?_)
      · exact Function.update_self ..
      · change (Function.update s.pc u (.schedule p) t).settled = true
        rw [Function.update_of_ne hut]
        exact ht
  | schedule p => exact hschedule s p hp ht
  | _ =>
      rw [hp] at hone
      cases hone

end Scheduling

/-! ## The coroutine and the consumer -/

/-- The steps that bring the coroutine nearer to its end. -/
structure Runs (handle : τ → Handle noop) (c : Completion T E)
    (s : State τ T E) (a : Action τ T E) : Prop where
  enabled : Enabled handle s a
  advances : Advances c a
  distance : (next handle s a).coro.distance (next handle s a).word <
    s.coro.distance s.word
  scheduled : (next handle s a).scheduled = s.scheduled
  settled : ∀ t, (s.pc t).settled = true →
    ((next handle s a).pc t).settled = true

theorem Runs.of_coro {handle : τ → Handle noop} {c : Completion T E}
    {s : State τ T E} {a : Action τ T E} {p : CoroPc T E} (hp : s.coro = p)
    (ha : Enabled handle s a) (hadvances : Advances c a)
    (hdistance : (next handle s a).coro.distance (next handle s a).word <
      p.distance s.word)
    (hscheduled : (next handle s a).scheduled = s.scheduled)
    (hpc : (next handle s a).pc = s.pc) : Runs handle c s a :=
  ⟨ha, hadvances, by rwa [hp], hscheduled, fun t ht => by rwa [hpc]⟩

/-- A coroutine that was scheduled and does not wait for `mutex` can take a
step. -/
theorem exists_runs {handle : τ → Handle noop} {s : State τ T E}
    (hpub : Published s) (hoff : HandedOff handle s) (c : Completion T E)
    (hscheduled : 0 < s.scheduled) (hfinished : s.coro ≠ .finished)
    (hfree : ∀ c, s.coro = .lockState c → s.mutex = none) :
    ∃ a, Runs handle c s a := by
  cases hp : s.coro with
  | initial =>
      exact ⟨.resumeTask, .of_coro hp ⟨hp, hscheduled⟩ trivial
        (Nat.lt_succ_self 12) rfl rfl⟩
  | running =>
      exact ⟨.complete c, .of_coro hp hp rfl (Nat.lt_succ_self 11) rfl rfl⟩
  | lockState d =>
      exact ⟨.coroLock d, .of_coro hp ⟨hp, hfree d hp⟩ trivial
        (Nat.lt_succ_self 10) rfl rfl⟩
  | storeResult d =>
      exact ⟨.storeResult d, .of_coro hp hp trivial (Nat.lt_succ_self 9) rfl
        rfl⟩
  | storeReady =>
      exact ⟨.storeReady, .of_coro hp hp trivial (Nat.lt_succ_self 8) rfl rfl⟩
  | notifyAll =>
      refine ⟨.notifyAll, hp, trivial, ?_, rfl, fun t ht => ?_⟩
      · rw [hp]
        exact Nat.lt_succ_self 7
      · exact (settled_mark (s.pc t)).trans ht
  | unlockState =>
      exact ⟨.coroUnlock, .of_coro hp hp trivial (Nat.lt_succ_self 6) rfl rfl⟩
  | loadWord =>
      refine ⟨.coroLoadWord, .of_coro hp hp trivial ?_ rfl rfl⟩
      simp [next, CoroPc.distance]
  | casWord old =>
      have hok := hpub.ok
      rw [hp] at hok
      by_cases hword : s.word = old
      · refine ⟨.setReady old, .of_coro hp ⟨hp, hok, hword⟩ trivial ?_ rfl
          rfl⟩
        by_cases hc : hasContinuation old = true <;>
          simp [next, hc, CoroPc.distance, hword]
      · refine ⟨.setReadyFails old, .of_coro hp ⟨hp, hok⟩ trivial ?_ rfl rfl⟩
        simp [next, CoroPc.distance, hword]
  | getContinuation =>
      exact ⟨.getContinuation, .of_coro hp hp trivial (Nat.lt_succ_self 2) rfl
        rfl⟩
  | storeFinal d =>
      exact ⟨.storeFinal d, .of_coro hp hp trivial (Nat.lt_succ_self 1) rfl
        rfl⟩
  | transfer d =>
      by_cases hnoop : d = noop
      · exact ⟨.transferNoop d, .of_coro hp ⟨hp, hnoop⟩ trivial Nat.zero_lt_one
          rfl rfl⟩
      · obtain ⟨t, ht⟩ := hoff.transfers (by rw [hp]; exact hnoop)
        have hok := hoff.ok t
        rw [ht] at hok
        have howes := hok.2
        rw [hp] at howes
        have hconsumer := (hoff.consumer t).mp (by rw [ht]; rfl)
        refine ⟨.transferTo d t, ⟨hp, hnoop, hconsumer, howes.symm⟩, trivial,
          ?_, rfl, fun u hu => ?_⟩
        · rw [hp]
          exact Nat.zero_lt_one
        · change (Function.update s.pc t (.lockState true) u).settled = true
          by_cases hut : u = t
          · rw [hut, Function.update_self]
            rfl
          · rw [Function.update_of_ne hut]
            exact hu
  | finished => exact absurd hp hfinished

/-- The steps that bring a waiting consumer nearer to its result, with those
of the coroutine left aside. -/
structure Consumes (handle : τ → Handle noop) (c : Completion T E)
    (s : State τ T E) (t : τ) (a : Action τ T E) (q : Pc T E) : Prop where
  enabled : Enabled handle s a
  advances : Advances c a
  pc : (next handle s a).pc = Function.update s.pc t q
  settled : q.settled = true
  distance : q.distance s.word < (s.pc t).distance s.word
  coro : (next handle s a).coro = s.coro
  word : (next handle s a).word = s.word
  scheduled : (next handle s a).scheduled = s.scheduled

theorem Consumes.of_pc {handle : τ → Handle noop} {c : Completion T E}
    {s : State τ T E} {t : τ} {a : Action τ T E} {p q : Pc T E}
    (hp : s.pc t = p) (ha : Enabled handle s a) (hadvances : Advances c a)
    (hpc : (next handle s a).pc = Function.update s.pc t q)
    (hq : q.settled = true) (hdistance : q.distance s.word < p.distance s.word)
    (hcoro : (next handle s a).coro = s.coro)
    (hword : (next handle s a).word = s.word)
    (hscheduled : (next handle s a).scheduled = s.scheduled) :
    Consumes handle c s t a q :=
  ⟨ha, hadvances, hpc, hq, by rwa [hp], hcoro, hword, hscheduled⟩

/-- A consumer that is neither suspended nor in the wait set can take a step,
unless it waits for `mutex`. -/
theorem exists_consumes {handle : τ → Handle noop} {s : State τ T E}
    (c : Completion T E) {t : τ} (ht : (s.pc t).settled = true)
    (hsuspended : s.pc t ≠ .suspended) (hwaiting : ∀ b, s.pc t ≠ .waiting b)
    (hreturned : ∀ b r, s.pc t ≠ .returned b r)
    (hmutex : s.mutex = none ∨ (s.pc t).locks = true) :
    ∃ a q, Consumes handle c s t a q := by
  have hfree : (s.pc t).locks = false → s.mutex = none := by
    intro hlocks
    rcases hmutex with h | h
    · exact h
    · cases hlocks.symm.trans h
  cases hp : s.pc t with
  | suspended => exact absurd hp hsuspended
  | lockState b =>
      rw [hp] at hfree
      exact ⟨.lockState t b, .testReady b, .of_pc hp ⟨hp, hfree rfl⟩ trivial
        rfl rfl (Nat.lt_succ_self 4) rfl rfl rfl⟩
  | testReady b =>
      by_cases hready : s.ready = true
      · exact ⟨.testTrue t b, .readResult b, .of_pc hp ⟨hp, hready⟩ trivial
          rfl rfl (by decide : 2 < 4) rfl rfl rfl⟩
      · rw [Bool.not_eq_true] at hready
        exact ⟨.testFalse t b, .wait b, .of_pc hp ⟨hp, hready⟩ trivial rfl rfl
          (Nat.lt_succ_self 3) rfl rfl rfl⟩
  | wait b =>
      exact ⟨.wait t b, .waiting b, .of_pc hp hp trivial rfl rfl
        (by decide : 0 < 3) rfl rfl rfl⟩
  | waiting b => exact absurd hp (hwaiting b)
  | notified b =>
      rw [hp] at hfree
      exact ⟨.relock t b, .testReady b, .of_pc hp ⟨hp, hfree rfl⟩ trivial rfl
        rfl (Nat.lt_succ_self 4) rfl rfl rfl⟩
  | readResult b =>
      exact ⟨.readResult t b, .unlockState b s.result, .of_pc hp hp trivial
        rfl rfl (Nat.lt_succ_self 1) rfl rfl rfl⟩
  | unlockState b r =>
      exact ⟨.unlockState t b r, .returned b r, .of_pc hp hp trivial rfl rfl
        Nat.zero_lt_one rfl rfl rfl⟩
  | returned b r => exact absurd hp (hreturned b r)
  | _ =>
      rw [hp] at ht
      cases ht

omit [DecidableEq τ] in
/-- Only the consumer that waits can keep the coroutine from `mutex`. -/
theorem free_or_locks {handle : τ → Handle noop} {s : State τ T E}
    (hoff : HandedOff handle s) (hlocked : Locked s) {t : τ}
    (ht : (s.pc t).settled = true) (hcoro : s.coro.locks = false) :
    s.mutex = none ∨ (s.pc t).locks = true := by
  cases hm : s.mutex with
  | none => exact Or.inl rfl
  | some o =>
      right
      cases o with
      | coroutine => cases hcoro.symm.trans (hlocked.coroutine.mpr hm)
      | caller u =>
          have hu : (s.pc u).locks = true := by
            refine (hlocked.callers u).mpr ?_
            rw [hm]
            rfl
          have hut : u = t := hoff.consumer.unique (consumes_of_locks hu)
            (consumes_of_settled ht)
          rwa [hut] at hu

/-- A consumer that waits while the coroutine cannot move can move. -/
theorem exists_consumes_of_blocked {handle : τ → Handle noop}
    {s : State τ T E} (hs : (system T E handle).Reachable s)
    (c : Completion T E) {t : τ} (ht : (s.pc t).settled = true)
    (hreturned : ∀ b r, s.pc t ≠ .returned b r)
    (hblocked : s.coro = .finished ∨
      (∃ d, s.coro = .lockState d) ∧ s.mutex ≠ none) :
    ∃ a q, Consumes handle c s t a q := by
  have hoff := handedOff_reachable hs
  have hlocked := locked_reachable hs
  rcases hblocked with hcoro | ⟨⟨d, hcoro⟩, hmutex⟩
  · refine exists_consumes c ht ?_ ?_ hreturned
      (free_or_locks hoff hlocked ht (by rw [hcoro]; rfl))
    · intro hp
      have hok := hoff.ok t
      rw [hp] at hok
      have howes := hok.2
      rw [hcoro] at howes
      exact howes.elim
    · intro b hp
      have hnotified := hlocked.waiting t b hp
      rw [hcoro] at hnotified
      cases hnotified
  · have hlocks : (s.pc t).locks = true := by
      have hfree : s.mutex = none ∨ (s.pc t).locks = true :=
        free_or_locks hoff hlocked ht (by rw [hcoro]; rfl)
      exact hfree.resolve_left hmutex
    refine exists_consumes c ht ?_ ?_ hreturned (Or.inr hlocks)
    · intro hp
      rw [hp] at hlocks
      cases hlocks
    · intro b hp
      rw [hp] at hlocks
      cases hlocks

/-- A consumer that waits gets the result once the task has been scheduled. -/
theorem mayReach_returned_of_scheduled {handle : τ → Handle noop}
    {s : State τ T E} (hs : (system T E handle).Reachable s)
    (c : Completion T E) {t : τ} (ht : (s.pc t).settled = true)
    (hscheduled : 0 < s.scheduled) :
    (advancing handle c).MayReach s fun s' =>
      ∃ b r, s'.pc t = .returned b r := by
  have hstart : (system T E handle).Reachable s ∧ (s.pc t).settled = true ∧
      0 < s.scheduled := ⟨hs, ht, hscheduled⟩
  refine TransitionSystem.MayReach.of_variant
    (I := fun s => (system T E handle).Reachable s ∧
      (s.pc t).settled = true ∧ 0 < s.scheduled)
    (fun s => toLex (s.coro.distance s.word, (s.pc t).distance s.word)) ?_
    hstart
  rintro s ⟨hs, hsettled, hscheduled⟩ hnot
  have hreturned : ∀ b r, s.pc t ≠ .returned b r :=
    fun b r hp => hnot ⟨b, r, hp⟩
  by_cases hblocked : s.coro = .finished ∨
      (∃ d, s.coro = .lockState d) ∧ s.mutex ≠ none
  · obtain ⟨a, q, ha⟩ :=
      exists_consumes_of_blocked hs c hsettled hreturned hblocked
    have hpc : (next handle s a).pc t = q := by
      rw [ha.pc, Function.update_self]
    refine ⟨a, ⟨ha.enabled, ha.advances⟩,
      ⟨.step hs ha.enabled trivial, ?_, ?_⟩, ?_⟩
    · change ((next handle s a).pc t).settled = true
      rw [hpc]
      exact ha.settled
    · change 0 < (next handle s a).scheduled
      rw [ha.scheduled]
      exact hscheduled
    · change toLex ((next handle s a).coro.distance (next handle s a).word,
        ((next handle s a).pc t).distance (next handle s a).word) < _
      rw [ha.coro, ha.word, hpc]
      exact Prod.Lex.toLex_lt_toLex.mpr (Or.inr ⟨rfl, ha.distance⟩)
  · have hfinished : s.coro ≠ .finished := fun h => hblocked (Or.inl h)
    have hfree : ∀ d, s.coro = .lockState d → s.mutex = none := by
      intro d hd
      by_contra hm
      exact hblocked (Or.inr ⟨⟨d, hd⟩, hm⟩)
    obtain ⟨a, ha⟩ := exists_runs (published_reachable hs)
      (handedOff_reachable hs) c hscheduled hfinished hfree
    refine ⟨a, ⟨ha.enabled, ha.advances⟩,
      ⟨.step hs ha.enabled trivial, ha.settled t hsettled, ?_⟩, ?_⟩
    · change 0 < (next handle s a).scheduled
      rw [ha.scheduled]
      exact hscheduled
    · exact Prod.Lex.toLex_lt_toLex.mpr (Or.inl ha.distance)

theorem mayReach_started {handle : τ → Handle noop} {s : State τ T E}
    (hs : (system T E handle).Reachable s) (c : Completion T E) {t : τ}
    (ht : (s.pc t).underway) (hconsumes : (s.pc t).consumes = false) :
    (advancing handle c).MayReach s fun s' => s'.pc t = .started := by
  refine (mayReach_settled hs c ht).mono fun s' hs' => ?_
  obtain ⟨hkept, hsettled | hstarted⟩ := hs'
  · rw [hconsumes, consumes_of_settled hsettled] at hkept
    cases hkept
  · exact hstarted

theorem mayReach_returned [Fintype τ] {handle : τ → Handle noop}
    {s : State τ T E} (hs : (system T E handle).Reachable s)
    (c : Completion T E) {t : τ} (hconsumes : (s.pc t).consumes = true) :
    (advancing handle c).MayReach s fun s' =>
      ∃ b r, s'.pc t = .returned b r := by
  have hunderway : (s.pc t).underway := by
    cases hp : s.pc t <;> rw [hp] at hconsumes <;>
      first
      | exact Or.inl rfl
      | exact Or.inr (Or.inl rfl)
      | cases hconsumes
  refine (mayReach_settled hs c hunderway).reachable_of_restrict hs |>.trans ?_
  rintro s' ⟨hs', hkept, hsettled | hstarted⟩
  · refine (mayReach_scheduled hs' c hsettled).reachable_of_restrict hs'
      |>.trans ?_
    rintro s'' ⟨hs'', hscheduled, hsettled'⟩
    exact mayReach_returned_of_scheduled hs'' c hsettled' hscheduled
  · rw [hstarted, hconsumes] at hkept
    cases hkept

end CoroTask
end Ethreads
