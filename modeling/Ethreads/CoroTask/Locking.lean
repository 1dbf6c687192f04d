import Ethreads.CoroTask.Transfer

/-!
# The mutex of a task

`mutex` is owned by whoever stands in a section that it protects.  So a caller
that has found `ready` unset waits in time: the coroutine stores `ready` and
notifies in one section, and nobody waits after it.
-/

namespace Ethreads
namespace CoroTask

variable {τ T E : Type*} {noop : BitVec 64}

def Pc.locks : Pc T E → Bool
  | testReady _ | wait _ | readResult _ | unlockState _ _ => true
  | _ => false

namespace CoroPc

def locks : CoroPc T E → Bool
  | storeResult _ | storeReady | notifyAll | unlockState => true
  | _ => false

def notified : CoroPc T E → Bool
  | initial | running | lockState _ | storeResult _ | storeReady
  | notifyAll => false
  | _ => true

end CoroPc

def Owner.caller? : Owner τ → Option τ
  | coroutine => none
  | caller t => some t

/-- Whoever stands in a section owns `mutex`, and nobody waits for a
notification that has been given. -/
structure Locked (s : State τ T E) : Prop where
  coroutine : s.coro.locks = true ↔ s.mutex = some .coroutine
  callers : Guards Pc.locks (s.mutex.bind Owner.caller?) s.pc
  wait : ∀ t b, s.pc t = .wait b → s.ready = false
  waiting : ∀ t b, s.pc t = .waiting b → s.coro.notified = false

theorem locks_afterStart (p : Purpose) :
    (afterStart p : Pc T E).locks = false := by
  cases p <;> rfl

theorem locks_afterSetContinuation (x y : BitVec 64) :
    (afterSetContinuation x y : Pc T E).locks = false := by
  unfold afterSetContinuation
  split <;> rfl

theorem locks_mark (p : Pc T E) : p.mark.locks = p.locks := by
  cases p <;> rfl

theorem Locked.mutex_of_locks {s : State τ T E} (h : Locked s) {t : τ}
    (ht : (s.pc t).locks = true) : s.mutex = some (.caller t) := by
  have howner := (h.callers t).mp ht
  cases hm : s.mutex with
  | none =>
      rw [hm] at howner
      cases howner
  | some o =>
      rw [hm] at howner
      cases o with
      | coroutine => cases howner
      | caller u =>
          cases howner
          rfl

theorem CoroPc.notified_of_not_published {p : CoroPc T E}
    (hp : p.published = false) : p.notified = false := by
  cases p <;> first | rfl | cases hp

variable [DecidableEq τ]

theorem callers_next {handle : τ → Handle noop} {s : State τ T E}
    {a : Action τ T E} (hoff : HandedOff handle s) (h : Locked s)
    (ha : Enabled handle s a) :
    Guards Pc.locks ((next handle s a).mutex.bind Owner.caller?)
      (next handle s a).pc := by
  have hcallers := h.callers
  have hstay : ∀ (t : τ) (p q : Pc T E), s.pc t = p → q.locks = p.locks →
      Guards Pc.locks (s.mutex.bind Owner.caller?)
        (Function.update s.pc t q) := by
    intro t p q hp hq
    exact hcallers.stay (by rw [hp, hq])
  cases a with
  | lockState t b =>
      refine hcallers.enter ?_ rfl
      rw [ha.2]
      rfl
  | relock t b =>
      refine hcallers.enter ?_ rfl
      rw [ha.2]
      rfl
  | wait t b =>
      refine hcallers.leave ?_ rfl
      rw [show s.pc t = .wait b from ha]
      rfl
  | unlockState t b r =>
      refine hcallers.leave ?_ rfl
      rw [show s.pc t = .unlockState b r from ha]
      rfl
  | coroLock c =>
      rw [ha.2] at hcallers
      exact hcallers
  | coroUnlock =>
      have hcoro : s.coro = .unlockState := ha
      rw [h.coroutine.mp (by rw [hcoro]; rfl)] at hcallers
      exact hcallers
  | notifyAll => exact hcallers.map locks_mark
  | startAgain t p => exact hstay t _ _ ha.1 (locks_afterStart p)
  | isDone t p => exact hstay t _ _ ha.1 (locks_afterStart p)
  | schedule t p => exact hstay t _ _ ha (locks_afterStart p)
  | continuationTaken t old =>
      exact hstay t _ _ ha.1 (locks_afterSetContinuation _ _)
  | setContinuation t old =>
      exact hstay t _ _ ha.1 (locks_afterSetContinuation _ _)
  | transferTo c t =>
      exact hstay t _ _ (hoff.suspended_of_transferTo ha) rfl
  | _ =>
      first
      | exact hcallers
      | exact hstay _ _ _ ha rfl
      | exact hstay _ _ _ ha.1 rfl

theorem coroutine_next {handle : τ → Handle noop} {s : State τ T E}
    {a : Action τ T E} (h : Locked s) (ha : Enabled handle s a) :
    (next handle s a).coro.locks = true ↔
      (next handle s a).mutex = some .coroutine := by
  have hcoro := h.coroutine
  have hnot : s.mutex ≠ some .coroutine → s.coro.locks ≠ true :=
    fun hm hc => hm (hcoro.mp hc)
  have hmove : ∀ p q : CoroPc T E, s.coro = p → p.locks = q.locks →
      (q.locks = true ↔ s.mutex = some .coroutine) := by
    intro p q hp hq
    rw [← hq, ← hp]
    exact hcoro
  cases a with
  | lockState t b =>
      refine iff_of_false (hnot ?_) nofun
      rw [ha.2]
      exact nofun
  | relock t b =>
      refine iff_of_false (hnot ?_) nofun
      rw [ha.2]
      exact nofun
  | wait t b =>
      refine iff_of_false (hnot ?_) nofun
      rw [h.mutex_of_locks (t := t) (by
        rw [show s.pc t = .wait b from ha]
        rfl)]
      exact nofun
  | unlockState t b r =>
      refine iff_of_false (hnot ?_) nofun
      rw [h.mutex_of_locks (t := t) (by
        rw [show s.pc t = .unlockState b r from ha]
        rfl)]
      exact nofun
  | coroLock c => exact iff_of_true rfl rfl
  | coroUnlock => exact iff_of_false nofun nofun
  | setReady old =>
      by_cases hc : hasContinuation old = true
      · simp only [next, hc, if_true]
        exact hmove _ _ ha.1 rfl
      · simp only [next, hc, Bool.false_eq_true, if_false]
        exact hmove _ _ ha.1 rfl
  | _ =>
      first
      | exact hcoro
      | exact hmove _ _ ha rfl
      | exact hmove _ _ ha.1 rfl

/-- A caller comes to `wait` only if the result is not ready. -/
theorem wait_next {handle : τ → Handle noop} {s : State τ T E}
    {a : Action τ T E} (h : Locked s) (ha : Enabled handle s a) :
    ∀ t b, (next handle s a).pc t = .wait b →
      (next handle s a).ready = false := by
  intro u b hu
  have hmove : ∀ (t : τ) (q : Pc T E),
      (next handle s a).pc = Function.update s.pc t q → q ≠ .wait b →
        (next handle s a).ready = s.ready →
          (next handle s a).ready = false := by
    intro t q hpc hq hready
    rw [hpc] at hu
    by_cases hut : u = t
    · subst hut
      rw [Function.update_self] at hu
      exact absurd hu hq
    · rw [Function.update_of_ne hut] at hu
      exact hready.trans (h.wait u b hu)
  have hfree : ∀ {q : Pc T E}, q.locks = false → q ≠ .wait b := by
    rintro q hq rfl
    cases hq
  cases a with
  | testFalse t c => exact ha.2
  | storeReady =>
      have hmutex := h.coroutine.mp (by
        rw [show s.coro = .storeReady from ha]
        rfl)
      have howner := h.mutex_of_locks (t := u) (by
        rw [show s.pc u = .wait b from hu]
        rfl)
      cases hmutex.symm.trans howner
  | notifyAll =>
      refine h.wait u b ?_
      cases hp : s.pc u <;> rw [show (next handle s .notifyAll).pc u =
        (s.pc u).mark from rfl, hp] at hu <;> first | exact hu | cases hu
  | startAgain t p => exact hmove t _ rfl (hfree (locks_afterStart p)) rfl
  | isDone t p => exact hmove t _ rfl (hfree (locks_afterStart p)) rfl
  | schedule t p => exact hmove t _ rfl (hfree (locks_afterStart p)) rfl
  | continuationTaken t old =>
      exact hmove t _ rfl (hfree (locks_afterSetContinuation _ _)) rfl
  | setContinuation t old =>
      exact hmove t _ rfl (hfree (locks_afterSetContinuation _ _)) rfl
  | _ =>
      first
      | exact h.wait u b hu
      | exact hmove _ _ rfl nofun rfl

theorem ne_waiting_afterStart (p : Purpose) (b : Bool) :
    (afterStart p : Pc T E) ≠ .waiting b := by
  cases p <;> exact nofun

theorem ne_waiting_afterSetContinuation (x y : BitVec 64) (b : Bool) :
    (afterSetContinuation x y : Pc T E) ≠ .waiting b := by
  unfold afterSetContinuation
  split <;> exact nofun

/-- A caller that waits has not been notified, and will be. -/
theorem waiting_next {handle : τ → Handle noop} {s : State τ T E}
    {a : Action τ T E} (hpub : Published s) (h : Locked s)
    (ha : Enabled handle s a) :
    ∀ t b, (next handle s a).pc t = .waiting b →
      (next handle s a).coro.notified = false := by
  intro u b hu
  have hmove : ∀ (t : τ) (q : Pc T E),
      (next handle s a).pc = Function.update s.pc t q → q ≠ .waiting b →
        (s.pc u = .waiting b → (next handle s a).coro.notified = false) →
          (next handle s a).coro.notified = false := by
    intro t q hpc hq hkeep
    rw [hpc] at hu
    by_cases hut : u = t
    · subst hut
      rw [Function.update_self] at hu
      exact absurd hu hq
    · rw [Function.update_of_ne hut] at hu
      exact hkeep hu
  have hold : s.pc u = .waiting b → s.coro.notified = false :=
    h.waiting u b
  have hlate : ∀ p : CoroPc T E, s.coro = p → p.notified = true →
      s.pc u ≠ .waiting b := by
    intro p hp hnotified hw
    rw [← hp, hold hw] at hnotified
    cases hnotified
  cases a with
  | wait t c =>
      have hready := h.wait t c ha
      exact CoroPc.notified_of_not_published (hpub.ready.symm.trans hready)
  | notifyAll =>
      have hmark : (s.pc u).mark = .waiting b := hu
      cases hp : s.pc u <;> rw [hp] at hmark <;> cases hmark
  | transferTo c t =>
      exact hmove t _ rfl nofun fun hw => absurd hw (hlate _ ha.1 rfl)
  | startAgain t p => exact hmove t _ rfl (ne_waiting_afterStart p b) hold
  | isDone t p => exact hmove t _ rfl (ne_waiting_afterStart p b) hold
  | schedule t p => exact hmove t _ rfl (ne_waiting_afterStart p b) hold
  | continuationTaken t old =>
      exact hmove t _ rfl (ne_waiting_afterSetContinuation _ _ b) hold
  | setContinuation t old =>
      exact hmove t _ rfl (ne_waiting_afterSetContinuation _ _ b) hold
  | _ =>
      first
      | rfl
      | exact hold hu
      | exact absurd hu (hlate _ ha rfl)
      | exact absurd hu (hlate _ ha.1 rfl)
      | exact hmove _ _ rfl nofun hold

theorem locked_reachable {handle : τ → Handle noop} {s : State τ T E}
    (hs : (system T E handle).Reachable s) : Locked s := by
  refine TransitionSystem.Reachable.invariant_of hs Locked
    (fun s hs => And.intro (published_reachable hs) (handedOff_reachable hs))
    ?_ fun s a hJ h ha => ⟨coroutine_next h ha, callers_next hJ.2 h ha,
      wait_next h ha, waiting_next hJ.1 h ha⟩
  rintro s rfl
  exact ⟨iff_of_false nofun nofun, fun t => iff_of_false nofun nofun,
    nofun, nofun⟩

end CoroTask
end Ethreads
