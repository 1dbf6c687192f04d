import Ethreads.AsyncEvent.Model
import Ethreads.AsyncWait.Stranding

/-!
# One signal, one waiter

A signal of an auto-reset event is taken by a wait that finds the flag raised,
is lost, or is still in the flag.  A coroutine that `wake_one` has taken out of
the list continues without taking a signal, so the event releases no more
waiters than it was signaled as long as every such coroutine is matched by a
signal that was lost.
-/

namespace Ethreads
namespace AsyncEvent

/-- The waits that have completed successfully are at most as many as the
signals. -/
def ReleasesOne {τ : Type*} (initialState : Bool) (s : State τ) : Prop :=
  s.shared.taken + s.woken ≤ s.shared.sets + initialState.toNat

instance {τ : Type*} (initialState : Bool) (s : State τ) :
    Decidable (ReleasesOne initialState s) :=
  inferInstanceAs (Decidable (_ ≤ _))

/-- A suspended coroutine is resumed while fewer coroutines have been resumed
than signals were lost. -/
def ResumesForLost {τ : Type*} (s : State τ) : Action τ → Prop
  | .resume _ _ _ => s.woken < s.shared.lost
  | _ => True

instance {τ : Type*} (s : State τ) (a : Action τ) :
    Decidable (ResumesForLost s a) := by
  cases a <;> dsimp only [ResumesForLost] <;> infer_instance

/-- Every signal was taken, is lost, or is in the flag. -/
def Event.Accounted (initialState : Bool) (x : Event) : Prop :=
  initialState.toNat + x.sets = x.taken + x.lost + x.signaled.toNat

theorem Event.accounted_initial (b : Bool) : (initial b).Accounted b := by
  simp [Event.Accounted, initial]

variable {b : Bool} {x y : Event}

theorem Event.accounted_set (h : x.Accounted b) : x.set.Accounted b := by
  simp only [Event.Accounted, Event.set, Bool.toNat_true] at h ⊢
  omega

theorem Event.accounted_reset (h : x.Accounted b) : x.reset.Accounted b := by
  simp only [Event.Accounted, Event.reset, Bool.toNat_false] at h ⊢
  omega

theorem Event.accounted_tryWait (h : x.Accounted b)
    (hy : x.tryWait true = some y) : y.Accounted b := by
  unfold Event.tryWait at hy
  split at hy
  · rename_i hsignaled
    cases hy
    simp only [Event.Accounted, hsignaled, Bool.toNat_true, Bool.not_true,
      Bool.toNat_false] at h ⊢
    omega
  · cases hy

theorem accounted_apply (h : x.Accounted b) (e : Operation) :
    ((asyncEvent true).apply e x).Accounted b := by
  cases e with
  | set => exact Event.accounted_set h
  | reset => exact Event.accounted_reset h
  | isSet => exact h
  | tryWait =>
      change ((x.tryWait true).getD x).Accounted b
      cases hy : x.tryWait true with
      | none => exact h
      | some y => exact Event.accounted_tryWait h hy

section Steps

variable {τ : Type*} [DecidableEq τ] {s : State τ} {a : Action τ}

open AsyncWait in
theorem accounted_next (h : s.shared.Accounted b)
    (ha : Enabled (asyncEvent true) s a) :
    (next (asyncEvent true) s a).shared.Accounted b := by
  rcases shared_cases ha with heq | ⟨k, hy⟩ | ⟨e, -, heq⟩
  · rw [heq]
    exact h
  · exact Event.accounted_tryWait h hy
  · rw [heq]
    exact accounted_apply h e

theorem accounted_reachable (hs : (system true b τ).Reachable s) :
    s.shared.Accounted b := by
  refine TransitionSystem.Reachable.invariant hs
    (fun s => s.shared.Accounted b) ?_ ?_
  · rintro s rfl
    exact Event.accounted_initial b
  · intro s a h ha
    exact accounted_next h ha

/-- Only `set` and `reset` lose signals, and none comes back. -/
theorem Event.lost_tryWait {isAutoReset : Bool}
    (hy : x.tryWait isAutoReset = some y) : y.lost = x.lost := by
  unfold Event.tryWait at hy
  split at hy
  · cases hy
    rfl
  · cases hy

theorem lost_le_apply (e : Operation) :
    x.lost ≤ ((asyncEvent true).apply e x).lost := by
  cases e with
  | set => exact Nat.le_add_right ..
  | reset => exact Nat.le_add_right ..
  | isSet => exact le_rfl
  | tryWait =>
      change x.lost ≤ ((x.tryWait true).getD x).lost
      cases hy : x.tryWait true with
      | none => exact le_rfl
      | some y => exact (Event.lost_tryWait hy).ge

open AsyncWait in
theorem lost_le_next (ha : Enabled (asyncEvent true) s a) :
    s.shared.lost ≤ (next (asyncEvent true) s a).shared.lost := by
  rcases shared_cases ha with heq | ⟨k, hy⟩ | ⟨e, -, heq⟩
  · rw [heq]
  · exact (Event.lost_tryWait hy).ge
  · rw [heq]
    exact lost_le_apply e

open AsyncWait in
/-- Where resumed coroutines are matched by lost signals they stay so. -/
theorem woken_le_lost_next (h : s.woken ≤ s.shared.lost)
    (ha : Enabled (asyncEvent true) s a) (hP : ResumesForLost s a) :
    (next (asyncEvent true) s a).woken ≤
      (next (asyncEvent true) s a).shared.lost := by
  have hlost := lost_le_next ha
  cases a with
  | resume t k r => exact hP
  | testAgain t k =>
      have hwoken :
          (next (asyncEvent true) s (.testAgain t k)).woken = s.woken := by
        dsimp only [next]
        split <;> rfl
      rw [hwoken]
      exact h.trans hlost
  | _ => exact h.trans hlost

theorem woken_le_lost (hs : (system true b τ).ReachableWhere ResumesForLost s) :
    s.woken ≤ s.shared.lost := by
  refine hs.invariant (fun s => s.woken ≤ s.shared.lost) ?_ ?_
  · rintro s rfl
    exact le_rfl
  · intro s a h ha hP
    exact woken_le_lost_next h ha hP

omit [DecidableEq τ] in
theorem releasesOne_of_accounted (h : s.shared.Accounted b)
    (hle : s.woken ≤ s.shared.lost) : ReleasesOne b s := by
  unfold Event.Accounted at h
  unfold ReleasesOne
  omega

omit [DecidableEq τ] in
/-- A resumed coroutine without a lost signal is one too many, once the flag is
down. -/
theorem not_releasesOne_of_not_signaled (h : s.shared.Accounted b)
    (hsignaled : s.shared.signaled = false)
    (hwoken : s.shared.lost < s.woken) : ¬ReleasesOne b s := by
  simp only [Event.Accounted, hsignaled, Bool.toNat_false] at h
  unfold ReleasesOne
  omega

theorem mayExceed_of_idle {t : τ} (hpc : s.pc t = .idle)
    (h : s.shared.Accounted b) (hwoken : s.shared.lost < s.woken) :
    (system true b τ).MayReach s fun s' => ¬ReleasesOne b s' := by
  cases hsignaled : s.shared.signaled with
  | false => exact .of_now (not_releasesOne_of_not_signaled h hsignaled hwoken)
  | true =>
      let s₁ := AsyncWait.next (asyncEvent true) s (.callWait t () false)
      have hwait : (system true b τ).Enabled s (.callWait t () false) := hpc
      have hover : (system true b τ).Enabled s₁ (.waitOver t () false) :=
        ⟨Function.update_self .., over_iff.mpr hsignaled⟩
      refine .of_next hwait (.of_next hover (.of_now ?_))
      have htaken : s₁.shared.tryWait true =
          some { s.shared with
            signaled := false
            taken := s.shared.taken + 1 } :=
        if_pos hsignaled
      have hshared := congrArg (Option.getD · s₁.shared) htaken
      apply not_releasesOne_of_not_signaled
      · exact accounted_next (s := s₁) h hover
      · exact congrArg Event.signaled hshared
      · have hlost := congrArg Event.lost hshared
        exact hlost.trans_lt hwoken

theorem mayExceed_of_resume {t : τ} {k : Unit} {r : Bool}
    (h : s.shared.Accounted b) (hwoken : s.shared.lost ≤ s.woken) :
    (system true b τ).MayReach
      (AsyncWait.next (asyncEvent true) s (.resume t k r))
      fun s' => ¬ReleasesOne b s' := by
  let s₁ := AsyncWait.next (asyncEvent true) s (.resume t k r)
  have hlt : s₁.shared.lost < s₁.woken := Nat.lt_succ_of_le hwoken
  have hpc : s₁.pc t = .afterResume r := Function.update_self ..
  cases r with
  | true => exact mayExceed_of_idle hpc h hlt
  | false =>
      have hrecheck : (system true b τ).Enabled s₁ (.recheck t) :=
        congrArg AsyncWait.Pc.rechecks hpc
      refine .of_next hrecheck (mayExceed_of_idle (t := t) ?_ h hlt)
      refine (Function.update_self ..).trans ?_
      rw [hpc]
      rfl

end Steps

/-! ## Auto-reset events -/

/-- An auto-reset event releases at most one waiter for each signal in the runs
in which a suspended coroutine is resumed only while fewer coroutines were
resumed than signals were lost; after the first other resumption it may release
more. -/
theorem releasesOne_of_resumesForLost_and_mayReach_not (b : Bool) (τ : Type*)
    [DecidableEq τ] :
    (∀ s, (system true b τ).ReachableWhere ResumesForLost s →
      ReleasesOne b s) ∧
    (∀ s a, (system true b τ).ReachableWhere ResumesForLost s →
      (system true b τ).Enabled s a → ¬ResumesForLost s a →
        (system true b τ).MayReach ((system true b τ).next s a)
          fun s' => ¬ReleasesOne b s') := by
  constructor
  · intro s hs
    exact releasesOne_of_accounted (accounted_reachable hs.reachable)
      (woken_le_lost hs)
  · intro s a hs ha hnot
    have haccounted := accounted_reachable hs.reachable
    cases a with
    | resume t k r =>
        exact mayExceed_of_resume (k := k) haccounted (not_lt.mp hnot)
    | _ => exact absurd trivial hnot

/-- A coroutine suspends itself, and a signal is set for it. -/
def setForCoroutine : List (Action Bool) :=
  AsyncWait.suspends true () ++
    [.operate false .set, .list false (.wakeLoad false),
      .list false (.wakeNext false true),
      .list false (.wakeCas false true none),
      .list false (.schedule false true none)]

theorem releasesOne_reset :
    ReleasesOne false ((system true false Bool).after
      (AsyncWait.initialState Bool Unit (initial false))
      (setForCoroutine ++ [.operate false .reset, .resume true () true])) := by
  refine (releasesOne_of_resumesForLost_and_mayReach_not false Bool).1 _ ?_
  exact TransitionSystem.Executes.reachableWhere (.init rfl) (by decide)

/-- The signal that has released the coroutine is still in the flag. -/
theorem not_forall_releasesOne :
    ¬∀ s : State Bool, (system true false Bool).Reachable s →
      ReleasesOne false s := by
  intro h
  have hreach : (system true false Bool).Reachable
      ((system true false Bool).after
        (AsyncWait.initialState Bool Unit (initial false))
        (setForCoroutine ++ [.resume true () true, .operate false .tryWait])) :=
    TransitionSystem.Executes.reachable (.init rfl) (by decide)
  exact absurd (h _ hreach) (by decide)

end AsyncEvent
end Ethreads
