import Ethreads.AsyncWait.Release
import Ethreads.Barrier.Model

/-!
# Coroutines at a barrier

`arrive` completes a phase, reads the phase again and calls `wake_all` in
three steps, and `resume_impl` tests nothing.  A `wake_all` that comes late
takes coroutines that wait for the next phase and resumes them.  A phase that
is completed by an inherited operation, or between the test and the push of a
coroutine, leaves coroutines in the list.
-/

namespace Ethreads
namespace Barrier

abbrev State (τ : Type*) := AsyncWait.State τ Members ℕ

abbrev Action (τ : Type*) := AsyncWait.Action τ Operation ℕ

/-- A barrier with the threads and coroutines that take part. -/
abbrev asyncSystem (expected : ℤ) (τ : Type*) [DecidableEq τ] :
    TransitionSystem (State τ) (Action τ) :=
  AsyncWait.system asyncBarrier (initial expected) τ

/-- A coroutine continues after `co_await` only when the phase of its token is
not the phase of the barrier. -/
def ReleasesInTime {τ : Type*} (s : State τ) : Prop :=
  ∀ a, AsyncWait.Enabled asyncBarrier s a → ∀ token ∈ a.continues,
    s.shared.phase ≠ token

/-- No coroutine whose phase is over is left in the list when nothing is under
way. -/
def StrandsNobody {τ : Type*} (s : State τ) : Prop :=
  s.Quiescent → ∀ t token r, s.pc t = .suspended token r → s.InWaiters t →
    s.shared.phase = token

/-! ## Waits of earlier phases are over for good -/

/-- The waits for the current phase and for earlier ones have begun; a wait
ends when an arrival completes the phase. -/
def phases : AsyncWait.Protocol asyncBarrier where
  Issued token x := token ≤ x.phase
  ends e x := (asyncBarrier.apply e x).phase != x.phase
  wakesAll e x h := by
    rcases after_cases e x with heq | heq | heq <;> cases heq.symm.trans h
  issued_test e x token h := by
    rcases after_cases e x with heq | heq | heq <;> cases heq.symm.trans h
    exact phase_le_apply e x
  issued_apply e x token h := h.trans (phase_le_apply e x)
  issued_pass j x y token hy h := by
    rw [Members.wait_eq hy]
    exact h
  over_apply e x token h hover := by
    rw [over_iff] at hover ⊢
    have hle := phase_le_apply e x
    omega
  over_pass j x y token hy := by
    rw [Members.wait_eq hy]
  over_of_not_ends e x token h hover := by
    rw [over_iff] at hover ⊢
    have heq : (asyncBarrier.apply e x).phase = x.phase := by simpa using h
    rwa [heq] at hover

theorem phases_permanent : phases.Permanent := by
  intro token x hover
  rw [over_iff, not_not] at hover
  exact hover.ge

variable {τ : Type*}

theorem releasesInTime_iff {s : State τ} :
    ReleasesInTime s ↔ AsyncWait.ContinuesInTime asyncBarrier s := by
  unfold ReleasesInTime AsyncWait.ContinuesInTime
  simp only [over_iff]

theorem strandsNobody_iff {s : State τ} :
    StrandsNobody s ↔ AsyncWait.StrandsNobody asyncBarrier s := by
  unfold StrandsNobody AsyncWait.StrandsNobody
  simp only [over_iff, not_not]

/-! ## Coroutines that continue early -/

/-- Coroutines continue after their phase in the runs in which `wake_all` never
finds a coroutine that waits for the current phase; whenever it finds one, a
coroutine may be released in its phase. -/
theorem releasesInTime_of_wakesOver_and_mayReach_not (expected : ℤ)
    (τ : Type*) [DecidableEq τ] :
    (∀ s : State τ, (asyncSystem expected τ).ReachableWhere
        (AsyncWait.WakesOver asyncBarrier) s → ReleasesInTime s) ∧
    (∀ (s : State τ) a, (asyncSystem expected τ).Reachable s →
      (asyncSystem expected τ).Enabled s a →
        ¬AsyncWait.WakesOver asyncBarrier s a →
          (asyncSystem expected τ).MayReach
            ((asyncSystem expected τ).next s a)
            fun s' => ¬ReleasesInTime s') := by
  simp only [releasesInTime_iff]
  exact AsyncWait.continuesInTime_of_wakesOver_and_mayReach_not phases
    phases_permanent (initial expected) τ

def arrives (t : Bool) (token : ℕ) : List (Action Bool) :=
  [.operate t (.arrive 1 false), .testAgain t token]

/-- A participant finds the phase over and resumes the coroutine of `u`. -/
def wakes (t u : Bool) (token : ℕ) : List (Action Bool) :=
  .testAgain t token :: AsyncWait.wakesOnly t u

theorem releasesInTime_secondArrival :
    ReleasesInTime ((asyncSystem 2 Bool).after
      (AsyncWait.initialState Bool ℕ (initial 2))
      (arrives true 0 ++ AsyncWait.suspends true 0 ++
        [.operate false (.arrive 1 false)] ++ wakes false true 0)) := by
  refine (releasesInTime_of_wakesOver_and_mayReach_not 2 Bool).1 _ ?_
  exact TransitionSystem.Executes.reachableWhere (.init rfl) (by decide)

/-- The second participant completes the first phase and calls `wake_all` only
when the first one has suspended itself in the second phase. -/
theorem not_forall_releasesInTime :
    ¬∀ s : State Bool, (asyncSystem 2 Bool).Reachable s →
      ReleasesInTime s := by
  intro h
  have hreach : (asyncSystem 2 Bool).Reachable
      ((asyncSystem 2 Bool).after (AsyncWait.initialState Bool ℕ (initial 2))
        (arrives true 0 ++ [.operate false (.arrive 1 false)] ++
          arrives true 1 ++ AsyncWait.suspends true 1 ++ wakes false true 0)) :=
    TransitionSystem.Executes.reachable (.init rfl) (by decide)
  exact h _ hreach (.resume true 1 true) (by decide) 1 rfl rfl

/-! ## Coroutines that are left behind -/

/-- No coroutine is left behind in runs in which a phase is completed by
`arrive`, or with nobody in the list, or while somebody is about to wake all,
and in which a coroutine is pushed in its phase or while somebody is about to
wake all. -/
theorem asyncBarrier_strandsNobody_of_timely (expected : ℤ) (τ : Type*)
    [DecidableEq τ] (s : State τ)
    (hs : (asyncSystem expected τ).ReachableWhere (AsyncWait.Timely phases)
      s) : StrandsNobody s :=
  strandsNobody_iff.mpr (AsyncWait.strandsNobody_of_timely hs)

theorem strandsNobody_secondArrival :
    StrandsNobody ((asyncSystem 2 Bool).after
      (AsyncWait.initialState Bool ℕ (initial 2))
      (arrives true 0 ++ AsyncWait.suspends true 0 ++
        [.operate false (.arrive 1 false)] ++ wakes false true 0 ++
        [.resume true 0 true])) := by
  refine asyncBarrier_strandsNobody_of_timely 2 Bool _ ?_
  exact TransitionSystem.Executes.reachableWhere (.init rfl) (by decide)

/-- The second participant drops out, which completes the phase and wakes
nobody. -/
theorem not_forall_asyncBarrier_strandsNobody :
    ¬∀ s : State Bool, (asyncSystem 2 Bool).Reachable s →
      StrandsNobody s := by
  intro h
  have hreach : (asyncSystem 2 Bool).Reachable
      ((asyncSystem 2 Bool).after (AsyncWait.initialState Bool ℕ (initial 2))
        (arrives true 0 ++ AsyncWait.suspends true 0 ++
          [.operate false (.arriveAndDrop false)])) :=
    TransitionSystem.Executes.reachable (.init rfl) (by decide)
  refine absurd (h _ hreach (by decide) true 0 true rfl ⟨[true], ?_⟩)
    (by decide)
  exact ⟨⟨rfl, rfl⟩, List.mem_singleton_self true⟩

end Barrier
end Ethreads
