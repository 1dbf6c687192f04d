import Ethreads.AsyncWait.Release
import Ethreads.SharedValue.Model

/-!
# Coroutines that wait for a change

`async_shared_value` with the coroutines that await `wait_for_change_async`.
Four of the six writers call `wake_all` after their section; `try_store` and
`modify_and_get` are those of `sync_shared_value`.  A writer that comes to
`wake_all` late takes coroutines that wait for the next change.
-/

namespace Ethreads
namespace SharedValue

variable {α ρ : Type*}

/-- The writers that `async_shared_value` overrides. -/
def Writer.isOverridden : Writer α ρ → Bool
  | store _ | exchange _ | compareExchange _ _ | modify _ => true
  | tryStore _ | modifyAndGet _ => false

/-- `async_shared_value`: an overridden writer calls `wake_all` after a section
that has changed the value. -/
def asyncSharedValue (ρ : Type*) (T : ValueType α) :
    AsyncWait.Primitive (Contents α) (Writer α ρ) ℕ where
  pass sinceVersion c := c.waitForChange sinceVersion
  apply w c := c.write T w
  after w c :=
    if w.isOverridden && (w.run T c.value).increments then .wakeAll
    else .done

abbrev State (τ α : Type*) := AsyncWait.State τ (Contents α) ℕ

abbrev Action (τ α ρ : Type*) := AsyncWait.Action τ (Writer α ρ) ℕ

/-- A shared value with the threads and coroutines that use it. -/
abbrev asyncSystem (ρ : Type*) (T : ValueType α) (value : α) (τ : Type*)
    [DecidableEq τ] : TransitionSystem (State τ α) (Action τ α ρ) :=
  AsyncWait.system (asyncSharedValue ρ T) (initial value) τ

/-- A coroutine continues only when the version is not the one it has waited
to change. -/
def ContinuesOnChange (ρ : Type*) (T : ValueType α) {τ : Type*}
    (s : State τ α) : Prop :=
  ∀ a, AsyncWait.Enabled (asyncSharedValue ρ T) s a →
    ∀ sinceVersion ∈ a.continues, s.shared.version ≠ sinceVersion

/-- When nothing is under way, every suspended coroutine waits for the current
version to change. -/
def ResumesOnChange {τ : Type*} (s : State τ α) : Prop :=
  s.Quiescent → ∀ t sinceVersion r, s.pc t = .suspended sinceVersion r →
    s.shared.version = sinceVersion

/-! ## Versions that have changed stay changed -/

theorem over_iff {T : ValueType α} {sinceVersion : ℕ} {c : Contents α} :
    (asyncSharedValue ρ T).Over sinceVersion c ↔
      c.version ≠ sinceVersion := by
  unfold AsyncWait.Primitive.Over asyncSharedValue Contents.waitForChange
  by_cases h : c.version = sinceVersion <;> simp [h]

theorem Contents.waitForChange_eq {c d : Contents α} {sinceVersion : ℕ}
    (h : c.waitForChange sinceVersion = some d) : d = c := by
  unfold Contents.waitForChange at h
  split at h
  · exact (Option.some.inj h).symm
  · cases h

theorem after_cases (T : ValueType α) (w : Writer α ρ) (c : Contents α) :
    (asyncSharedValue ρ T).after w c = .wakeAll ∨
      (asyncSharedValue ρ T).after w c = .done := by
  dsimp only [asyncSharedValue]
  split
  · exact .inl rfl
  · exact .inr rfl

/-- The waits for a change of the current version and of earlier ones have
begun; a writer that increments the version ends waits. -/
def versions (ρ : Type*) (T : ValueType α) :
    AsyncWait.Protocol (asyncSharedValue ρ T) where
  Issued sinceVersion c := sinceVersion ≤ c.version
  ends w c := (w.run T c.value).increments
  wakesAll w c h := by
    rcases after_cases T w c with heq | heq <;> cases heq.symm.trans h
  issued_test w c k h := by
    rcases after_cases T w c with heq | heq <;> cases heq.symm.trans h
  issued_apply w c k h := h.trans (Nat.le_add_right ..)
  issued_pass j c d k hd h := by
    rw [Contents.waitForChange_eq hd]
    exact h
  over_apply w c k h hover := by
    rw [over_iff] at hover ⊢
    have hle : c.version ≤ (c.write T w).version := Nat.le_add_right ..
    change (c.write T w).version ≠ k
    omega
  over_pass j c d k hd := by
    rw [Contents.waitForChange_eq hd]
  over_of_not_ends w c k h hover := by
    rw [over_iff] at hover ⊢
    change c.version + (w.run T c.value).increments.toNat ≠ k at hover
    rwa [h] at hover

theorem versions_permanent (ρ : Type*) (T : ValueType α) :
    (versions ρ T).Permanent := by
  intro k c hover
  rw [over_iff, not_not] at hover
  exact hover.ge

/-! ## Coroutines and changes -/

/-- A writer that changes the version comes to `wake_all`, or finds nobody in
the list or somebody else about to wake all; coroutines are pushed before their
change or while somebody is about to wake all; and `wake_all` finds nobody who
waits for the current version to change. -/
def WakesForChange (ρ : Type*) (T : ValueType α) {τ : Type*}
    (s : State τ α) (a : Action τ α ρ) : Prop :=
  AsyncWait.Timely (versions ρ T) s a ∧
    AsyncWait.WakesOver (asyncSharedValue ρ T) s a

instance {T : ValueType α} {τ : Type*} [Fintype τ] [DecidableEq τ]
    (s : State τ α) (a : Action τ α ρ) : Decidable (WakesForChange ρ T s a) :=
  inferInstanceAs (Decidable (_ ∧ _))

/-- Coroutines resume on a change and only on a change in runs in which
`wake_all` is called for every change and takes only coroutines that wait for
it. -/
theorem resumesOnChange_of_wakesForChange (ρ : Type*) (T : ValueType α)
    (value : α) (τ : Type*) [DecidableEq τ] (s : State τ α)
    (hs : (asyncSystem ρ T value τ).ReachableWhere (WakesForChange ρ T) s) :
    ContinuesOnChange ρ T s ∧ ResumesOnChange s := by
  have htimely : (asyncSystem ρ T value τ).ReachableWhere
      (AsyncWait.Timely (versions ρ T)) s := hs.mono fun _ _ h => h.1
  have hover : (asyncSystem ρ T value τ).ReachableWhere
      (AsyncWait.WakesOver (asyncSharedValue ρ T)) s :=
    hs.mono fun _ _ h => h.2
  constructor
  · intro a ha k hk
    exact over_iff.mp (AsyncWait.continuesInTime_of_wakesOver
      (versions_permanent ρ T) hover a ha k hk)
  · intro hq t k r hpc
    have hin := (AsyncWait.registered_reachable (versions ρ T).wakesAll
      hs.reachable).inWaiters_of_quiescent hq hpc
    have hgoes :=
      AsyncWait.strandsNobody_of_timely htimely hq t k r hpc hin
    rwa [over_iff, not_not] at hgoes

/-- A coroutine suspends itself until the version is not 0, and a thread
writes. -/
def suspendThenWrite (w : Writer ℕ Unit) : List (Action Bool ℕ Unit) :=
  AsyncWait.suspends true 0 ++ [.operate false w]

theorem resumesOnChange_store :
    ContinuesOnChange Unit (.plain ℕ)
        ((asyncSystem Unit (.plain ℕ) 0 Bool).after
          (AsyncWait.initialState Bool ℕ (initial 0))
          (suspendThenWrite (.store 1) ++ AsyncWait.wakesOnly false true)) ∧
      ResumesOnChange
        ((asyncSystem Unit (.plain ℕ) 0 Bool).after
          (AsyncWait.initialState Bool ℕ (initial 0))
          (suspendThenWrite (.store 1) ++ AsyncWait.wakesOnly false true)) := by
  refine resumesOnChange_of_wakesForChange Unit (.plain ℕ) 0 Bool _ ?_
  exact TransitionSystem.Executes.reachableWhere (.init rfl) (by decide)

/-- `try_store` changes the version and wakes nobody. -/
theorem not_forall_resumesOnChange :
    ¬∀ s : State Bool ℕ,
      (asyncSystem Unit (.plain ℕ) 0 Bool).Reachable s →
        ContinuesOnChange Unit (.plain ℕ) s ∧ ResumesOnChange s := by
  intro h
  have hreach : (asyncSystem Unit (.plain ℕ) 0 Bool).Reachable
      ((asyncSystem Unit (.plain ℕ) 0 Bool).after
        (AsyncWait.initialState Bool ℕ (initial 0))
        (suspendThenWrite (.tryStore 1))) :=
    TransitionSystem.Executes.reachable (.init rfl) (by decide)
  exact absurd ((h _ hreach).2 (by decide) true 0 true rfl) (by decide)

end SharedValue
end Ethreads
