import Ethreads.TaskObject.Scheduling

/-!
# Frames are destroyed when they cannot run again

A task that was not started owns a frame that was never scheduled, and the
destructor waits for a started one, so both of its branches destroy safely.
Move assignment destroys the frame of its target without any of these tests.
-/

namespace Ethreads
namespace TaskObject

variable {τ O F : Type*}

/-! ## Destroyed frames -/

/-- The frame was never scheduled, or it had published
`final_suspend_reached`. -/
def Destruction.Safe (d : Destruction F) : Prop :=
  d.scheduled = 0 ∨ d.finalSuspendReached = true

/-- Every destroyed frame could not run again, and none was destroyed
twice. -/
def DestroysSafely (s : State τ O F) : Prop :=
  (∀ d ∈ s.destructions, d.Safe) ∧ s.destroyed.Nodup

/-- The destructor of the object would destroy its frame without waiting. -/
def State.Replaceable (s : State τ O F) (x : O) : Prop :=
  s.handle x = none ∨ s.started x = false ∨ s.isFinal x = true

/-- The target of a move assignment is replaceable. -/
def ReplacesSafely (s : State τ O F) : Action τ O F → Prop
  | .moveAssign x _ => s.Replaceable x
  | _ => True

instance (d : Destruction F) : Decidable d.Safe :=
  inferInstanceAs (Decidable (_ ∨ _))

instance [DecidableEq F] (s : State τ O F) (x : O) :
    Decidable (s.Replaceable x) :=
  inferInstanceAs (Decidable (_ ∨ _))

instance [DecidableEq F] (s : State τ O F) (a : Action τ O F) :
    Decidable (ReplacesSafely s a) := by
  induction a using Action.casesOn <;> dsimp only [ReplacesSafely] <;>
    infer_instance

instance [DecidableEq F] (s : State τ O F) : Decidable (DestroysSafely s) :=
  inferInstanceAs (Decidable ((∀ d ∈ s.destructions, d.Safe) ∧ _))

/-! ## Destructions -/

section Steps

variable [DecidableEq τ] [DecidableEq O] [DecidableEq F]
  {s s' : State τ O F} {a : Action τ O F}

omit [DecidableEq τ] [DecidableEq O] [DecidableEq F] in
/-- The destructor's test finds out whether the frame can run again. -/
theorem Counted.safe_of_replaceable (h : Counted s) (ho : Owned s) {x : O}
    {f : F} (hx : s.handle x = some f) (hreplace : s.Replaceable x) :
    (⟨f, s.scheduled f, s.finalSuspendReached f⟩ : Destruction F).Safe := by
  rcases hreplace with hnone | hunstarted | hfinal
  · exact absurd (hnone.symm.trans hx) (by simp)
  · exact .inl (h.unstarted hx hunstarted)
  · rw [State.isFinal, ho.state_eq, hx] at hfinal
    exact .inr hfinal

omit [DecidableEq τ] [DecidableEq O] [DecidableEq F] in
/-- While nobody works on the object, a started frame was scheduled. -/
theorem Counted.replaceable_of_safe (h : Counted s) (ho : Owned s) {x : O}
    {f : F} (hx : s.handle x = some f) (hunused : s.Unused x)
    (hsafe : (⟨f, s.scheduled f, s.finalSuspendReached f⟩ :
      Destruction F).Safe) : s.Replaceable x := by
  rcases hsafe with hzero | hfinal
  · right
    left
    by_contra hstarted
    obtain ⟨t, ht, -⟩ := h.pending hx (by simpa using hstarted) hzero
    exact hunused t ht
  · right
    right
    rw [State.isFinal, ho.state_eq, hx]
    exact hfinal

theorem safe_next (hr : Relying s) (ho : Owned s) (hc : Counted s)
    (h : ∀ d ∈ s.destructions, d.Safe) (ha : Enabled s a)
    (hreplaces : ReplacesSafely s a) :
    ∀ d ∈ (next s a).destructions, d.Safe := by
  have hdestroy : ∀ {x : O} {f : F}, s.handle x = some f → s.Replaceable x →
      ∀ d ∈ s.destructions ++ [⟨f, s.scheduled f, s.finalSuspendReached f⟩],
        d.Safe := by
    intro x f hx hreplace d hd
    rcases List.mem_append.mp hd with hd | hd
    · exact h d hd
    · rw [List.mem_singleton.mp hd]
      exact hc.safe_of_replaceable ho hx hreplace
  cases a with
  | moveAssign x y =>
      cases hx : s.handle x with
      | none =>
          simp only [next, hx]
          exact h
      | some f =>
          simp only [next, hx]
          exact hdestroy hx hreplaces
  | destroy t x f =>
      have hx := hr t
      rw [ha.1] at hx
      exact hdestroy ha.2 (.inr hx)
  | _ => exact h

/-- Frames are destroyed when they cannot run again in exactly those runs in
which every task that is moved to could have been destroyed without waiting. -/
theorem destroysSafely_iff_replacesSafely (τ O F : Type*) [DecidableEq τ]
    [DecidableEq O] [DecidableEq F] :
    (∀ s, (system τ O F).ReachableWhere ReplacesSafely s →
      DestroysSafely s) ∧
    (∀ s a, (system τ O F).Reachable s → (system τ O F).Enabled s a →
      ¬ReplacesSafely s a → ¬DestroysSafely ((system τ O F).next s a)) := by
  constructor
  · intro s hs
    refine ⟨?_, (owned_of_reachable hs.reachable).nodup⟩
    refine hs.invariant_of (fun s => ∀ d ∈ s.destructions, d.Safe)
      (fun s hs => hs.reachable) ?_ ?_
    · rintro s rfl d hd
      exact absurd hd List.not_mem_nil
    · intro s a hs h ha hP
      exact safe_next (relies_of_reachable hs) (owned_of_reachable hs)
        (counted_of_reachable hs) h ha hP
  · intro s a hs ha hreplaces hsafe
    cases a with
    | moveAssign x y =>
        cases hx : s.handle x with
        | none => exact hreplaces (.inl hx)
        | some f =>
            apply hreplaces
            apply (counted_of_reachable hs).replaceable_of_safe
              (owned_of_reachable hs) hx ha.2.2.2.2.1
            apply hsafe.1
            simp [system, next, hx, State.destroyFrame, State.takeFrom]
    | _ => exact hreplaces trivial

end Steps

/-! ## A task that is replaced while it runs -/

/-- Agent `0` starts the task `0`, whose coroutine `0` begins to run, and then
`task0 = std::move(task1)`. -/
def replaceRunning : List (Action (Fin 1) (Fin 2) (Fin 2)) :=
  [.create 0 0, .create 1 1, .callStart 0 0, .startFirst 0 0 .start,
    .notDone 0 0 .start, .schedule 0 0 .start 0, .resume 0, .moveAssign 0 1]

theorem not_forall_destroysSafely :
    ¬∀ s, (system (Fin 1) (Fin 2) (Fin 2)).Reachable s →
      DestroysSafely s := by
  intro h
  have hreach : (system (Fin 1) (Fin 2) (Fin 2)).Reachable
      ((system (Fin 1) (Fin 2) (Fin 2)).after
        (initialState (Fin 1) (Fin 2) (Fin 2)) replaceRunning) :=
    TransitionSystem.Executes.reachable (.init rfl) (by decide)
  have hsafe := (h _ hreach).1
  revert hsafe
  decide

/-- Task `0` ends before task `1` is moved to it, and both are destroyed. -/
def replaceEnded : List (Action (Fin 1) (Fin 2) (Fin 2)) :=
  [.create 0 0, .create 1 1, .callGet 0 0, .startFirst 0 0 .get,
    .notDone 0 0 .get, .schedule 0 0 .get 0, .resume 0, .complete 0,
    .publish 0, .waited 0 0, .moveAssign 0 1, .destruct 0 0,
    .foundUnstarted 0 0, .destroy 0 0 1, .destruct 0 1, .withoutFrame 0 1]

theorem destroysSafely_replaceEnded :
    DestroysSafely ((system (Fin 1) (Fin 2) (Fin 2)).after
      (initialState (Fin 1) (Fin 2) (Fin 2)) replaceEnded) := by
  refine (destroysSafely_iff_replacesSafely (Fin 1) (Fin 2) (Fin 2)).1 _ ?_
  exact TransitionSystem.Executes.reachableWhere (.init rfl) (by decide)

end TaskObject
end Ethreads
