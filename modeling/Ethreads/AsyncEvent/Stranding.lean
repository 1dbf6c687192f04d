import Ethreads.AsyncEvent.Model
import Ethreads.AsyncWait.Stranding

/-!
# Manual-reset events and their suspended coroutines

`set` raises the flag and then takes all coroutines out of the list, so it
leaves nobody behind who is in the list by then.  A coroutine is left behind
when it is pushed later: the re-check of `suspend_impl` sees the flag and does
nothing about it.
-/

namespace Ethreads
namespace AsyncEvent

/-- A node is pushed while the flag is down or some `set` has still to take
the list. -/
def PushesInTime {τ : Type*} (s : State τ) : Action τ → Prop
  | .list _ (.addCas _ _ _) =>
      s.shared.signaled = false ∨ ∃ u, s.list.pc u = .exchange
  | _ => True

instance {τ : Type*} [Fintype τ] [DecidableEq τ] (s : State τ)
    (a : Action τ) : Decidable (PushesInTime s a) := by
  induction a using AsyncWait.Action.casesOn with
  | list t b =>
      induction b using AsyncPrimitive.Action.casesOn <;>
        dsimp only [PushesInTime] <;> infer_instance
  | _ => exact inferInstanceAs (Decidable True)

/-- A signaled event has no coroutine in its list when nothing is under way. -/
def StrandsNobody {τ : Type*} (s : State τ) : Prop :=
  s.Quiescent → s.shared.signaled = true →
    ∀ t k r, s.pc t = .suspended k r → ¬s.InWaiters t

theorem tryWait_false_signaled {x y : Event}
    (hy : x.tryWait false = some y) : y.signaled = x.signaled := by
  unfold Event.tryWait at hy
  split at hy
  · rename_i hsignaled
    cases hy
    exact hsignaled.symm
  · cases hy

/-- A manual-reset event has its waits end with `set`, and with `wake_all`. -/
def manualReset : AsyncWait.Protocol (asyncEvent false) where
  Issued _ _ := False
  ends e x := e == .set && !x.signaled
  wakesAll e x := by cases e <;> nofun
  issued_test e x k h := by cases e <;> cases h
  issued_apply e x k h := h
  issued_pass j x y k hy h := h
  over_apply e x k h := h.elim
  over_pass j x y k hy := by
    rw [over_iff, over_iff, tryWait_false_signaled hy]
  over_of_not_ends e x k h hover := by
    rw [over_iff] at hover ⊢
    cases e with
    | set => simpa using h
    | reset => cases hover
    | isSet => exact hover
    | tryWait =>
        change ((x.tryWait false).getD x).signaled = true at hover
        cases hy : x.tryWait false with
        | none =>
            rw [hy] at hover
            exact hover
        | some y =>
            rw [hy] at hover
            exact (tryWait_false_signaled hy).symm.trans hover

/-- Every operation that ends a wait goes on to `wake_all`. -/
theorem timely_of_pushesInTime {τ : Type*} {s : State τ} {a : Action τ}
    (h : PushesInTime s a) : AsyncWait.Timely manualReset s a := by
  cases a with
  | operate t e =>
      intro hends
      left
      cases e with
      | set => trivial
      | _ => cases hends
  | list t b =>
      cases b with
      | addCas u n o =>
          rcases h with hdown | ⟨v, hv⟩
          · left
            cases s.pc t with
            | adding k =>
                change ¬(asyncEvent false).Over k s.shared
                rw [over_iff, hdown]
                exact Bool.false_ne_true
            | _ => trivial
          · exact .inr ⟨v, .inl hv⟩
      | _ => trivial
  | _ => trivial

/-- A manual-reset event strands no coroutine in runs in which nodes are
pushed in time. -/
theorem strandsNobody_of_pushesInTime (b : Bool) (τ : Type*) [DecidableEq τ]
    (s : State τ) (hs : (system false b τ).ReachableWhere PushesInTime s) :
    StrandsNobody s := by
  intro hq hsignaled t k r hpc hin
  have htimely : (system false b τ).ReachableWhere
      (AsyncWait.Timely manualReset) s :=
    hs.mono fun s a h => timely_of_pushesInTime h
  exact AsyncWait.strandsNobody_of_timely htimely hq t k r hpc hin
    (over_iff.mpr hsignaled)

/-- A thread calls `set` for a suspended coroutine, which is resumed. -/
def setAfterPush : List (Action Bool) :=
  AsyncWait.suspends true () ++ .operate false .set ::
    AsyncWait.wakesOnly false true ++ [.resume true () true]

theorem strandsNobody_setAfterPush :
    StrandsNobody ((system false false Bool).after
      (AsyncWait.initialState Bool Unit (initial false)) setAfterPush) := by
  refine strandsNobody_of_pushesInTime false Bool _ ?_
  exact TransitionSystem.Executes.reachableWhere (.init rfl) (by decide)

/-- A thread calls `set` between the test of a coroutine and its push. -/
def setBeforePush : List (Action Bool) :=
  .coAwait true () :: .readyFalse true () :: .operate false .set ::
    .list false (.exchange false) :: AsyncWait.pushes true

/-- The node that is pushed after `wake_all` stays in the list. -/
theorem not_forall_asyncEvent_strandsNobody :
    ¬∀ s : State Bool, (system false false Bool).Reachable s →
      StrandsNobody s := by
  intro h
  have hreach : (system false false Bool).Reachable
      ((system false false Bool).after
        (AsyncWait.initialState Bool Unit (initial false)) setBeforePush) :=
    TransitionSystem.Executes.reachable (.init rfl) (by decide)
  refine h _ hreach (by decide) rfl true () true rfl ⟨[true], ?_⟩
  exact ⟨⟨rfl, rfl⟩, List.mem_singleton_self true⟩

end AsyncEvent
end Ethreads
