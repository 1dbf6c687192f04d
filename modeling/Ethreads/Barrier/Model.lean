import Ethreads.AsyncWait.Model

/-!
# Barriers

This module models the sections of `sync_barrier` of
`include/shared_state/barrier.hpp` and the operations of `async_barrier`.

A token is the phase it was made for.  Phases are counted without a bound; the
2 to the power of 64 phases after which `phase_` would start again are not
modelled.  The counter `completions` is not part of the program.
-/

namespace Ethreads
namespace Barrier

/-- `expected_`, `count_` and `phase_`, and how often `completion_` has run. -/
structure Members where
  expected : ℤ
  count : ℤ
  phase : ℕ
  completions : ℕ
  deriving DecidableEq, Repr

def initial (expected : ℤ) : Members where
  expected := expected
  count := expected
  phase := 0
  completions := 0

/-- `complete_phase`, in which `completion_` may throw. -/
def Members.completePhase (x : Members) (throws : Bool) : Members :=
  let y := { x with completions := x.completions + 1 }
  if throws then y
  else { y with count := x.expected, phase := x.phase + 1 }

/-- The end of the two arrivals: the last one completes the phase. -/
def Members.completeIfLast (x : Members) (throws : Bool) : Members :=
  if x.count = 0 then x.completePhase throws else x

def Members.arrive (x : Members) (n : ℤ) (throws : Bool) : Members :=
  { x with count := x.count - n }.completeIfLast throws

/-- The token that `arrive` returns, unless `completion_` throws. -/
def Members.arriveToken (x : Members) (n : ℤ) (throws : Bool) : Option ℕ :=
  if x.count - n = 0 ∧ throws = true then none else some x.phase

def Members.arriveAndDrop (x : Members) (throws : Bool) : Members :=
  { x with
    expected := x.expected - 1
    count := x.count - 1 }.completeIfLast throws

/-- The end of `wait` and `wait_for`, and the test of `ready_impl`. -/
def Members.wait (x : Members) (token : ℕ) : Option Members :=
  if x.phase ≠ token then some x else none

/-- The operations that do not wait at once; `completion_` throws in a call of
it or does not. -/
inductive Operation
  | arrive (n : ℤ) (throws : Bool)
  | arriveAndWait (throws : Bool)
  | arriveAndDrop (throws : Bool)
  | phase
  deriving DecidableEq, Repr

/-- What an operation goes on with after its arrival, unless it throws. -/
def afterArrival (go : ℕ → AsyncWait.After ℕ) :
    Option ℕ → AsyncWait.After ℕ
  | some token => go token
  | none => .done

/-- `async_barrier`: its own `arrive` tests the phase again to call `wake_all`,
and the inherited operations call no function of the waiter list. -/
def asyncBarrier : AsyncWait.Primitive Members Operation ℕ where
  pass token x := x.wait token
  apply
    | .arrive n throws, x => x.arrive n throws
    | .arriveAndWait throws, x => x.arrive 1 throws
    | .arriveAndDrop throws, x => x.arriveAndDrop throws
    | .phase, x => x
  after
    | .arrive n throws, x => afterArrival .test (x.arriveToken n throws)
    | .arriveAndWait throws, x => afterArrival .wait (x.arriveToken 1 throws)
    | .arriveAndDrop _, _ | .phase, _ => .done

/-! ## The current phase -/

theorem over_iff {token : ℕ} {x : Members} :
    asyncBarrier.Over token x ↔ x.phase ≠ token := by
  unfold AsyncWait.Primitive.Over asyncBarrier Members.wait
  by_cases h : x.phase = token <;> simp [h]

theorem Members.wait_eq {x y : Members} {token : ℕ}
    (h : x.wait token = some y) : y = x := by
  unfold Members.wait at h
  split at h
  · exact (Option.some.inj h).symm
  · cases h

theorem Members.phase_le_completeIfLast {x y : Members}
    (h : y.phase = x.phase) (throws : Bool) :
    x.phase ≤ (y.completeIfLast throws).phase := by
  rw [← h]
  unfold Members.completeIfLast Members.completePhase
  split
  · cases throws <;> simp
  · exact le_rfl

theorem Members.phase_le_arrive (x : Members) (n : ℤ) (throws : Bool) :
    x.phase ≤ (x.arrive n throws).phase := by
  refine Members.phase_le_completeIfLast ?_ throws
  rfl

theorem Members.phase_le_arriveAndDrop (x : Members) (throws : Bool) :
    x.phase ≤ (x.arriveAndDrop throws).phase := by
  refine Members.phase_le_completeIfLast ?_ throws
  rfl

theorem phase_le_apply (e : Operation) (x : Members) :
    x.phase ≤ (asyncBarrier.apply e x).phase := by
  cases e with
  | arrive n throws => exact x.phase_le_arrive n throws
  | arriveAndWait throws => exact x.phase_le_arrive 1 throws
  | arriveAndDrop throws => exact x.phase_le_arriveAndDrop throws
  | phase => exact le_rfl

theorem after_cases (e : Operation) (x : Members) :
    asyncBarrier.after e x = .done ∨ asyncBarrier.after e x = .test x.phase ∨
      asyncBarrier.after e x = .wait x.phase := by
  have harrival : ∀ n throws go,
      afterArrival go (x.arriveToken n throws) = .done ∨
        afterArrival go (x.arriveToken n throws) = go x.phase := by
    intro n throws go
    unfold Members.arriveToken
    split
    · exact .inl rfl
    · exact .inr rfl
  cases e with
  | arrive n throws => exact (harrival n throws .test).imp_right .inl
  | arriveAndWait throws => exact (harrival 1 throws .wait).imp_right .inr
  | arriveAndDrop throws => exact .inl rfl
  | phase => exact .inl rfl

end Barrier
end Ethreads
