import Mathlib.Logic.Function.Basic
import Mathlib.Tactic.Common

/-!
# Shared values

This module models the writers of `sync_shared_value` of
`include/shared_state/shared_value.hpp` with `version_tracking_mixin` of
`include/shared_state/crtp_base.hpp`.

A writer is what its section makes of the value: the value it leaves behind,
whether it gets to `increment_version`, and its result.  The value type moves
and compares as it likes and may throw; its copies do not.  Versions are
counted without a bound.
-/

namespace Ethreads
namespace SharedValue

/-- The operations of the value type.  A move gives what its source or its
target holds afterwards, also if it throws. -/
structure ValueType (α : Type*) where
  /-- What `value_` holds after `T old = std::move(value_)`, and the new
  object. -/
  moveConstruct : α → α × Option α
  /-- What `value_` holds after `value_ = std::move(x)`, and whether it
  throws. -/
  moveAssign : α → α → α × Bool
  /-- `value_ == expected`. -/
  equal : α → α → Option Bool

/-- A section of a writer: the value when the lock is released, whether
`increment_version` has been called, and the result, if it does not throw. -/
structure Section (α ρ : Type*) where
  value : α
  increments : Bool
  result : Option ρ

variable {α ρ : Type*} (T : ValueType α)

def afterAssign (assigned : α × Bool) (result : ρ) : Section α ρ where
  value := assigned.1
  increments := !assigned.2
  result := if assigned.2 then none else some result

def store (value x : α) : Section α Unit :=
  afterAssign (T.moveAssign x value) ()

/-- `try_store`, which calls `store`. -/
def tryStore (value x : α) : Section α Bool :=
  let s := store T value x
  ⟨s.value, s.increments, s.result.map fun _ => true⟩

def exchange (newValue x : α) : Section α α :=
  match T.moveConstruct x with
  | (moved, none) => ⟨moved, false, none⟩
  | (moved, some old) => afterAssign (T.moveAssign moved newValue) old

/-- `compare_exchange`, with `expected` as it is afterwards. -/
def compareExchange (expected desired x : α) : Section α (Bool × α) :=
  match T.equal x expected with
  | none => ⟨x, false, none⟩
  | some false => ⟨x, false, some (false, x)⟩
  | some true => afterAssign (T.moveAssign x desired) (true, expected)

/-- `modify_and_get`, with a function that changes the value and returns or
throws. -/
def modifyAndGet (func : α → α × Option ρ) (x : α) : Section α ρ where
  value := (func x).1
  increments := (func x).2.isSome
  result := (func x).2

def modify (func : α → α × Option Unit) (x : α) : Section α Unit :=
  modifyAndGet func x

inductive Writer (α ρ : Type*)
  | store (value : α)
  | tryStore (value : α)
  | exchange (newValue : α)
  | compareExchange (expected desired : α)
  | modify (func : α → α × Option Unit)
  | modifyAndGet (func : α → α × Option ρ)

/-- The section with its result left out. -/
def Section.effect (s : Section α ρ) : Section α Unit :=
  ⟨s.value, s.increments, s.result.map fun _ => ()⟩

/-- The section of a call. -/
def Writer.run (x : α) : Writer α ρ → Section α Unit
  | store value => (SharedValue.store T value x).effect
  | tryStore value => (SharedValue.tryStore T value x).effect
  | exchange newValue => (SharedValue.exchange T newValue x).effect
  | compareExchange expected desired =>
      (SharedValue.compareExchange T expected desired x).effect
  | modify func => (SharedValue.modify func x).effect
  | modifyAndGet func => (SharedValue.modifyAndGet func x).effect

structure Contents (α : Type*) where
  value : α
  version : ℕ
  deriving DecidableEq, Repr

def initial (value : α) : Contents α where
  value := value
  version := 0

def Contents.write (c : Contents α) (w : Writer α ρ) : Contents α where
  value := (w.run T c.value).value
  version := c.version + (w.run T c.value).increments.toNat

/-- The end of `wait_for_change` and `wait_for_change_for`, and the test of
`ready_impl`. -/
def Contents.waitForChange (c : Contents α) (sinceVersion : ℕ) :
    Option (Contents α) :=
  if c.version ≠ sinceVersion then some c else none

/-- A value type whose moves do not throw and leave their source alone. -/
def ValueType.plain (α : Type*) [DecidableEq α] : ValueType α where
  moveConstruct x := (x, some x)
  moveAssign _ x := (x, false)
  equal x y := some (x == y)

/-! ## Writers that do not count as a change -/

/-- A section that throws does not get to `increment_version`; one that does
not throw counts as a change, or it leaves the value `x` alone. -/
structure Section.Counts (s : Section α ρ) (x : α) : Prop where
  throws : s.result = none → s.increments = false
  keeps : s.increments = false → s.result ≠ none → s.value = x

variable {T} {x : α}

theorem counts_afterAssign (assigned : α × Bool) (result : ρ) :
    (afterAssign assigned result).Counts x := by
  obtain ⟨y, throws⟩ := assigned
  cases throws with
  | false => exact ⟨nofun, nofun⟩
  | true => exact ⟨fun _ => rfl, fun _ h => absurd rfl h⟩

theorem counts_exchange (newValue : α) :
    (exchange T newValue x).Counts x := by
  unfold exchange
  split
  · exact ⟨fun _ => rfl, fun _ h => absurd rfl h⟩
  · exact counts_afterAssign _ _

theorem counts_compareExchange (expected desired : α) :
    (compareExchange T expected desired x).Counts x := by
  unfold compareExchange
  split
  · exact ⟨fun _ => rfl, fun _ _ => rfl⟩
  · exact ⟨fun _ => rfl, fun _ _ => rfl⟩
  · exact counts_afterAssign _ _

theorem counts_modifyAndGet (func : α → α × Option ρ) :
    (modifyAndGet func x).Counts x := by
  unfold modifyAndGet
  cases (func x).2 with
  | none => exact ⟨fun _ => rfl, fun _ h => absurd rfl h⟩
  | some r => exact ⟨nofun, nofun⟩

theorem Section.Counts.map {σ : Type*} {s : Section α ρ} (h : s.Counts x)
    (f : ρ → σ) : Section.Counts
      (⟨s.value, s.increments, s.result.map f⟩ : Section α σ) x where
  throws hnone := h.throws (Option.map_eq_none_iff.mp hnone)
  keeps hincrements hsome :=
    h.keeps hincrements fun hnone => hsome (congrArg (Option.map f) hnone)

/-- Every writer that does not throw counts as a change, or leaves the value
alone. -/
theorem Writer.counts_run (w : Writer α ρ) : (w.run T x).Counts x := by
  cases w with
  | store value => exact (counts_afterAssign _ ()).map _
  | tryStore value => exact ((counts_afterAssign _ ()).map _).map _
  | exchange newValue => exact (counts_exchange newValue).map _
  | compareExchange expected desired =>
      exact (counts_compareExchange expected desired).map _
  | modify func => exact (counts_modifyAndGet func).map _
  | modifyAndGet func => exact (counts_modifyAndGet func).map _

end SharedValue
end Ethreads
