import Ethreads.WhenAll.Parties

/-!
# Waiting for the first of several tasks

This module models `when_any` of `include/async_runtime.hpp` for tasks with
values and for void tasks, with `yield_awaiter` of `include/yield.hpp`.

As for `when_all`, every task of the list takes the atomic steps of the
completion protocol, the loop that starts the tasks is one party and the
`co_await` of the task that was found ready is another, and anybody else may
start a task or ask whether it is ready.  `is_ready` is one load.  The field
`atSweep` is not part of the program: it holds which tasks were ready when the
last sweep over the list began.
-/

namespace Ethreads
namespace WhenAny

open CoroTask (Completion Handle)
open WhenAll (Party Allowed)

/-- What the function returns or throws. -/
inductive Result (R E : Type*)
  | value (r : R)
  | rethrown (e : E)
  | invalidArgument (what : String)
  deriving DecidableEq, Repr

/-- One of the functions: what it makes of an index and a value. -/
structure Combinator (T R : Type*) where
  result : ℕ → T → R

/-- `when_any_result`. -/
structure AnyResult (T : Type*) where
  index : ℕ
  value : T
  deriving DecidableEq, Repr

/-- `when_any` for tasks with values. -/
def whenAny (T : Type*) : Combinator T (AnyResult T) where
  result index value := ⟨index, value⟩

/-- `when_any` for void tasks. -/
def whenAnyVoid : Combinator Unit ℕ where
  result index _ := index

/-- Where the coroutine stands.  At `scheduled` it is suspended and its handle
is scheduled. -/
inductive Pc (R E : Type*)
  | testEmpty
  | start (i : ℕ)
  | poll (i : ℕ)
  | await (i : ℕ)
  | yield
  | scheduled
  | returned (result : Result R E)
  deriving DecidableEq, Repr

structure State (n : ℕ) (υ T E R : Type*) where
  task : Fin n → CoroTask.State (Party υ) T E
  pc : Pc R E
  atSweep : Fin n → Bool

variable {υ T E R : Type*} {noop : BitVec 64}

def initialState (n : ℕ) (υ T E R : Type*) : State n υ T E R where
  task := fun _ => CoroTask.initialState (Party υ) T E
  pc := .testEmpty
  atSweep := fun _ => false

/-- What becomes of the result of task `i`. -/
def Combinator.settle (F : Combinator T R) (i : ℕ) :
    Completion T E → Result R E
  | .value v => .value (F.result i v)
  | .exception e => .rethrown e

/-! ## Atomic actions -/

inductive Action (n : ℕ) (υ T E : Type*)
  | task (i : Fin n) (a : CoroTask.Action (Party υ) T E)
  | throwEmpty
  | notEmpty
  | nextStart (i : Fin n)
  | startsDone
  | pollReady (i : Fin n)
  | pollNotReady (i : Fin n)
  | sweepDone
  | schedule
  | resume
  | awaitDone (i : Fin n) (awaited : Bool) (c : Completion T E)

/-- The loops call from their current index only, and do not block. -/
def AtIndex (pc : Pc R E) (i : ℕ) : CoroTask.Action (Party υ) T E → Prop
  | .callStart .starter => pc = .start i
  | .coAwait _ => pc = .await i
  | .callGet _ => False
  | _ => True

def Enabled (h : Handle noop) (L : List (Completion T E))
    (s : State L.length υ T E R) : Action L.length υ T E → Prop
  | .task i a => CoroTask.Enabled (fun _ => h) (s.task i) a ∧
      Allowed (L.get i) a ∧ AtIndex s.pc i a
  | .throwEmpty => s.pc = .testEmpty ∧ L.length = 0
  | .notEmpty => s.pc = .testEmpty ∧ L.length ≠ 0
  | .nextStart i => s.pc = .start i ∧ (s.task i).pc .starter = .started
  | .startsDone => s.pc = .start L.length
  | .pollReady i => s.pc = .poll i ∧ (s.task i).ready = true
  | .pollNotReady i => s.pc = .poll i ∧ (s.task i).ready = false
  | .sweepDone => s.pc = .poll L.length
  | .schedule => s.pc = .yield
  | .resume => s.pc = .scheduled
  | .awaitDone i b c =>
      s.pc = .await i ∧ (s.task i).pc .consumer = .returned b (some c)

variable [DecidableEq υ]

instance [DecidableEq T] [DecidableEq E] (c : Completion T E)
    (a : CoroTask.Action (Party υ) T E) : Decidable (Allowed c a) := by
  cases a <;> dsimp only [Allowed] <;> infer_instance

instance [DecidableEq R] [DecidableEq E] (pc : Pc R E) (i : ℕ)
    (a : CoroTask.Action (Party υ) T E) : Decidable (AtIndex pc i a) := by
  cases a with
  | callStart p => cases p <;> dsimp only [AtIndex] <;> infer_instance
  | _ =>
      dsimp only [AtIndex]
      infer_instance

instance [Fintype υ] [DecidableEq T] [DecidableEq E] [DecidableEq R]
    (h : Handle noop) (L : List (Completion T E))
    (s : State L.length υ T E R) (a : Action L.length υ T E) :
    Decidable (Enabled h L s a) := by
  cases a <;> dsimp only [Enabled] <;> infer_instance

/-- A sweep over the list begins. -/
def State.sweep {n : ℕ} (s : State n υ T E R) : State n υ T E R :=
  { s with pc := .poll 0, atSweep := fun i => (s.task i).ready }

def next (F : Combinator T R) (h : Handle noop) {n : ℕ}
    (s : State n υ T E R) : Action n υ T E → State n υ T E R
  | .task i a =>
      { s with
        task := Function.update s.task i
          (CoroTask.next (fun _ => h) (s.task i) a) }
  | .throwEmpty =>
      { s with
        pc := .returned
          (.invalidArgument "when_any called with empty task list") }
  | .notEmpty => { s with pc := .start 0 }
  | .nextStart i => { s with pc := .start (i + 1) }
  | .startsDone => s.sweep
  | .pollReady i => { s with pc := .await i }
  | .pollNotReady i => { s with pc := .poll (i + 1) }
  | .sweepDone => { s with pc := .yield }
  | .schedule => { s with pc := .scheduled }
  | .resume => s.sweep
  | .awaitDone i _ c => { s with pc := .returned (F.settle i c) }

/-- One of the functions, applied to tasks whose bodies end as the list says,
as a transition system. -/
def system (υ : Type*) [DecidableEq υ] (F : Combinator T R) (h : Handle noop)
    (L : List (Completion T E)) :
    TransitionSystem (State L.length υ T E R) (Action L.length υ T E) where
  Initial s := s = initialState L.length υ T E R
  Enabled := Enabled h L
  next := next F h

instance [Fintype υ] [DecidableEq T] [DecidableEq E] [DecidableEq R]
    (F : Combinator T R) (h : Handle noop) (L : List (Completion T E))
    (s : State L.length υ T E R) (a : Action L.length υ T E) :
    Decidable ((system υ F h L).Enabled s a) :=
  inferInstanceAs (Decidable (Enabled h L s a))

end WhenAny
end Ethreads
