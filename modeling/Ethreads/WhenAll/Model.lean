import Ethreads.CoroTask.Model
import Mathlib.Data.Fintype.Sum

/-!
# Waiting for a list of tasks

This module models `when_all` and `when_all_passive` of
`include/async_runtime.hpp`, with `callable_awaiter<void>` of
`include/coro_awaiter.hpp`, which `run_blocking` returns.

Every task of the list is a task of the completion protocol and takes all the
atomic steps of that model.  The loop that starts the tasks calls `start` as
one party, the loop that waits for them calls `co_await` or `get` as another,
and anybody else may start a task or ask whether it is ready, at any time.
The list says how the bodies of the tasks end; when they end is open.  That
they can end is taken not to depend on the worker of the pool that
`when_all_passive` blocks in `get`.  The tasks are not destroyed before the
coroutine that owns them has ended.
-/

namespace Ethreads
namespace WhenAll

open CoroTask (Completion Handle)

/-- Who uses a task. -/
inductive Party (υ : Type*)
  | starter
  | consumer
  | other (u : υ)
  deriving DecidableEq, Repr, Fintype

/-- One of the functions: whether it calls `get` in the blocking pool, and what
it does with the value of a task. -/
structure Combinator (T R : Type*) where
  passive : Bool
  results : R
  pushBack : R → T → R

/-- `when_all` for tasks with values. -/
def whenAll (T : Type*) : Combinator T (List T) where
  passive := false
  results := []
  pushBack results v := results ++ [v]

/-- `when_all` for void tasks. -/
def whenAllVoid : Combinator Unit Unit where
  passive := false
  results := ()
  pushBack _ _ := ()

def whenAllPassive : Combinator Unit Unit where
  passive := true
  results := ()
  pushBack _ _ := ()

/-- Where the coroutine stands.  From `queued` to `schedule` it is suspended,
and a thread of the pool runs the closure that it has submitted. -/
inductive Pc (R E : Type*)
  | start (i : ℕ)
  | await (i : ℕ)
  | submit
  | queued
  | get (i : ℕ)
  | storeDone
  | schedule
  | scheduled
  | returned (result : Except E R)

/-- The tasks, the loops over them, and the members of the awaiter. -/
structure State (n : ℕ) (υ T E R : Type*) where
  task : Fin n → CoroTask.State (Party υ) T E
  pc : Pc R E
  results : R
  exception : Option E
  done : Bool

variable {υ T E R : Type*} {noop : BitVec 64}

def initialState (F : Combinator T R) (n : ℕ) : State n υ T E R where
  task := fun _ => CoroTask.initialState (Party υ) T E
  pc := .start 0
  results := F.results
  exception := none
  done := false

/-- `callable_awaiter<void>::await_resume`, and what follows it. -/
def awaitResume (exception : Option E) (results : R) : Except E R :=
  match exception with
  | some e => .error e
  | none => .ok results

/-! ## Atomic actions -/

inductive Action (n : ℕ) (υ T E : Type*)
  | task (i : Fin n) (a : CoroTask.Action (Party υ) T E)
  | nextStart (i : Fin n)
  | startsDone
  | nextAwait (i : Fin n) (awaited : Bool) (c : Completion T E)
  | awaitsDone
  | submit
  | runTask
  | nextGet (i : Fin n) (awaited : Bool) (c : Completion T E)
  | getsDone
  | storeDone
  | schedule
  | resume

/-- What the parties may do with a task whose body ends with `c`. -/
def Allowed (c : Completion T E) : CoroTask.Action (Party υ) T E → Prop
  | .callIsReady p => p ≠ .starter ∧ p ≠ .consumer
  | .callStart p => p ≠ .consumer
  | .coAwait p | .callGet p => p = .consumer
  | .complete d => d = c
  | .destruct => False
  | _ => True

/-- The loops call from their current index only. -/
def AtIndex (pc : Pc R E) (i : ℕ) : CoroTask.Action (Party υ) T E → Prop
  | .callStart .starter => pc = .start i
  | .coAwait _ => pc = .await i
  | .callGet _ => pc = .get i
  | _ => True

def Enabled (h : Handle noop) (L : List (Completion T E))
    (s : State L.length υ T E R) : Action L.length υ T E → Prop
  | .task i a => CoroTask.Enabled (fun _ => h) (s.task i) a ∧
      Allowed L[i] a ∧ AtIndex s.pc i a
  | .nextStart i => s.pc = .start i ∧ (s.task i).pc .starter = .started
  | .startsDone => s.pc = .start L.length
  | .nextAwait i b c =>
      s.pc = .await i ∧ (s.task i).pc .consumer = .returned b (some c)
  | .awaitsDone => s.pc = .await L.length
  | .submit => s.pc = .submit
  | .runTask => s.pc = .queued
  | .nextGet i b c =>
      s.pc = .get i ∧ (s.task i).pc .consumer = .returned b (some c)
  | .getsDone => s.pc = .get L.length
  | .storeDone => s.pc = .storeDone
  | .schedule => s.pc = .schedule
  | .resume => s.pc = .scheduled

variable [DecidableEq υ]

def next (F : Combinator T R) (h : Handle noop) {n : ℕ}
    (s : State n υ T E R) : Action n υ T E → State n υ T E R
  | .task i a =>
      { s with
        task := Function.update s.task i
          (CoroTask.next (fun _ => h) (s.task i) a) }
  | .nextStart i => { s with pc := .start (i + 1) }
  | .startsDone => { s with pc := if F.passive then .submit else .await 0 }
  | .nextAwait i _ (.value v) =>
      { s with pc := .await (i + 1), results := F.pushBack s.results v }
  | .nextAwait _ _ (.exception e) => { s with pc := .returned (.error e) }
  | .awaitsDone => { s with pc := .returned (.ok s.results) }
  | .submit => { s with pc := .queued }
  | .runTask => { s with pc := .get 0 }
  | .nextGet i _ (.value v) =>
      { s with pc := .get (i + 1), results := F.pushBack s.results v }
  | .nextGet _ _ (.exception e) =>
      { s with pc := .storeDone, exception := some e }
  | .getsDone => { s with pc := .storeDone }
  | .storeDone => { s with pc := .schedule, done := true }
  | .schedule => { s with pc := .scheduled }
  | .resume => { s with pc := .returned (awaitResume s.exception s.results) }

/-- One of the functions, applied to tasks whose bodies end as the list says,
as a transition system. -/
def system (υ : Type*) [DecidableEq υ] (F : Combinator T R) (h : Handle noop)
    (L : List (Completion T E)) :
    TransitionSystem (State L.length υ T E R) (Action L.length υ T E) where
  Initial s := s = initialState F L.length
  Enabled := Enabled h L
  next := next F h

end WhenAll
end Ethreads
