import Mathlib.Data.List.Basic
import Mathlib.Tactic.Common

/-!
# Moves of tasks inside the library

`coro_task` of `include/coro_task.hpp` can be moved only before it is started,
and its move constructor asserts this.  This module models where the functions
of the public task API in `include/task_scheduler.hpp` and
`include/async_runtime.hpp` execute that constructor, and determines the
programs in which no such assertion fails.

A task is passed to a parameter as a prvalue, so that the parameter is the
result object of the call it comes from.  Whether `return task;` moves a local
variable is up to the compiler, and whether `push_back` moves the elements of a
vector to a new storage is up to its growth.
-/

namespace Ethreads
namespace TaskApi

/-- A `coro_task` object, as far as its move operations look at it. -/
structure Task where
  started : Bool
  deriving DecidableEq, Repr

/-- What a function returns, and the sources of the moves it has executed. -/
structure Traced (α : Type) where
  value : α
  sources : List Task
  deriving Repr

instance : Monad Traced where
  pure a := ⟨a, []⟩
  bind x f := ⟨(f x.value).value, x.sources ++ (f x.value).sources⟩

@[simp] theorem value_pure {α : Type} (a : α) :
    (pure a : Traced α).value = a := rfl

@[simp] theorem sources_pure {α : Type} (a : α) :
    (pure a : Traced α).sources = [] := rfl

@[simp] theorem value_bind {α β : Type} (x : Traced α) (f : α → Traced β) :
    (x >>= f).value = (f x.value).value := rfl

@[simp] theorem sources_bind {α β : Type} (x : Traced α) (f : α → Traced β) :
    (x >>= f).sources = x.sources ++ (f x.value).sources := rfl

/-! ## The functions of the API -/

/-- The object that a call of a coroutine function returns. -/
def coroutine : Task := ⟨false⟩

/-- `coro_task::start`. -/
def Task.start (_ : Task) : Task := ⟨true⟩

/-- The move constructor of `coro_task`. -/
def moveConstruct (other : Task) : Traced Task :=
  ⟨⟨other.started⟩, [other]⟩

/-- `task_scheduler::add_coro` of a task, which returns `std::move(task)`. -/
def schedulerAddCoro (task : Task) : Traced Task :=
  moveConstruct task.start

def addCoro (task : Task) : Traced Task := do
  let parameter ← moveConstruct task
  schedulerAddCoro parameter

/-- `task_scheduler::add_coro` of a callable, which returns its local variable
`task`. -/
def schedulerAddCallable (elides : Bool) : Traced Task :=
  let task := coroutine.start
  if elides then pure task else moveConstruct task

def addCallable (elides : Bool) : Traced Task :=
  schedulerAddCallable elides

/-- `async_runtime::run`, which starts its parameter and waits for it. -/
def run (task : Task) : Traced Unit :=
  let _ := task.start
  pure ()

/-- `async_runtime::run_main`. -/
def runMain (task : Task) : Traced Unit := do
  let parameter ← moveConstruct task
  run parameter

/-- `async_runtime::block_on`. -/
def blockOn (task : Task) : Traced Unit := do
  let parameter ← moveConstruct task
  run parameter

/-- `async_runtime::spawn_detached`. -/
def spawnDetached (task : Task) : Traced Unit := do
  let sharedTask ← moveConstruct task
  let _ := sharedTask.start
  pure ()

/-- The elements of a vector move to a new storage. -/
def relocate : List Task → Traced (List Task)
  | [] => pure []
  | task :: tasks => do
      let moved ← moveConstruct task
      let rest ← relocate tasks
      pure (moved :: rest)

def pushBack (tasks : List Task) (task : Task) (reallocates : Bool) :
    Traced (List Task) := do
  let last ← moveConstruct task
  let kept ← if reallocates then relocate tasks else pure tasks
  pure (kept ++ [last])

/-- The combinators that take a vector of tasks. -/
inductive Combinator
  | whenAll
  | whenAllPassive
  | whenAny
  deriving DecidableEq, Repr

/-- The body of a combinator, which starts the tasks where they are and awaits
them there. -/
def Combinator.body (_ : Combinator) (tasks : List Task) :
    Traced (List Task) :=
  pure (tasks.map Task.start)

/-- A combinator is a coroutine itself.  Its parameter takes over the storage
of the vector. -/
def Combinator.call (c : Combinator) (tasks : List Task) : Traced Task := do
  let _ ← c.body tasks
  pure coroutine

/-! ## Programs -/

mutual

/-- The expressions of type `coro_task`. -/
inductive Expr
  | coroutine
  | addCoro (task : Expr)
  | schedulerAddCoro (task : Expr)
  | addCallable
  | combinator (c : Combinator) (tasks : Tasks)

/-- A vector of tasks, built by pushing back. -/
inductive Tasks
  | empty
  | pushBack (tasks : Tasks) (task : Expr) (reallocates : Bool)

end

/-- A call whose result is not passed on.  The task that is kept initialises a
variable. -/
inductive Call
  | keep (task : Expr)
  | run (task : Expr)
  | runMain (task : Expr)
  | blockOn (task : Expr)
  | spawnDetached (task : Expr)

mutual

def Expr.eval (elides : Bool) : Expr → Traced Task
  | .coroutine => pure TaskApi.coroutine
  | .addCoro task => do TaskApi.addCoro (← task.eval elides)
  | .schedulerAddCoro task => do
      TaskApi.schedulerAddCoro (← task.eval elides)
  | .addCallable => TaskApi.addCallable elides
  | .combinator c tasks => do c.call (← tasks.eval elides)

def Tasks.eval (elides : Bool) : Tasks → Traced (List Task)
  | .empty => pure []
  | .pushBack tasks task reallocates => do
      let vector ← tasks.eval elides
      let argument ← task.eval elides
      TaskApi.pushBack vector argument reallocates

end

/-- The execution of a call. -/
def Call.exec (elides : Bool) : Call → Traced Unit
  | .keep task => do
      let _ ← task.eval elides
      pure ()
  | .run task => do TaskApi.run (← task.eval elides)
  | .runMain task => do TaskApi.runMain (← task.eval elides)
  | .blockOn task => do TaskApi.blockOn (← task.eval elides)
  | .spawnDetached task => do TaskApi.spawnDetached (← task.eval elides)

def exec (elides : Bool) : List Call → Traced Unit
  | [] => pure ()
  | call :: calls => do
      call.exec elides
      exec elides calls

/-- Every move has a source that was not started. -/
def Traced.MovesUnstarted {α : Type} (x : Traced α) : Prop :=
  ∀ task ∈ x.sources, task.started = false

instance {α : Type} (x : Traced α) : Decidable x.MovesUnstarted :=
  inferInstanceAs (Decidable (∀ _ ∈ _, _))

/-! ## Programs that move no started task -/

def Expr.started : Expr → Bool
  | .addCoro _ | .schedulerAddCoro _ | .addCallable => true
  | .coroutine | .combinator _ _ => false

mutual

/-- The expression calls `add_coro` of no task, and pushes back only tasks that
are not started. -/
def Expr.Accepted (elides : Bool) : Expr → Prop
  | .coroutine => True
  | .addCoro _ | .schedulerAddCoro _ => False
  | .addCallable => elides = true
  | .combinator _ tasks => tasks.Accepted elides

def Tasks.Accepted (elides : Bool) : Tasks → Prop
  | .empty => True
  | .pushBack tasks task _ =>
      tasks.Accepted elides ∧ task.Accepted elides ∧ task.started = false

end

/-- A call that passes a started task on at most to `run`. -/
def Call.Accepted (elides : Bool) : Call → Prop
  | .keep task | .run task => task.Accepted elides
  | .runMain task | .blockOn task | .spawnDetached task =>
      task.Accepted elides ∧ task.started = false

section Lemmas

variable {α β : Type}

@[simp] theorem movesUnstarted_pure (a : α) :
    (pure a : Traced α).MovesUnstarted := by
  simp [Traced.MovesUnstarted]

@[simp] theorem movesUnstarted_bind (x : Traced α) (f : α → Traced β) :
    (x >>= f).MovesUnstarted ↔
      x.MovesUnstarted ∧ (f x.value).MovesUnstarted := by
  simp only [Traced.MovesUnstarted, sources_bind, List.mem_append, or_imp,
    forall_and]

@[simp] theorem value_moveConstruct (task : Task) :
    (moveConstruct task).value = task := rfl

@[simp] theorem movesUnstarted_moveConstruct (task : Task) :
    (moveConstruct task).MovesUnstarted ↔ task.started = false := by
  simp [Traced.MovesUnstarted, moveConstruct]

@[simp] theorem value_relocate (tasks : List Task) :
    (relocate tasks).value = tasks := by
  induction tasks with
  | nil => rfl
  | cons task tasks ih => simp [relocate, ih]

theorem movesUnstarted_relocate (tasks : List Task) :
    (relocate tasks).MovesUnstarted ↔
      ∀ task ∈ tasks, task.started = false := by
  induction tasks with
  | nil => simp [relocate]
  | cons task tasks ih => simp [relocate, ih]

@[simp] theorem value_pushBack (tasks : List Task) (task : Task)
    (reallocates : Bool) :
    (pushBack tasks task reallocates).value = tasks ++ [task] := by
  cases reallocates <;> simp [pushBack]

/-- `push_back` moves the new element, and possibly the others. -/
theorem movesUnstarted_pushBack (tasks : List Task) (task : Task)
    (reallocates : Bool) :
    (pushBack tasks task reallocates).MovesUnstarted ↔
      task.started = false ∧
        (reallocates = true → ∀ t ∈ tasks, t.started = false) := by
  cases reallocates <;> simp [pushBack, movesUnstarted_relocate]

theorem not_movesUnstarted_schedulerAddCoro (task : Task) :
    ¬(schedulerAddCoro task).MovesUnstarted := by
  simp [schedulerAddCoro, Task.start]

theorem movesUnstarted_addCallable (elides : Bool) :
    (addCallable elides).MovesUnstarted ↔ elides = true := by
  cases elides <;>
    simp [addCallable, schedulerAddCallable, Task.start]

end Lemmas

theorem started_eval (elides : Bool) (e : Expr) :
    (e.eval elides).value.started = e.started := by
  cases e with
  | addCallable => cases elides <;> rfl
  | _ => rfl

mutual

theorem movesUnstarted_eval_iff (elides : Bool) (e : Expr) :
    (e.eval elides).MovesUnstarted ↔ e.Accepted elides := by
  cases e with
  | coroutine => simp [Expr.eval, Expr.Accepted]
  | addCoro task =>
      simp only [Expr.eval, Expr.Accepted, TaskApi.addCoro,
        movesUnstarted_bind]
      exact iff_of_false (fun h => not_movesUnstarted_schedulerAddCoro _ h.2.2)
        id
  | schedulerAddCoro task =>
      simp only [Expr.eval, Expr.Accepted, movesUnstarted_bind]
      exact iff_of_false (fun h => not_movesUnstarted_schedulerAddCoro _ h.2)
        id
  | addCallable => exact movesUnstarted_addCallable elides
  | combinator c tasks =>
      simp only [Expr.eval, Expr.Accepted, Combinator.call, Combinator.body,
        movesUnstarted_bind, movesUnstarted_pure, and_true]
      exact (movesUnstarted_tasks_iff elides tasks).1

/-- The elements of an accepted vector are not started. -/
theorem movesUnstarted_tasks_iff (elides : Bool) (v : Tasks) :
    ((v.eval elides).MovesUnstarted ↔ v.Accepted elides) ∧
      (v.Accepted elides →
        ∀ task ∈ (v.eval elides).value, task.started = false) := by
  cases v with
  | empty => simp [Tasks.eval, Tasks.Accepted]
  | pushBack tasks task reallocates =>
      obtain ⟨hmoves, hfresh⟩ := movesUnstarted_tasks_iff elides tasks
      have htask := movesUnstarted_eval_iff elides task
      constructor
      · simp only [Tasks.eval, Tasks.Accepted, movesUnstarted_bind,
          movesUnstarted_pushBack, started_eval, hmoves, htask]
        constructor
        · rintro ⟨hv, he, hstarted, -⟩
          exact ⟨hv, he, hstarted⟩
        · rintro ⟨hv, he, hstarted⟩
          exact ⟨hv, he, hstarted, fun _ => hfresh hv⟩
      · rintro ⟨hv, -, hstarted⟩ t ht
        simp only [Tasks.eval, value_bind, value_pushBack, List.mem_append,
          List.mem_singleton] at ht
        rcases ht with ht | rfl
        · exact hfresh hv t ht
        · rw [started_eval, hstarted]

end

theorem movesUnstarted_call_iff (elides : Bool) (call : Call) :
    (call.exec elides).MovesUnstarted ↔ call.Accepted elides := by
  cases call with
  | keep task =>
      simp [Call.exec, Call.Accepted, movesUnstarted_eval_iff]
  | run task =>
      simp [Call.exec, Call.Accepted, TaskApi.run, movesUnstarted_eval_iff]
  | runMain task =>
      simp [Call.exec, Call.Accepted, TaskApi.runMain, TaskApi.run,
        movesUnstarted_eval_iff, started_eval]
  | blockOn task =>
      simp [Call.exec, Call.Accepted, TaskApi.blockOn, TaskApi.run,
        movesUnstarted_eval_iff, started_eval]
  | spawnDetached task =>
      simp [Call.exec, Call.Accepted, TaskApi.spawnDetached,
        movesUnstarted_eval_iff, started_eval]

/-- The library moves only tasks that are not started in exactly those programs
that call `add_coro` only for callables, with the move of its result elided,
and pass what it returns at most to `run`. -/
theorem movesUnstarted_exec_iff (elides : Bool) (calls : List Call) :
    (exec elides calls).MovesUnstarted ↔
      ∀ call ∈ calls, call.Accepted elides := by
  induction calls with
  | nil => simp [exec]
  | cons call calls ih =>
      simp only [exec, movesUnstarted_bind, ih, movesUnstarted_call_iff,
        List.forall_mem_cons]

/-- `auto task = add_coro(simple_coro());`. -/
def keepAddCoro : List Call :=
  [.keep (.addCoro .coroutine)]

theorem not_forall_movesUnstarted :
    ¬∀ elides calls, (exec elides calls).MovesUnstarted :=
  fun h => absurd (h true keepAddCoro) (by decide)

end TaskApi
end Ethreads
