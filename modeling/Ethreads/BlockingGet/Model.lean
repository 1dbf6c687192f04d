import Ethreads.Support.Linked
import Ethreads.Support.TransitionSystem
import Mathlib.Data.Fintype.Card
import Mathlib.Data.Fintype.Prod

/-!
# Blocking `get` inside coroutines

This module models `coro_worker` of `src/coro_scheduler.cpp` together with
`add_coro`, `coro_task::get` and `~coro_task` of `include/coro_task.hpp`, for a
finite tree of coroutines.  A coroutine adds its children, calls `get` on some
or all of them in any order, returns its value, and destroys the tasks of its
children before it reaches its final suspend point.

A handle is always scheduled in `external_coro_queue`, so the deques of the
workers stay empty.  No wake-up is lost: a worker that runs nothing can take a
handle whenever there is one.
-/

namespace Ethreads
namespace BlockingGet

/-- A finite tree of coroutines: which children each of them adds, in this
order, and on which of them it calls `get`. -/
structure CoroTree (ω : Type*) where
  root : ω
  children : ω → List ω
  gets : ω → List ω
  depth : ω → ℕ
  depth_root : depth root = 0
  depth_child : ∀ p, ∀ c ∈ children p, depth c = depth p + 1
  nodup_children : ∀ p, (children p).Nodup
  parent_unique : ∀ p q c, c ∈ children p → c ∈ children q → p = q
  exists_parent : ∀ c, c ≠ root → ∃ p, c ∈ children p
  gets_subset : ∀ p, gets p ⊆ children p

/-- Where a worker stands: in the loop of `coro_worker`, or in a coroutine that
still has to add the children of `rest`, to call `get` on them, or to destroy
their tasks.  At `getting` it is inside `get`. -/
inductive WorkerPc (ω : Type*)
  | idle
  | adding (c : ω) (rest : List ω)
  | running (c : ω) (rest : List ω)
  | getting (c child : ω) (rest : List ω)
  | destroying (c : ω) (rest : List ω)
  deriving DecidableEq, Repr

inductive Stage (k : ℕ)
  | unadded
  | queued
  | running (w : Fin k)
  | ended
  deriving DecidableEq, Repr

/-- The workers, the queue and the shared states of the coroutines.  The field
`stage` is not part of the program. -/
structure State (k : ℕ) (ω : Type*) where
  worker : Fin k → WorkerPc ω
  externalCoroQueue : List ω
  ready : ω → Bool
  finalSuspendReached : ω → Bool
  stage : ω → Stage k

variable {k : ℕ} {ω : Type*}

def WorkerPc.coroutine : WorkerPc ω → Option ω
  | idle => none
  | adding c _ | running c _ | getting c _ _ | destroying c _ => some c

inductive Action (k : ℕ) (ω : Type*)
  | tryReceive (w : Fin k) (c : ω) (queue : List ω)
  | addCoro (w : Fin k) (c child : ω) (rest : List ω)
  | added (w : Fin k) (c : ω)
  | callGet (w : Fin k) (c child : ω) (rest : List ω)
  | getReturns (w : Fin k) (c child : ω) (rest : List ω)
  | returnValue (w : Fin k) (c : ω)
  | destroyTask (w : Fin k) (c child : ω) (rest : List ω)
  | finalSuspend (w : Fin k) (c : ω)
  deriving DecidableEq, Repr

def Enabled (s : State k ω) : Action k ω → Prop
  | .tryReceive w c queue =>
      s.worker w = .idle ∧ s.externalCoroQueue = c :: queue
  | .addCoro w c child rest => s.worker w = .adding c (child :: rest)
  | .added w c => s.worker w = .adding c []
  | .callGet w c child rest => s.worker w = .running c rest ∧ child ∈ rest
  | .getReturns w c child rest =>
      s.worker w = .getting c child rest ∧ s.ready child = true
  | .returnValue w c => s.worker w = .running c []
  | .destroyTask w c child rest =>
      s.worker w = .destroying c (child :: rest) ∧
        s.finalSuspendReached child = true
  | .finalSuspend w c => s.worker w = .destroying c []

variable [DecidableEq ω]

/-- Only the root has been scheduled. -/
def initialState (tree : CoroTree ω) (k : ℕ) : State k ω where
  worker := fun _ => .idle
  externalCoroQueue := [tree.root]
  ready := fun _ => false
  finalSuspendReached := fun _ => false
  stage := Function.update (fun _ => .unadded) tree.root .queued

def State.goto (s : State k ω) (w : Fin k) (p : WorkerPc ω) : State k ω :=
  { s with worker := Function.update s.worker w p }

def next (tree : CoroTree ω) (s : State k ω) : Action k ω → State k ω
  | .tryReceive w c queue =>
      { s.goto w (.adding c (tree.children c)) with
        externalCoroQueue := queue
        stage := Function.update s.stage c (.running w) }
  | .addCoro w c child rest =>
      { s.goto w (.adding c rest) with
        externalCoroQueue := s.externalCoroQueue ++ [child]
        stage := Function.update s.stage child .queued }
  | .added w c => s.goto w (.running c (tree.gets c))
  | .callGet w c child rest => s.goto w (.getting c child (rest.erase child))
  | .getReturns w c _ rest => s.goto w (.running c rest)
  | .returnValue w c =>
      { s.goto w (.destroying c (tree.children c).reverse) with
        ready := Function.update s.ready c true }
  | .destroyTask w c _ rest => s.goto w (.destroying c rest)
  | .finalSuspend w c =>
      { s.goto w .idle with
        finalSuspendReached := Function.update s.finalSuspendReached c true
        stage := Function.update s.stage c .ended }

/-- The workers and the coroutines of a tree as a transition system. -/
def system (tree : CoroTree ω) (k : ℕ) :
    TransitionSystem (State k ω) (Action k ω) where
  Initial s := s = initialState tree k
  Enabled := Enabled
  next := next tree

instance (s : State k ω) (a : Action k ω) : Decidable (Enabled s a) := by
  cases a <;> dsimp only [Enabled] <;> infer_instance

instance (tree : CoroTree ω) (s : State k ω) (a : Action k ω) :
    Decidable ((system tree k).Enabled s a) :=
  inferInstanceAs (Decidable (Enabled s a))

/-! ## Wedged schedulers -/

/-- The worker is blocked inside `get` on a task that has not completed. -/
def State.IsBlocked (s : State k ω) (w : Fin k) : Prop :=
  ∃ c child rest, s.worker w = .getting c child rest ∧ s.ready child = false

/-- Every worker is blocked while the queue still holds handles. -/
def State.IsWedged (s : State k ω) : Prop :=
  (∀ w, s.IsBlocked w) ∧ s.externalCoroQueue ≠ []

def CoroTree.getters [Fintype ω] (tree : CoroTree ω) : Finset ω :=
  Finset.univ.filter fun c => tree.gets c ≠ []

/-- Every coroutine calls `get` on all its children. -/
def CoroTree.GetsAll (tree : CoroTree ω) : Prop :=
  ∀ c, tree.children c ⊆ tree.gets c

end BlockingGet
end Ethreads
