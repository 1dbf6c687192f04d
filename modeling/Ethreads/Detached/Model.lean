import Ethreads.CoroTask.Progress

/-!
# Detached tasks

This module models `async_runtime::spawn_detached` and `collect_detached` of
`include/async_runtime.hpp`.

A task that is given to `spawn_detached` is shared: the call holds one
reference until it returns, and the closure in `detached_tasks_` holds another
one until a sweep finds the task ready.  Whoever drops the last reference runs
the destructor of the task, inside the mutex or outside.  Every task takes the
atomic steps of the completion protocol.

A sweep is `std::remove_if`: it calls each closure once, in order, and moves
those that return `false` to the front.  During a sweep `detached` holds the
closures that it has kept, and the program point holds those that it has not
called yet.

The fields `owned` and `atSweep` are not part of the program.  The first says
which tasks are still owned by a caller, who can give them away once; the other
holds which tasks were ready when the last sweep began.
-/

namespace Ethreads
namespace Detached

open CoroTask (Completion Handle)

/-- Where a thread stands in a call.  A call of `spawn_detached` has a task
with it, a call of `collect_detached` has none.  From `size` to `unlock` the
thread holds `detached_mutex_`. -/
inductive Pc (ι : Type*)
  | idle
  | start (i : ι)
  | lock (spawned : Option ι)
  | size (i : ι)
  | sweep (spawned : Option ι) (rest : List ι)
  | reset (spawned : Option ι) (i : ι) (rest : List ι)
  | destroy (spawned : Option ι) (i : ι) (rest : List ι)
  | pushBack (i : ι)
  | unlock (spawned : Option ι)
  | release (i : ι)
  | destroyLast (i : ι)
  deriving DecidableEq, Repr

namespace Pc

variable {ι : Type*}

def holdsMutex : Pc ι → Bool
  | size _ | sweep _ _ | reset _ _ _ | destroy _ _ _ | pushBack _
  | unlock _ => true
  | _ => false

def destroying : Pc ι → Option ι
  | destroy _ i _ | destroyLast i => some i
  | _ => none

def afterSweep : Option ι → Pc ι
  | some i => pushBack i
  | none => unlock none

/-- Where a call goes when it has released the mutex. -/
def afterUnlock : Option ι → Pc ι
  | some i => release i
  | none => idle

end Pc

/-- The tasks with their reference counts, the list of closures and its
mutex. -/
structure State (ι τ T E : Type*) where
  task : ι → CoroTask.State Unit T E
  owned : ι → Bool
  refs : ι → ℕ
  detached : List ι
  mutex : Option τ
  pc : τ → Pc ι
  atSweep : ι → Bool

variable {ι τ T E : Type*} {noop : BitVec 64}

def initialState (ι τ T E : Type*) : State ι τ T E where
  task := fun _ => CoroTask.initialState Unit T E
  owned := fun _ => true
  refs := fun _ => 0
  detached := []
  mutex := none
  pc := fun _ => .idle
  atSweep := fun _ => false

/-! ## Atomic actions -/

inductive Action (ι τ T E : Type*)
  | task (i : ι) (a : CoroTask.Action Unit T E)
  | callSpawn (t : τ) (i : ι)
  | callCollect (t : τ)
  | started (t : τ) (i : ι)
  | lock (t : τ) (spawned : Option ι)
  | sizeFew (t : τ) (i : ι)
  | sizeMany (t : τ) (i : ι)
  | checkTrue (t : τ) (spawned : Option ι) (i : ι) (rest : List ι)
  | checkFalse (t : τ) (spawned : Option ι) (i : ι) (rest : List ι)
  | reset (t : τ) (spawned : Option ι) (i : ι) (rest : List ι)
  | destroyed (t : τ) (spawned : Option ι) (i : ι) (rest : List ι)
  | erase (t : τ) (spawned : Option ι)
  | pushBack (t : τ) (i : ι)
  | unlock (t : τ) (spawned : Option ι)
  | release (t : τ) (i : ι)
  | destroyedLast (t : τ) (i : ι)
  deriving DecidableEq, Repr

/-- The calls that are made on the task itself: `start` by the thread that has
got it, and the destructor by the thread that has dropped the last
reference. -/
def Called (pc : τ → Pc ι) (i : ι) : CoroTask.Action Unit T E → Prop
  | .callStart _ => ∃ t, pc t = .start i
  | .destruct => ∃ t, (pc t).destroying = some i
  | .callIsReady _ | .callGet _ | .coAwait _ => False
  | _ => True

/-- `detached_tasks_` is swept when it is longer than this. -/
def sweepLimit : ℕ := 100

def Enabled (h : Handle noop) (s : State ι τ T E) : Action ι τ T E → Prop
  | .task i a => CoroTask.Enabled (fun _ => h) (s.task i) a ∧ Called s.pc i a
  | .callSpawn t i => s.pc t = .idle ∧ s.owned i = true
  | .callCollect t => s.pc t = .idle
  | .started t i => s.pc t = .start i ∧ (s.task i).pc () = .started
  | .lock t o => s.pc t = .lock o ∧ s.mutex = none
  | .sizeFew t i => s.pc t = .size i ∧ s.detached.length ≤ sweepLimit
  | .sizeMany t i => s.pc t = .size i ∧ sweepLimit < s.detached.length
  | .checkTrue t o i rest =>
      s.pc t = .sweep o (i :: rest) ∧ (s.task i).ready = true
  | .checkFalse t o i rest =>
      s.pc t = .sweep o (i :: rest) ∧ (s.task i).ready = false
  | .reset t o i rest => s.pc t = .reset o i rest
  | .destroyed t o i rest =>
      s.pc t = .destroy o i rest ∧ (s.task i).destructor = .destroyed
  | .erase t o => s.pc t = .sweep o []
  | .pushBack t i => s.pc t = .pushBack i
  | .unlock t o => s.pc t = .unlock o
  | .release t i => s.pc t = .release i
  | .destroyedLast t i =>
      s.pc t = .destroyLast i ∧ (s.task i).destructor = .destroyed

variable [DecidableEq ι] [DecidableEq τ]

instance [Fintype τ] (pc : τ → Pc ι) (i : ι) (a : CoroTask.Action Unit T E) :
    Decidable (Called pc i a) := by
  cases a <;> dsimp only [Called] <;> infer_instance

instance [Fintype τ] [DecidableEq T] [DecidableEq E] (h : Handle noop)
    (s : State ι τ T E) (a : Action ι τ T E) : Decidable (Enabled h s a) := by
  cases a <;> dsimp only [Enabled] <;> infer_instance

def State.goto (s : State ι τ T E) (t : τ) (q : Pc ι) : State ι τ T E :=
  { s with pc := Function.update s.pc t q }

def State.sweep (s : State ι τ T E) (t : τ) (spawned : Option ι) :
    State ι τ T E :=
  { s.goto t (.sweep spawned s.detached) with
    detached := []
    atSweep := fun i => (s.task i).ready }

/-- Thread `t` drops a reference to task `i`, and runs the destructor if it was
the last one. -/
def State.drop (s : State ι τ T E) (t : τ) (i : ι) (last rest : Pc ι) :
    State ι τ T E :=
  { s.goto t (if s.refs i = 1 then last else rest) with
    refs := Function.update s.refs i (s.refs i - 1) }

def next (h : Handle noop) (s : State ι τ T E) :
    Action ι τ T E → State ι τ T E
  | .task i a =>
      { s with
        task := Function.update s.task i
          (CoroTask.next (fun _ => h) (s.task i) a) }
  | .callSpawn t i =>
      { s.goto t (.start i) with
        owned := Function.update s.owned i false
        refs := Function.update s.refs i 1 }
  | .callCollect t => s.goto t (.lock none)
  | .started t i => s.goto t (.lock (some i))
  | .lock t (some i) => { s.goto t (.size i) with mutex := some t }
  | .lock t none => { s.sweep t none with mutex := some t }
  | .sizeFew t i => s.goto t (.pushBack i)
  | .sizeMany t i => s.sweep t (some i)
  | .checkTrue t o i rest => s.goto t (.reset o i rest)
  | .checkFalse t o i rest =>
      { s.goto t (.sweep o rest) with detached := s.detached ++ [i] }
  | .reset t o i rest => s.drop t i (.destroy o i rest) (.sweep o rest)
  | .destroyed t o _ rest => s.goto t (.sweep o rest)
  | .erase t o => s.goto t (.afterSweep o)
  | .pushBack t i =>
      { s.goto t (.unlock (some i)) with
        detached := s.detached ++ [i]
        refs := Function.update s.refs i (s.refs i + 1) }
  | .unlock t o => { s.goto t (.afterUnlock o) with mutex := none }
  | .release t i => s.drop t i (.destroyLast i) .idle
  | .destroyedLast t _ => s.goto t .idle

def system (ι τ T E : Type*) [DecidableEq ι] [DecidableEq τ]
    (h : Handle noop) : TransitionSystem (State ι τ T E) (Action ι τ T E) where
  Initial s := s = initialState ι τ T E
  Enabled := Enabled h
  next := next h

instance [Fintype τ] [DecidableEq T] [DecidableEq E] (h : Handle noop)
    (s : State ι τ T E) (a : Action ι τ T E) :
    Decidable ((system ι τ T E h).Enabled s a) :=
  inferInstanceAs (Decidable (Enabled h s a))

end Detached
end Ethreads
