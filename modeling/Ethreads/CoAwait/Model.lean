import Ethreads.CoroTask.Model
import Mathlib.Data.Fin.Tuple.Basic
import Mathlib.Data.List.OfFn

/-!
# Coroutines that await each other

This module models `async_runtime::run` of `include/async_runtime.hpp` with
`coro_task` of `include/coro_task.hpp`, for coroutines that create, start,
await and destroy further tasks, and any number of workers.

A body is given by what it does with its local tasks; what it computes in
between decides how it goes on.  A task is used by the coroutine that has
created it only, so that to create or to start it is one step.  The result and
`ready` are stored in one critical section, and `get` reads them in one; both
are one step.  Each exchange on the word of `continuation_handoff`, and each
load or store of a flag, is a step of its own.

A worker that runs nothing may take any handle that is scheduled.  In the
program it may instead be asleep after a wake-up that was lost; what is shown
to be reached says which workers it takes to be awake.  A `get` or a destructor
that has to wait takes no step before it goes on.  Without workers nothing runs
here, where `schedule_coro_handle` would resume the coroutine itself.

The fields `parent`, `source` and `consumed` are not part of the program.
-/

namespace Ethreads
namespace CoAwait

open CoroTask (Completion)

universe u v

/-! ## Bodies -/

/-- How the body of a coroutine goes on when it has `n` local tasks, the newest
first.  A task that `create` starts is one of `add_coro`. -/
inductive Body (V : Type u) (E : Type v) : ℕ → Type (max u v)
  | finish {n : ℕ} (c : Completion V E) : Body V E n
  | create {n : ℕ} (started : Bool) (child : Body V E 0)
      (rest : Body V E (n + 1)) : Body V E n
  | coAwait {n : ℕ} (i : Fin n) (rest : Completion V E → Body V E n) :
      Body V E n
  | drop {n : ℕ} (rest : Body V E n) : Body V E (n + 1)

variable {V : Type u} {E : Type v}

/-- What `get` leaves of a result: a value is moved, an exception is shared. -/
def afterGet (movedFrom : V → V) : Completion V E → Completion V E
  | .value v => .value (movedFrom v)
  | .exception e => .exception e

/-- What the body completes with, if each task runs when it is awaited. -/
def Body.eval (movedFrom : V → V) {n : ℕ} :
    Body V E n → (Fin n → Completion V E) → Completion V E
  | finish c, _ => c
  | create _ child rest, env =>
      rest.eval movedFrom (Fin.cons (child.eval movedFrom Fin.elim0) env)
  | coAwait i rest, env =>
      (rest (env i)).eval movedFrom
        (Function.update env i (afterGet movedFrom (env i)))
  | drop rest, env => rest.eval movedFrom (Fin.tail env)

/-! ## Tasks -/

/-- A frame: how the body goes on, and the local tasks. -/
structure Frame (V : Type u) (E : Type v) where
  size : ℕ
  rest : Body V E size
  tasks : Fin size → ℕ

structure Awaiting (V : Type u) (E : Type v) where
  size : ℕ
  index : Fin size
  rest : Completion V E → Body V E size
  tasks : Fin size → ℕ

def Awaiting.awaited (a : Awaiting V E) : ℕ :=
  a.tasks a.index

def Awaiting.frame (a : Awaiting V E) : Frame V E :=
  ⟨a.size, .coAwait a.index a.rest, a.tasks⟩

def Awaiting.resumed (a : Awaiting V E) (c : Completion V E) : Frame V E :=
  ⟨a.size, a.rest c, a.tasks⟩

/-- Where a coroutine stands.  At `destroying` it has left its body. -/
inductive Pc (V : Type u) (E : Type v)
  | initial
  | running (f : Frame V E)
  | awaitSuspend (a : Awaiting V E)
  | setContinuation (a : Awaiting V E)
  | suspended (a : Awaiting V E)
  | get (a : Awaiting V E)
  | destroying (c : Completion V E) (tasks : List ℕ)
  | setReady
  | storeFinal (continuation : Option ℕ)
  | transfer (continuation : Option ℕ)
  | finished

/-- The word of `continuation_handoff`. -/
inductive Handoff
  | empty
  | continuation (t : ℕ)
  | ready
  deriving DecidableEq, Repr

/-- A `coro_task`, its shared state and its coroutine.  The shared state is
ready as soon as it holds a result. -/
structure Task (V : Type u) (E : Type v) where
  started : Bool
  result : Option (Completion V E)
  handoff : Handoff
  finalSuspendReached : Bool
  destroyed : ℕ
  pc : Pc V E
  parent : ℕ
  source : Body V E 0
  consumed : Bool

def newTask (parent : ℕ) (source : Body V E 0) (started : Bool) :
    Task V E where
  started := started
  result := none
  handoff := .empty
  finalSuspendReached := false
  destroyed := 0
  pc := .initial
  parent := parent
  source := source
  consumed := false

/-- The destructor does not have to wait. -/
def Task.Destroyable (x : Task V E) : Prop :=
  x.started = true → x.finalSuspendReached = true

instance (x : Task V E) : Decidable x.Destroyable :=
  inferInstanceAs (Decidable (_ → _))

/-- The continuation that `set_ready` finds. -/
def Handoff.found : Handoff → Option ℕ
  | continuation t => some t
  | _ => none

/-- Where the caller of `run` stands. -/
inductive MainPc (V : Type u) (E : Type v)
  | start
  | get
  | destroy (c : Completion V E)
  | returned (c : Completion V E)

/-- The tasks, of which the first `count` have been created, the handles that
are scheduled, the coroutines that the workers run, and the caller of `run`. -/
structure State (k : ℕ) (V : Type u) (E : Type v) where
  task : ℕ → Task V E
  count : ℕ
  queue : List ℕ
  worker : Fin k → Option ℕ
  main : MainPc V E

variable {k : ℕ}

def initialState (k : ℕ) (root : Body V E 0) : State k V E where
  task := fun _ => newTask 0 root false
  count := 1
  queue := []
  worker := fun _ => none
  main := .start

/-! ## Atomic actions -/

inductive Action (k : ℕ) (V : Type u) (E : Type v)
  | start
  | getReturns (c : Completion V E)
  | destroyRoot (c : Completion V E)
  | resume (w : Fin k) (t : ℕ)
  | create (w : Fin k) (t : ℕ) {n : ℕ} (started : Bool) (child : Body V E 0)
      (rest : Body V E (n + 1)) (tasks : Fin n → ℕ)
  | drop (w : Fin k) (t : ℕ) {n : ℕ} (rest : Body V E n)
      (tasks : Fin (n + 1) → ℕ)
  | awaitReadyTrue (w : Fin k) (t : ℕ) (a : Awaiting V E)
  | awaitReadyFalse (w : Fin k) (t : ℕ) (a : Awaiting V E)
  | exchangeFirst (w : Fin k) (t : ℕ) (a : Awaiting V E)
  | exchangeAgain (w : Fin k) (t : ℕ) (a : Awaiting V E)
  | setContinuation (w : Fin k) (t : ℕ) (a : Awaiting V E)
  | continuationTaken (w : Fin k) (t : ℕ) (a : Awaiting V E) (other : ℕ)
  | alreadyReady (w : Fin k) (t : ℕ) (a : Awaiting V E)
  | get (w : Fin k) (t : ℕ) (a : Awaiting V E) (c : Completion V E)
  | returnValue (w : Fin k) (t : ℕ) {n : ℕ} (value : V) (tasks : Fin n → ℕ)
  | throwException (w : Fin k) (t : ℕ) {n : ℕ} (e : E) (tasks : Fin n → ℕ)
  | destroyTask (w : Fin k) (t : ℕ) (c : Completion V E) (x : ℕ)
      (tasks : List ℕ)
  | tasksDestroyed (w : Fin k) (t : ℕ) (value : V)
  | unhandledException (w : Fin k) (t : ℕ) (e : E)
  | setReady (w : Fin k) (t : ℕ)
  | storeFinal (w : Fin k) (t : ℕ) (continuation : Option ℕ)
  | transferNoop (w : Fin k) (t : ℕ)
  | transferTo (w : Fin k) (t parent : ℕ) (a : Awaiting V E)

/-- Worker `w` runs the coroutine `t`, which stands at `p`. -/
def State.Runs (s : State k V E) (w : Fin k) (t : ℕ) (p : Pc V E) : Prop :=
  s.worker w = some t ∧ (s.task t).pc = p

def Enabled (s : State k V E) : Action k V E → Prop
  | .start => s.main = .start
  | .getReturns c => s.main = .get ∧ (s.task 0).result = some c
  | .destroyRoot c => s.main = .destroy c ∧ (s.task 0).Destroyable
  | .resume w t => s.worker w = none ∧ t ∈ s.queue
  | .create w t b child rest tasks =>
      s.Runs w t (.running ⟨_, .create b child rest, tasks⟩)
  | .drop w t rest tasks =>
      s.Runs w t (.running ⟨_, .drop rest, tasks⟩) ∧
        (s.task (tasks 0)).Destroyable
  | .awaitReadyTrue w t a =>
      s.Runs w t (.running a.frame) ∧
        (s.task a.awaited).result.isSome = true
  | .awaitReadyFalse w t a =>
      s.Runs w t (.running a.frame) ∧
        (s.task a.awaited).result.isSome = false
  | .exchangeFirst w t a =>
      s.Runs w t (.awaitSuspend a) ∧ (s.task a.awaited).started = false
  | .exchangeAgain w t a =>
      s.Runs w t (.awaitSuspend a) ∧ (s.task a.awaited).started = true
  | .setContinuation w t a =>
      s.Runs w t (.setContinuation a) ∧ (s.task a.awaited).handoff = .empty
  | .continuationTaken w t a p =>
      s.Runs w t (.setContinuation a) ∧
        (s.task a.awaited).handoff = .continuation p
  | .alreadyReady w t a =>
      s.Runs w t (.setContinuation a) ∧ (s.task a.awaited).handoff = .ready
  | .get w t a c =>
      s.Runs w t (.get a) ∧ (s.task a.awaited).result = some c
  | .returnValue w t x tasks =>
      s.Runs w t (.running ⟨_, .finish (.value x), tasks⟩)
  | .throwException w t e tasks =>
      s.Runs w t (.running ⟨_, .finish (.exception e), tasks⟩)
  | .destroyTask w t c x tasks =>
      s.Runs w t (.destroying c (x :: tasks)) ∧ (s.task x).Destroyable
  | .tasksDestroyed w t x => s.Runs w t (.destroying (.value x) [])
  | .unhandledException w t e => s.Runs w t (.destroying (.exception e) [])
  | .setReady w t => s.Runs w t .setReady
  | .storeFinal w t p => s.Runs w t (.storeFinal p)
  | .transferNoop w t => s.Runs w t (.transfer none)
  | .transferTo w t p a =>
      s.Runs w t (.transfer (some p)) ∧ (s.task p).pc = .suspended a

def State.set (s : State k V E) (t : ℕ) (x : Task V E) : State k V E :=
  { s with task := Function.update s.task t x }

def State.goto (s : State k V E) (t : ℕ) (p : Pc V E) : State k V E :=
  s.set t { s.task t with pc := p }

/-- Worker `w` goes on with the coroutine `t`, or returns to its loop. -/
def State.work (s : State k V E) (w : Fin k) (t : Option ℕ) : State k V E :=
  { s with worker := Function.update s.worker w t }

def State.destroy (s : State k V E) (t : ℕ) : State k V E :=
  s.set t { s.task t with destroyed := (s.task t).destroyed + 1 }

def State.schedule (s : State k V E) (t : ℕ) : State k V E :=
  { s with queue := s.queue ++ [t] }

/-- The result of a task is moved out of its shared state. -/
def State.consume (movedFrom : V → V) (s : State k V E) (t : ℕ)
    (c : Completion V E) : State k V E :=
  s.set t
    { s.task t with result := some (afterGet movedFrom c), consumed := true }

def next (movedFrom : V → V) (s : State k V E) :
    Action k V E → State k V E
  | .start =>
      { (s.set 0 { s.task 0 with started := true }).schedule 0 with
        main := .get }
  | .getReturns c => { s.consume movedFrom 0 c with main := .destroy c }
  | .destroyRoot c => { s.destroy 0 with main := .returned c }
  | .resume w t =>
      { (s.goto t (.running ⟨0, (s.task t).source, Fin.elim0⟩)).work w
          (some t) with
        queue := s.queue.erase t }
  | .create _ t b child rest tasks =>
      { (s.set s.count (newTask t child b)).goto t
          (.running ⟨_, rest, Fin.cons s.count tasks⟩) with
        count := s.count + 1
        queue := if b then s.queue ++ [s.count] else s.queue }
  | .drop _ t rest tasks =>
      (s.destroy (tasks 0)).goto t (.running ⟨_, rest, Fin.tail tasks⟩)
  | .awaitReadyTrue _ t a => s.goto t (.get a)
  | .awaitReadyFalse _ t a => s.goto t (.awaitSuspend a)
  | .exchangeFirst _ t a =>
      ((s.set a.awaited
        { s.task a.awaited with started := true }).schedule a.awaited).goto t
          (.setContinuation a)
  | .exchangeAgain _ t a => s.goto t (.setContinuation a)
  | .setContinuation w t a =>
      ((s.set a.awaited
        { s.task a.awaited with handoff := .continuation t }).goto t
          (.suspended a)).work w none
  | .continuationTaken w t a _ => (s.goto t (.suspended a)).work w none
  | .alreadyReady _ t a => s.goto t (.get a)
  | .get _ t a c =>
      (s.consume movedFrom a.awaited c).goto t (.running (a.resumed c))
  | .returnValue _ t x tasks =>
      s.set t
        { s.task t with
          result := some (.value x)
          pc := .destroying (.value x) (List.ofFn tasks) }
  | .throwException _ t e tasks =>
      s.goto t (.destroying (.exception e) (List.ofFn tasks))
  | .destroyTask _ t c x tasks => (s.destroy x).goto t (.destroying c tasks)
  | .tasksDestroyed _ t _ => s.goto t .setReady
  | .unhandledException _ t e =>
      s.set t
        { s.task t with result := some (.exception e), pc := .setReady }
  | .setReady _ t =>
      s.set t
        { s.task t with
          handoff := .ready
          pc := .storeFinal (s.task t).handoff.found }
  | .storeFinal _ t p =>
      s.set t
        { s.task t with finalSuspendReached := true, pc := .transfer p }
  | .transferNoop w t => (s.goto t .finished).work w none
  | .transferTo w t p a =>
      ((s.goto t .finished).goto p (.get a)).work w (some p)

/-- The task whose frame a step destroys. -/
def Action.destroys : Action k V E → Option ℕ
  | destroyRoot _ => some 0
  | drop _ _ _ tasks => some (tasks 0)
  | destroyTask _ _ _ x _ => some x
  | _ => none

def system (movedFrom : V → V) (k : ℕ) (root : Body V E 0) :
    TransitionSystem (State k V E) (Action k V E) where
  Initial s := s = initialState k root
  Enabled := Enabled
  next := next movedFrom

end CoAwait
end Ethreads
