import Ethreads.CoroTask.Model

/-!
# Task objects and coroutine frames

This module models the life of `coro_task` objects and of the coroutine frames
they refer to: creation, `start`, `get`, `co_await`, the move operations and
the destructor of `include/coro_task.hpp`.

Any number of agents, threads or coroutines, work on any number of objects.
`start`, `get`, `co_await` and the destructor are sequences of steps.  A move
works on objects that nobody else uses, so it is one step, and its source was
not started.  The destructor, too, has its object for itself.  The frames run
on their own: the scheduler resumes a frame that was passed to
`schedule_coro_handle`, the frame may suspend and be resumed any number of
times, and it ends by publishing `final_suspend_reached`.

The counter `scheduled` and the log `destructions` are not part of the program.
-/

namespace Ethreads
namespace TaskObject

open CoroTask (Purpose)

/-- Where an agent stands in an operation on an object. -/
inductive Pc (O : Type*)
  | idle
  | casStarted (x : O) (purpose : Purpose)
  | checkDone (x : O) (purpose : Purpose)
  | schedule (x : O) (purpose : Purpose)
  | awaitReady (x : O)
  | exchangeStarted (x : O)
  | wait (x : O)
  | loadStarted (x : O)
  | loadFinal (x : O)
  | destroy (x : O)
  deriving DecidableEq, Repr

/-- Where a coroutine stands.  From `finalSuspend` on it is suspended at its
final suspend point. -/
inductive FramePc
  | absent
  | initial
  | running
  | suspended
  | finalSuspend
  | published
  deriving DecidableEq, Repr

/-- A call of `destroy()` on a frame: how often the frame had been scheduled,
and whether it had published `final_suspend_reached`. -/
structure Destruction (F : Type*) where
  frame : F
  scheduled : ℕ
  finalSuspendReached : Bool
  deriving DecidableEq, Repr

/-- The objects with their members, the frames, and the agents.  The shared
state of a frame is identified with the frame. -/
structure State (τ O F : Type*) where
  alive : O → Bool
  handle : O → Option F
  state : O → Option F
  started : O → Bool
  frame : F → FramePc
  ready : F → Bool
  finalSuspendReached : F → Bool
  pc : τ → Pc O
  scheduled : F → ℕ
  destructions : List (Destruction F)

def initialState (τ O F : Type*) : State τ O F where
  alive := fun _ => false
  handle := fun _ => none
  state := fun _ => none
  started := fun _ => false
  frame := fun _ => .absent
  ready := fun _ => false
  finalSuspendReached := fun _ => false
  pc := fun _ => .idle
  scheduled := fun _ => 0
  destructions := []

variable {τ O F : Type*}

def Pc.object : Pc O → Option O
  | idle => none
  | casStarted x _ | checkDone x _ | schedule x _ | awaitReady x
  | exchangeStarted x | wait x | loadStarted x | loadFinal x | destroy x =>
      some x

def Pc.destructs : Pc O → Bool
  | loadStarted _ | loadFinal _ | destroy _ => true
  | _ => false

def afterStart (x : O) : Purpose → Pc O
  | .start => .idle
  | .get | .awaitSuspend => .wait x

/-- `handle_.done()`. -/
def FramePc.isDone : FramePc → Bool
  | finalSuspend | published => true
  | _ => false

def State.Unused (s : State τ O F) (x : O) : Prop :=
  ∀ t, (s.pc t).object ≠ some x

/-- The object can be called: it exists and is not being destroyed. -/
def State.Callable (s : State τ O F) (x : O) : Prop :=
  s.alive x = true ∧
    ∀ t, (s.pc t).object = some x → (s.pc t).destructs = false

/-- The frame that the object owns is done. -/
def State.isDone (s : State τ O F) (x : O) : Bool :=
  (s.handle x).any fun f => (s.frame f).isDone

/-- The shared state of the object satisfies `is_ready`. -/
def State.isReady (s : State τ O F) (x : O) : Bool :=
  (s.state x).any s.ready

/-- The shared state of the object has `final_suspend_reached` set. -/
def State.isFinal (s : State τ O F) (x : O) : Bool :=
  (s.state x).any s.finalSuspendReached

/-! ## Atomic actions -/

inductive Action (τ O F : Type*)
  | create (x : O) (f : F)
  | callStart (t : τ) (x : O)
  | callGet (t : τ) (x : O)
  | coAwait (t : τ) (x : O)
  | startFirst (t : τ) (x : O) (purpose : Purpose)
  | startAgain (t : τ) (x : O) (purpose : Purpose)
  | skipSchedule (t : τ) (x : O) (purpose : Purpose)
  | notDone (t : τ) (x : O) (purpose : Purpose)
  | schedule (t : τ) (x : O) (purpose : Purpose) (f : F)
  | awaitReadyTrue (t : τ) (x : O)
  | awaitReadyFalse (t : τ) (x : O)
  | exchangeFirst (t : τ) (x : O)
  | exchangeAgain (t : τ) (x : O)
  | waited (t : τ) (x : O)
  | moveConstruct (x y : O)
  | moveAssign (x y : O)
  | destruct (t : τ) (x : O)
  | withoutFrame (t : τ) (x : O)
  | foundUnstarted (t : τ) (x : O)
  | foundStarted (t : τ) (x : O)
  | foundFinal (t : τ) (x : O)
  | destroy (t : τ) (x : O) (f : F)
  | resume (f : F)
  | suspend (f : F)
  | wake (f : F)
  | complete (f : F)
  | publish (f : F)
  deriving DecidableEq, Repr

/-- When a step may be taken.  In `moveConstruct x y` and `moveAssign x y` the
source is `y`; assigning a task to itself does nothing and is no step. -/
def Enabled (s : State τ O F) : Action τ O F → Prop
  | .create x f => s.alive x = false ∧ s.frame f = .absent
  | .callStart t x => s.pc t = .idle ∧ s.Callable x
  | .callGet t x =>
      s.pc t = .idle ∧ s.Callable x ∧ (s.state x).isSome = true
  | .coAwait t x =>
      s.pc t = .idle ∧ s.Callable x ∧ (s.state x).isSome = true
  | .startFirst t x p => s.pc t = .casStarted x p ∧ s.started x = false
  | .startAgain t x p => s.pc t = .casStarted x p ∧ s.started x = true
  | .skipSchedule t x p =>
      s.pc t = .checkDone x p ∧ (s.handle x = none ∨ s.isDone x = true)
  | .notDone t x p =>
      s.pc t = .checkDone x p ∧ (s.handle x).isSome = true ∧
        s.isDone x = false
  | .schedule t x p f => s.pc t = .schedule x p ∧ s.handle x = some f
  | .awaitReadyTrue t x => s.pc t = .awaitReady x ∧ s.isReady x = true
  | .awaitReadyFalse t x => s.pc t = .awaitReady x ∧ s.isReady x = false
  | .exchangeFirst t x => s.pc t = .exchangeStarted x ∧ s.started x = false
  | .exchangeAgain t x => s.pc t = .exchangeStarted x ∧ s.started x = true
  | .waited t x => s.pc t = .wait x ∧ s.isReady x = true
  | .moveConstruct x y =>
      s.alive x = false ∧ s.alive y = true ∧ s.started y = false ∧ s.Unused y
  | .moveAssign x y =>
      s.alive x = true ∧ s.alive y = true ∧ x ≠ y ∧ s.started y = false ∧
        s.Unused x ∧ s.Unused y
  | .destruct t x => s.pc t = .idle ∧ s.alive x = true ∧ s.Unused x
  | .withoutFrame t x => s.pc t = .loadStarted x ∧ s.handle x = none
  | .foundUnstarted t x =>
      s.pc t = .loadStarted x ∧ (s.handle x).isSome = true ∧
        s.started x = false
  | .foundStarted t x =>
      s.pc t = .loadStarted x ∧ (s.handle x).isSome = true ∧
        s.started x = true ∧ (s.state x).isSome = true
  | .foundFinal t x => s.pc t = .loadFinal x ∧ s.isFinal x = true
  | .destroy t x f => s.pc t = .destroy x ∧ s.handle x = some f
  | .resume f => s.frame f = .initial ∧ 0 < s.scheduled f
  | .suspend f => s.frame f = .running
  | .wake f => s.frame f = .suspended
  | .complete f => s.frame f = .running
  | .publish f => s.frame f = .finalSuspend

variable [DecidableEq τ] [DecidableEq O] [DecidableEq F]

instance [Fintype τ] (s : State τ O F) (x : O) : Decidable (s.Unused x) :=
  inferInstanceAs (Decidable (∀ _, _ ≠ _))

instance [Fintype τ] (s : State τ O F) (x : O) : Decidable (s.Callable x) :=
  inferInstanceAs (Decidable (_ ∧ ∀ _, _ → _))

instance [Fintype τ] (s : State τ O F) (a : Action τ O F) :
    Decidable (Enabled s a) := by
  cases a <;> dsimp only [Enabled] <;> infer_instance

def State.goto (s : State τ O F) (t : τ) (q : Pc O) : State τ O F :=
  { s with pc := Function.update s.pc t q }

def State.frameTo (s : State τ O F) (f : F) (q : FramePc) : State τ O F :=
  { s with frame := Function.update s.frame f q }

def State.destroyFrame (s : State τ O F) : Option F → State τ O F
  | none => s
  | some f =>
      { s with
        destructions := s.destructions ++
          [⟨f, s.scheduled f, s.finalSuspendReached f⟩] }

/-- The members of `x` get the values of those of `y`, which is left without a
frame. -/
def State.takeFrom (s : State τ O F) (x y : O) : State τ O F :=
  { s with
    handle := Function.update (Function.update s.handle x (s.handle y)) y none
    state := Function.update (Function.update s.state x (s.state y)) y none
    started := Function.update s.started x (s.started y) }

def State.release (s : State τ O F) (x : O) : State τ O F :=
  { s with
    alive := Function.update s.alive x false
    handle := Function.update s.handle x none
    state := Function.update s.state x none }

def State.setStarted (s : State τ O F) (x : O) : State τ O F :=
  { s with started := Function.update s.started x true }

def next (s : State τ O F) : Action τ O F → State τ O F
  | .create x f =>
      { s.frameTo f .initial with
        alive := Function.update s.alive x true
        handle := Function.update s.handle x (some f)
        state := Function.update s.state x (some f)
        started := Function.update s.started x false }
  | .callStart t x => s.goto t (.casStarted x .start)
  | .callGet t x => s.goto t (.casStarted x .get)
  | .coAwait t x => s.goto t (.awaitReady x)
  | .startFirst t x p => (s.goto t (.checkDone x p)).setStarted x
  | .startAgain t x p => s.goto t (afterStart x p)
  | .skipSchedule t x p => s.goto t (afterStart x p)
  | .notDone t x p => s.goto t (.schedule x p)
  | .schedule t x p f =>
      { s.goto t (afterStart x p) with
        scheduled := Function.update s.scheduled f (s.scheduled f + 1) }
  | .awaitReadyTrue t x => s.goto t (.wait x)
  | .awaitReadyFalse t x => s.goto t (.exchangeStarted x)
  | .exchangeFirst t x =>
      (s.goto t (.schedule x .awaitSuspend)).setStarted x
  | .exchangeAgain t x => s.goto t (.wait x)
  | .waited t _ => s.goto t .idle
  | .moveConstruct x y =>
      { s.takeFrom x y with alive := Function.update s.alive x true }
  | .moveAssign x y => (s.destroyFrame (s.handle x)).takeFrom x y
  | .destruct t x => s.goto t (.loadStarted x)
  | .withoutFrame t x => (s.goto t .idle).release x
  | .foundUnstarted t x => s.goto t (.destroy x)
  | .foundStarted t x => s.goto t (.loadFinal x)
  | .foundFinal t x => s.goto t (.destroy x)
  | .destroy t x f => ((s.goto t .idle).destroyFrame (some f)).release x
  | .resume f => s.frameTo f .running
  | .suspend f => s.frameTo f .suspended
  | .wake f => s.frameTo f .running
  | .complete f =>
      { s.frameTo f .finalSuspend with
        ready := Function.update s.ready f true }
  | .publish f =>
      { s.frameTo f .published with
        finalSuspendReached :=
          Function.update s.finalSuspendReached f true }

def system (τ O F : Type*) [DecidableEq τ] [DecidableEq O] [DecidableEq F] :
    TransitionSystem (State τ O F) (Action τ O F) where
  Initial s := s = initialState τ O F
  Enabled := Enabled
  next := next

instance [Fintype τ] (s : State τ O F) (a : Action τ O F) :
    Decidable ((system τ O F).Enabled s a) :=
  inferInstanceAs (Decidable (Enabled s a))

end TaskObject
end Ethreads
