import Ethreads.AsyncPrimitive.Model

/-!
# Waiting for a primitive in a coroutine

`event_wait_awaiter`, `barrier_wait_awaiter` and `shared_value_change_awaiter`
have the same three functions: `ready_impl` tests whether the wait is over,
`suspend_impl` adds the node and tests again without acting on the result, and
`resume_impl` trusts the wake-up.  This module models them, with the waiter
list of `async_primitive_base`, over any primitive given by its critical
sections.

An agent runs one public operation at a time: a call of a thread, or one
`co_await` with the awaiter it creates.  A coroutine that goes on to a second
`co_await` is a second agent, so an agent may still be in its `suspend_impl`
after its coroutine was resumed.

Every critical section is one step, in which the caller's mutex is held.  A
blocked thread wakes by notification, spuriously or because its time is up,
and ends its wait when it finds that the wait is over.

The counter `woken` is not part of the program.  It counts the suspended
coroutines that have been resumed.
-/

namespace Ethreads
namespace AsyncWait

/-- What follows the critical section of an operation: at `test k` the
operation calls `wake_all` if it finds that the wait for `k` is over, and at
`wait k` it goes on to block in that wait. -/
inductive After (κ : Type*)
  | done
  | wakeOne
  | wakeAll
  | test (k : κ)
  | wait (k : κ)
  deriving DecidableEq, Repr

/-- A primitive: the test of a wait for `k`, which gives the state after the
wait if it is over, and for each operation its critical section and what
follows it. -/
structure Primitive (σ ε κ : Type*) where
  pass : κ → σ → Option σ
  apply : ε → σ → σ
  after : ε → σ → After κ

inductive Pc (κ : Type*)
  | idle
  | test (k : κ)
  | waking
  | waiting (k : κ) (timed : Bool)
  | ready (k : κ)
  | adding (k : κ)
  | suspended (k : κ) (rechecked : Bool)
  | resumed
  deriving DecidableEq, Repr

structure State (τ σ κ : Type*) where
  shared : σ
  list : AsyncPrimitive.State τ τ Empty
  pc : τ → Pc κ
  woken : ℕ

variable {τ σ ε κ : Type*}

def initialState (τ κ : Type*) (x : σ) : State τ σ κ where
  shared := x
  list := AsyncPrimitive.initialState τ τ Empty
  pc := fun _ => .idle
  woken := 0

inductive Action (τ ε κ : Type*)
  | operate (t : τ) (e : ε)
  | testAgain (t : τ) (k : κ)
  | callWait (t : τ) (k : κ) (timed : Bool)
  | waitOver (t : τ) (k : κ) (timed : Bool)
  | expire (t : τ) (k : κ)
  | coAwait (t : τ) (k : κ)
  | readyTrue (t : τ) (k : κ)
  | readyFalse (t : τ) (k : κ)
  | list (t : τ) (a : AsyncPrimitive.Action τ τ Empty)
  | recheck (t : τ)
  | resume (t : τ) (k : κ) (rechecked : Bool)
  deriving DecidableEq, Repr

def Primitive.Over (P : Primitive σ ε κ) (k : κ) (x : σ) : Prop :=
  (P.pass k x).isSome = true

instance (P : Primitive σ ε κ) (k : κ) (x : σ) : Decidable (P.Over k x) :=
  inferInstanceAs (Decidable (_ = true))

/-- Where an operation goes on after its critical section. -/
def After.pc : After κ → Pc κ
  | done => .idle
  | wakeOne => .waking
  | wakeAll => .waking
  | test k => .test k
  | wait k => .waiting k false

/-- The function of the waiter list that an operation goes on with. -/
def After.call (t : τ) : After κ → Option (AsyncPrimitive.Action τ τ Empty)
  | wakeOne => some (.callWakeOne t)
  | wakeAll => some (.callWakeAll t)
  | done | test _ | wait _ => none

/-- What follows a completed `add_waiter`, `wake_one` or `wake_all`. -/
def Pc.afterList : Pc κ → Pc κ
  | adding k => suspended k false
  | waking => idle
  | p => p

/-- What follows the re-check of `suspend_impl`. -/
def Pc.afterRecheck : Pc κ → Pc κ
  | suspended k _ => suspended k true
  | _ => idle

/-- What follows the resumption of the coroutine. -/
def Pc.afterResume (rechecked : Bool) : Pc κ :=
  if rechecked then idle else resumed

def Pc.rechecks : Pc κ → Bool
  | suspended _ false => true
  | resumed => true
  | _ => false

def Enabled (P : Primitive σ ε κ) (s : State τ σ κ) : Action τ ε κ → Prop
  | .operate t _ => s.pc t = .idle ∧ s.list.pc t = .idle
  | .testAgain t k => s.pc t = .test k ∧ s.list.pc t = .idle
  | .callWait t _ _ => s.pc t = .idle
  | .waitOver t k timed => s.pc t = .waiting k timed ∧ P.Over k s.shared
  | .expire t k => s.pc t = .waiting k true ∧ ¬P.Over k s.shared
  | .coAwait t _ => s.pc t = .idle
  | .readyTrue t k => s.pc t = .ready k ∧ P.Over k s.shared
  | .readyFalse t k =>
      s.pc t = .ready k ∧ ¬P.Over k s.shared ∧ s.list.pc t = .idle
  | .list t a =>
      a.runner = some t ∧
        AsyncPrimitive.Enabled AsyncPrimitive.ungated s.list a
  | .recheck t => (s.pc t).rechecks = true
  | .resume t k r => s.pc t = .suspended k r ∧ t ∈ s.list.scheduled

variable [DecidableEq τ]

instance [DecidableEq κ] (P : Primitive σ ε κ) (s : State τ σ κ)
    (a : Action τ ε κ) : Decidable (Enabled P s a) := by
  cases a <;> dsimp only [Enabled] <;> infer_instance

def State.goto (s : State τ σ κ) (t : τ) (q : Pc κ) : State τ σ κ :=
  { s with pc := Function.update s.pc t q }

def State.listNext (s : State τ σ κ)
    (a : Option (AsyncPrimitive.Action τ τ Empty)) :
    AsyncPrimitive.State τ τ Empty :=
  a.elim s.list (AsyncPrimitive.next AsyncPrimitive.ungated s.list)

/-- Agent `t` finds its wait for `k` over and goes on. -/
def State.passBy (P : Primitive σ ε κ) (s : State τ σ κ) (t : τ) (k : κ) :
    State τ σ κ :=
  { s.goto t .idle with shared := (P.pass k s.shared).getD s.shared }

def next (P : Primitive σ ε κ) (s : State τ σ κ) :
    Action τ ε κ → State τ σ κ
  | .operate t e =>
      { s.goto t (P.after e s.shared).pc with
        shared := P.apply e s.shared
        list := s.listNext ((P.after e s.shared).call t) }
  | .testAgain t k =>
      if P.Over k s.shared then
        { s.goto t .waking with list := s.listNext (some (.callWakeAll t)) }
      else s.goto t .idle
  | .callWait t k timed => s.goto t (.waiting k timed)
  | .waitOver t k _ => s.passBy P t k
  | .expire t _ => s.goto t .idle
  | .coAwait t k => s.goto t (.ready k)
  | .readyTrue t k => s.passBy P t k
  | .readyFalse t k =>
      { s.goto t (.adding k) with list := s.listNext (some (.callAdd t t)) }
  | .list t a =>
      let list := s.listNext (some a)
      let q := if list.pc t = .idle then (s.pc t).afterList else s.pc t
      { s.goto t q with list := list }
  | .recheck t => s.goto t (s.pc t).afterRecheck
  | .resume t _ r =>
      { s.goto t (.afterResume r) with
        list := s.listNext (some (.resume t))
        woken := s.woken + 1 }

def system (P : Primitive σ ε κ) (x : σ) (τ : Type*) [DecidableEq τ] :
    TransitionSystem (State τ σ κ) (Action τ ε κ) where
  Initial s := s = initialState τ κ x
  Enabled := Enabled P
  next := next P

instance [DecidableEq κ] (P : Primitive σ ε κ) (x : σ) (s : State τ σ κ)
    (a : Action τ ε κ) : Decidable ((system P x τ).Enabled s a) :=
  inferInstanceAs (Decidable (Enabled P s a))

/-! ## Schedules of a single coroutine -/

omit [DecidableEq τ] in
/-- The coroutine of `t` is pushed into an empty list and tests again. -/
def pushes (t : τ) : List (Action τ ε κ) :=
  [.list t (.addLoad t t), .list t (.addLink t t none),
    .list t (.addCas t t none), .recheck t]

omit [DecidableEq τ] in
/-- The coroutine of `t` finds its wait going on and suspends itself. -/
def suspends (t : τ) (k : κ) : List (Action τ ε κ) :=
  [.coAwait t k, .readyFalse t k] ++ pushes t

omit [DecidableEq τ] in
/-- The `wake_all` of `t` finds only the coroutine of `u`. -/
def wakesOnly (t u : τ) : List (Action τ ε κ) :=
  [.list t (.exchange t), .list t (.walkNext t u),
    .list t (.schedule t u none)]

end AsyncWait
end Ethreads
