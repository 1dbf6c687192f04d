import Ethreads.SharedValue.Model
import Ethreads.Support.TransitionSystem
import Mathlib.Data.Fintype.Basic

/-!
# The operations of a shared value

This module models the public operations of `sync_shared_value` of
`include/shared_state/shared_value.hpp` step by step, with `sync_primitive_base`
and `version_tracking_mixin` of `include/shared_state/crtp_base.hpp`.

`load` takes a shared lock if the lock policy has one; everybody else takes an
exclusive lock.  What a section does to the value before `increment_version` is
one step, as nobody else has access to it.  `version_` is incremented by a step
of its own, and `version` and `has_changed_since` read it without the lock.  A
wait releases the lock and joins the wait set in one step, and a waiting thread
leaves the set when it is notified, when its time is up or spuriously.

The field `settled` is not part of the program.  It holds the value that the
last writer has left that is done with `value_` and `version_`.
-/

namespace Ethreads
namespace SharedValue
namespace Operations

/-- `shared_mutex_lock_policy`, and the lock policies without a shared lock. -/
inductive LockPolicy
  | sharedMutex
  | exclusive
  deriving DecidableEq, Repr

inductive LoadKind
  | load
  | tryLoad
  deriving DecidableEq, Repr

/-- The operations that wait, with their arguments.  A predicate may throw. -/
inductive Wait (α : Type*)
  | forChange (sinceVersion : ℕ)
  | forChangeFor (sinceVersion : ℕ)
  | untilHolds (pred : α → Option Bool)

/-- The operations that take no lock. -/
inductive Peek
  | version
  | hasChangedSince (sinceVersion : ℕ)
  deriving DecidableEq, Repr

inductive Op (α ρ : Type*)
  | load (kind : LoadKind)
  | write (w : Writer α ρ)
  | wait (x : Wait α)
  | peek (kind : Peek)

/-- How a call ends: it returns nothing, a `bool`, a value, an optional value,
a `bool` with `expected` as it is afterwards, the result of a function or a
version, or it throws. -/
inductive Outcome (α ρ : Type*)
  | returned
  | flag (b : Bool)
  | value (x : α)
  | optional (x : Option α)
  | exchanged (success : Bool) (expected : α)
  | result (r : ρ)
  | version (v : ℕ)
  | threw
  deriving DecidableEq, Repr

section Outcomes

variable {α ρ : Type*}

def LoadKind.outcome (x : α) : LoadKind → Outcome α ρ
  | load => .value x
  | tryLoad => .optional (some x)

/-- What a writer that finds the value `x` returns to its caller. -/
def outcomeOf (T : ValueType α) (x : α) : Writer α ρ → Outcome α ρ
  | .store value =>
      ((store T value x).result.map fun _ => .returned).getD .threw
  | .tryStore value => ((tryStore T value x).result.map .flag).getD .threw
  | .exchange newValue =>
      ((exchange T newValue x).result.map .value).getD .threw
  | .compareExchange expected desired =>
      ((compareExchange T expected desired x).result.map
        fun r => .exchanged r.1 r.2).getD .threw
  | .modify func => ((modify func x).result.map fun _ => .returned).getD .threw
  | .modifyAndGet func => ((modifyAndGet func x).result.map .result).getD .threw

def Wait.timed : Wait α → Bool
  | forChangeFor _ => true
  | _ => false

/-- What a wait returns if its predicate holds or throws. -/
def Wait.found (c : Contents α) : Wait α → Option (Outcome α ρ)
  | forChange v => (c.waitForChange v).map fun c => .value c.value
  | forChangeFor v =>
      (c.waitForChange v).map fun c => .optional (some c.value)
  | untilHolds pred =>
      match pred c.value with
      | none => some .threw
      | some true => some (.value c.value)
      | some false => none

def Peek.outcome (v : ℕ) : Peek → Outcome α ρ
  | version => .version v
  | hasChangedSince w => .flag (decide (v ≠ w))

end Outcomes

/-! ## Program points -/

inductive Hold
  | free
  | shared
  | exclusive
  deriving DecidableEq, Repr

def Op.hold {α ρ : Type*} (policy : LockPolicy) : Op α ρ → Hold
  | load _ =>
      match policy with
      | .sharedMutex => .shared
      | .exclusive => .exclusive
  | _ => .exclusive

inductive Pc (α ρ : Type*)
  | idle
  | lock (op : Op α ρ)
  | copy (kind : LoadKind)
  | write (w : Writer α ρ)
  | increment (w : Writer α ρ) (out : Outcome α ρ)
  | notifyAll (w : Writer α ρ) (out : Outcome α ρ)
  | test (x : Wait α) (expired : Bool)
  | waiting (x : Wait α)
  | relock (x : Wait α) (expired : Bool)
  | unlock (op : Op α ρ) (out : Outcome α ρ)
  | peek (kind : Peek)
  | return (op : Op α ρ) (out : Outcome α ρ)

section Points

variable {α ρ : Type*}

def Pc.hold (policy : LockPolicy) : Pc α ρ → Hold
  | copy kind => (Op.load (α := α) (ρ := ρ) kind).hold policy
  | unlock op _ => op.hold policy
  | write _ | increment _ _ | notifyAll _ _ | test _ _ => .exclusive
  | _ => .free

def Pc.notify : Pc α ρ → Pc α ρ
  | waiting x => relock x false
  | p => p

def afterCall : Op α ρ → Pc α ρ
  | .peek kind => .peek kind
  | op => .lock op

def afterLock : Op α ρ → Pc α ρ
  | .load kind => .copy kind
  | .write w => .write w
  | .wait x => .test x false
  | .peek kind => .peek kind

structure State (τ α ρ : Type*) where
  value : α
  version : ℕ
  pc : τ → Pc α ρ
  settled : α

def initialState (τ ρ : Type*) (value : α) : State τ α ρ where
  value := value
  version := 0
  pc := fun _ => .idle
  settled := value

end Points

/-! ## Atomic actions -/

inductive Action (τ α ρ : Type*)
  | call (t : τ) (op : Op α ρ)
  | lock (t : τ) (op : Op α ρ)
  | copy (t : τ) (kind : LoadKind)
  | write (t : τ) (w : Writer α ρ)
  | increment (t : τ) (w : Writer α ρ) (out : Outcome α ρ)
  | notifyAll (t : τ) (w : Writer α ρ) (out : Outcome α ρ)
  | testOver (t : τ) (x : Wait α) (expired : Bool) (out : Outcome α ρ)
  | testExpired (t : τ) (x : Wait α)
  | block (t : τ) (x : Wait α)
  | wake (t : τ) (x : Wait α) (expired : Bool)
  | relock (t : τ) (x : Wait α) (expired : Bool)
  | unlock (t : τ) (op : Op α ρ) (out : Outcome α ρ)
  | peek (t : τ) (kind : Peek)
  | ret (t : τ) (op : Op α ρ) (out : Outcome α ρ)

section Actions

variable {τ α ρ : Type*}

/-- The lock can be taken. -/
def Available (policy : LockPolicy) (pc : τ → Pc α ρ) : Hold → Prop
  | .free => True
  | .shared => ∀ u, (pc u).hold policy ≠ .exclusive
  | .exclusive => ∀ u, (pc u).hold policy = .free

instance [Fintype τ] (policy : LockPolicy) (pc : τ → Pc α ρ) (h : Hold) :
    Decidable (Available policy pc h) := by
  cases h <;> dsimp only [Available] <;> infer_instance

def State.contents (s : State τ α ρ) : Contents α :=
  ⟨s.value, s.version⟩

def Enabled (policy : LockPolicy) (s : State τ α ρ) : Action τ α ρ → Prop
  | .call t _ => s.pc t = .idle
  | .lock t op => s.pc t = .lock op ∧ Available policy s.pc (op.hold policy)
  | .copy t kind => s.pc t = .copy kind
  | .write t w => s.pc t = .write w
  | .increment t w out => s.pc t = .increment w out
  | .notifyAll t w out => s.pc t = .notifyAll w out
  | .testOver t x e out => s.pc t = .test x e ∧ x.found s.contents = some out
  | .testExpired t x =>
      s.pc t = .test x true ∧ x.found (ρ := ρ) s.contents = none
  | .block t x => s.pc t = .test x false ∧ x.found (ρ := ρ) s.contents = none
  | .wake t x e => s.pc t = .waiting x ∧ (e = true → x.timed = true)
  | .relock t x e => s.pc t = .relock x e ∧ Available policy s.pc .exclusive
  | .unlock t op out => s.pc t = .unlock op out
  | .peek t kind => s.pc t = .peek kind
  | .ret t op out => s.pc t = .return op out

variable [DecidableEq τ]

def State.goto (s : State τ α ρ) (t : τ) (q : Pc α ρ) : State τ α ρ :=
  { s with pc := Function.update s.pc t q }

def State.write (T : ValueType α) (s : State τ α ρ) (t : τ) (w : Writer α ρ) :
    State τ α ρ :=
  let r := w.run T s.value
  let out := outcomeOf T s.value w
  if r.increments then { s.goto t (.increment w out) with value := r.value }
  else
    { s.goto t (.unlock (.write w) out) with
      value := r.value
      settled := r.value }

def next (T : ValueType α) (s : State τ α ρ) : Action τ α ρ → State τ α ρ
  | .call t op => s.goto t (afterCall op)
  | .lock t op => s.goto t (afterLock op)
  | .copy t kind => s.goto t (.unlock (.load kind) (kind.outcome s.value))
  | .write t w => s.write T t w
  | .increment t w out =>
      { s.goto t (.notifyAll w out) with
        version := s.version + 1
        settled := s.value }
  | .notifyAll t w out =>
      { s with
        pc := Function.update (fun u => (s.pc u).notify) t
          (.unlock (.write w) out) }
  | .testOver t x _ out => s.goto t (.unlock (.wait x) out)
  | .testExpired t x => s.goto t (.unlock (.wait x) (.optional none))
  | .block t x => s.goto t (.waiting x)
  | .wake t x e => s.goto t (.relock x e)
  | .relock t x e => s.goto t (.test x e)
  | .unlock t _ _ => s.goto t .idle
  | .peek t kind => s.goto t (.return (.peek kind) (kind.outcome s.version))
  | .ret t _ _ => s.goto t .idle

def system (τ ρ : Type*) [DecidableEq τ] (policy : LockPolicy)
    (T : ValueType α) (value : α) :
    TransitionSystem (State τ α ρ) (Action τ α ρ) where
  Initial s := s = initialState τ ρ value
  Enabled := Enabled policy
  next := next T

end Actions

end Operations
end SharedValue
end Ethreads
