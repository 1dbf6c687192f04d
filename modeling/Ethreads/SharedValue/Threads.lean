import Ethreads.SharedValue.Model
import Ethreads.Support.TransitionSystem

/-!
# Threads that write, wait and observe

`sync_shared_value` step by step.  A writer holds the lock from its first look
at the value until it returns or throws; the version is incremented inside the
section and can be read without the lock.  A thread may observe the value at
any time between its other calls: it reads the version, loads the value, loads
it again and reads the version again.

What a thread has seen is recorded for it and is not part of the program.
-/

namespace Ethreads
namespace SharedValue

/-- Where a thread stands in a writer or in `wait_for_change`. -/
inductive Pc
  | idle
  | incrementing
  | notifying
  | leaving
  | testing (sinceVersion : ℕ)
  | blocked (sinceVersion : ℕ) (notified : Bool)
  deriving DecidableEq, Repr

/-- What a thread has seen: `v = version()`, `x = load()`, `y = load()` and
`w = version()`. -/
inductive Seen (α : Type*)
  | nothing
  | version (v : ℕ)
  | loaded (v : ℕ) (x : α)
  | reloaded (v : ℕ) (x y : α)
  | compared (v : ℕ) (x y : α) (w : ℕ)
  deriving DecidableEq, Repr

def Seen.loads {α : Type*} : Seen α → Bool
  | version _ | loaded _ _ => true
  | _ => false

def Seen.load {α : Type*} (value : α) : Seen α → Seen α
  | version v => loaded v value
  | loaded v x => reloaded v x value
  | o => o

def Pc.inside : Pc → Bool
  | incrementing | notifying | leaving => true
  | _ => false

def Pc.notify : Pc → Pc
  | blocked sinceVersion _ => blocked sinceVersion true
  | p => p

structure Shared (τ α : Type*) where
  contents : Contents α
  mutex : Option τ
  pc : τ → Pc
  seen : τ → Seen α

namespace Shared

variable {τ α ρ : Type*}

def initialState (value : α) (τ : Type*) : Shared τ α where
  contents := initial value
  mutex := none
  pc := fun _ => .idle
  seen := fun _ => .nothing

inductive Action (τ α ρ : Type*)
  | write (t : τ) (w : Writer α ρ)
  | increment (t : τ)
  | notifyAll (t : τ)
  | leave (t : τ)
  | callWait (t : τ) (sinceVersion : ℕ)
  | waitReturns (t : τ) (sinceVersion : ℕ)
  | block (t : τ) (sinceVersion : ℕ)
  | wake (t : τ) (sinceVersion : ℕ) (notified : Bool)
  | readVersion (t : τ)
  | load (t : τ)
  | compare (t : τ) (v : ℕ) (x y : α)

def Enabled (s : Shared τ α) : Action τ α ρ → Prop
  | .write t _ => s.pc t = .idle ∧ s.mutex = none
  | .increment t => s.pc t = .incrementing
  | .notifyAll t => s.pc t = .notifying
  | .leave t => s.pc t = .leaving
  | .callWait t _ => s.pc t = .idle
  | .waitReturns t v =>
      s.pc t = .testing v ∧ s.mutex = none ∧
        (s.contents.waitForChange v).isSome = true
  | .block t v =>
      s.pc t = .testing v ∧ s.mutex = none ∧
        (s.contents.waitForChange v).isSome = false
  | .wake t v notified => s.pc t = .blocked v notified
  | .readVersion t => s.pc t = .idle
  | .load t =>
      s.pc t = .idle ∧ s.mutex = none ∧ (s.seen t).loads = true
  | .compare t v x y => s.pc t = .idle ∧ s.seen t = .reloaded v x y

/-- Where a section goes on when it is done with the value. -/
def afterValue (increments : Bool) : Pc :=
  if increments then .incrementing else .leaving

variable [DecidableEq τ]

instance [DecidableEq α] (s : Shared τ α) (a : Action τ α ρ) :
    Decidable (Enabled s a) := by
  cases a <;> dsimp only [Enabled] <;> infer_instance

def goto (s : Shared τ α) (t : τ) (q : Pc) : Shared τ α :=
  { s with pc := Function.update s.pc t q }

omit [DecidableEq τ] in
def notifyAll (s : Shared τ α) : Shared τ α :=
  { s with pc := fun u => (s.pc u).notify }

def observe (s : Shared τ α) (t : τ) (o : Seen α) : Shared τ α :=
  { s with seen := Function.update s.seen t o }

def next (T : ValueType α) (s : Shared τ α) : Action τ α ρ → Shared τ α
  | .write t w =>
      let r := w.run T s.contents.value
      { s.goto t (afterValue r.increments) with
        mutex := some t
        contents := { s.contents with value := r.value } }
  | .increment t =>
      { s.goto t .notifying with
        contents := { s.contents with version := s.contents.version + 1 } }
  | .notifyAll t => s.notifyAll.goto t .leaving
  | .leave t => { s.goto t .idle with mutex := none }
  | .callWait t v => s.goto t (.testing v)
  | .waitReturns t _ => s.goto t .idle
  | .block t v => s.goto t (.blocked v false)
  | .wake t v _ => s.goto t (.testing v)
  | .readVersion t => s.observe t (.version s.contents.version)
  | .load t => s.observe t ((s.seen t).load s.contents.value)
  | .compare t v x y => s.observe t (.compared v x y s.contents.version)

def system (ρ : Type*) (T : ValueType α) (value : α) (τ : Type*)
    [DecidableEq τ] : TransitionSystem (Shared τ α) (Action τ α ρ) where
  Initial s := s = initialState value τ
  Enabled := Enabled
  next := next T

instance [DecidableEq α] (T : ValueType α) (value : α) (s : Shared τ α)
    (a : Action τ α ρ) : Decidable ((system ρ T value τ).Enabled s a) :=
  inferInstanceAs (Decidable (Enabled s a))

end Shared
end SharedValue
end Ethreads
