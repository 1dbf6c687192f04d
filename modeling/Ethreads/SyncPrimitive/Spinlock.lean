import Ethreads.Support.Linearizability
import Ethreads.Support.Mutex

/-!
# The spinlock

This module models `spinlock` of `include/shared_state/policies.hpp`, the mutex
of `spinlock_policy`.  Every `test_and_set`, `test` and `clear` of `flag_` is
one step, and a thread in `lock` may spin for any number of steps.  As with
every mutex, `unlock` is called by a thread that holds the lock.

The field `owner` is not part of the program: it records whose `test_and_set`
found the flag clear.
-/

namespace Ethreads
namespace Spinlock

open SequentialObject (HistoryEvent Status AtomicState standing moves_hidden
  moves_call moves_perform moves_ret)

inductive Op
  | lock
  | tryLock
  | unlock
  deriving DecidableEq, Repr

/-- How a call ends: it returns nothing or a `bool`. -/
inductive Outcome
  | returned
  | flag (locked : Bool)
  deriving DecidableEq, Repr

/-- Where a thread stands; the flag says whether it holds the lock.  At `spin`
it is in the inner loop of `lock`. -/
inductive Pc
  | idle (holds : Bool)
  | testAndSet (holds : Bool)
  | spin (holds : Bool)
  | tryTestAndSet (holds : Bool)
  | clear
  | return (op : Op) (out : Outcome) (holds : Bool)
  deriving DecidableEq, Repr

def Pc.holds : Pc → Bool
  | idle b | testAndSet b | spin b | tryTestAndSet b | .return _ _ b => b
  | clear => true

structure State (τ : Type*) where
  flag : Bool
  pc : τ → Pc
  owner : Option τ

def initialState (τ : Type*) : State τ where
  flag := false
  pc := fun _ => .idle false
  owner := none

variable {τ : Type*}

def afterCall : Op → Bool → Pc
  | .lock, b => .testAndSet b
  | .tryLock, b => .tryTestAndSet b
  | .unlock, _ => .clear

inductive Action (τ : Type*)
  | call (t : τ) (op : Op) (holds : Bool)
  | testAndSetClear (t : τ) (holds : Bool)
  | testAndSetSet (t : τ) (holds : Bool)
  | testSet (t : τ) (holds : Bool)
  | testClear (t : τ) (holds : Bool)
  | trySucceeds (t : τ) (holds : Bool)
  | tryFails (t : τ) (holds : Bool)
  | clear (t : τ)
  | ret (t : τ) (op : Op) (out : Outcome) (holds : Bool)
  deriving DecidableEq, Repr

def Enabled (s : State τ) : Action τ → Prop
  | .call t op b => s.pc t = .idle b ∧ (op = .unlock → b = true)
  | .testAndSetClear t b => s.pc t = .testAndSet b ∧ s.flag = false
  | .testAndSetSet t b => s.pc t = .testAndSet b ∧ s.flag = true
  | .testSet t b => s.pc t = .spin b ∧ s.flag = true
  | .testClear t b => s.pc t = .spin b ∧ s.flag = false
  | .trySucceeds t b => s.pc t = .tryTestAndSet b ∧ s.flag = false
  | .tryFails t b => s.pc t = .tryTestAndSet b ∧ s.flag = true
  | .clear t => s.pc t = .clear
  | .ret t op out b => s.pc t = .return op out b

variable [DecidableEq τ]

instance (s : State τ) (a : Action τ) : Decidable (Enabled s a) := by
  cases a <;> dsimp only [Enabled] <;> infer_instance

def State.goto (s : State τ) (t : τ) (q : Pc) : State τ :=
  { s with pc := Function.update s.pc t q }

def next (s : State τ) : Action τ → State τ
  | .call t op b => s.goto t (afterCall op b)
  | .testAndSetClear t _ =>
      { s.goto t (.return .lock .returned true) with
        flag := true, owner := some t }
  | .testAndSetSet t b => s.goto t (.spin b)
  | .testSet t b => s.goto t (.spin b)
  | .testClear t b => s.goto t (.testAndSet b)
  | .trySucceeds t _ =>
      { s.goto t (.return .tryLock (.flag true) true) with
        flag := true, owner := some t }
  | .tryFails t b => s.goto t (.return .tryLock (.flag false) b)
  | .clear t =>
      { s.goto t (.return .unlock .returned false) with
        flag := false, owner := none }
  | .ret t _ _ b => s.goto t (.idle b)

def system (τ : Type*) [DecidableEq τ] :
    TransitionSystem (State τ) (Action τ) where
  Initial s := s = initialState τ
  Enabled := Enabled
  next := next

instance (s : State τ) (a : Action τ) : Decidable ((system τ).Enabled s a) :=
  inferInstanceAs (Decidable (Enabled s a))

/-! ## Mutual exclusion -/

/-- The flag is set as long as a thread holds the lock, and only one does. -/
structure Exclusive (s : State τ) : Prop where
  guards : Guards Pc.holds s.owner s.pc
  flag : s.flag = s.owner.isSome

omit [DecidableEq τ] in
theorem Exclusive.free {s : State τ} (h : Exclusive s)
    (hflag : s.flag = false) : s.owner = none := by
  apply Option.isNone_iff_eq_none.mp
  rw [← Option.not_isSome, ← h.flag, hflag]
  rfl

omit [DecidableEq τ] in
theorem Exclusive.taken {s : State τ} (h : Exclusive s)
    (hflag : s.flag = true) : ∃ u, s.owner = some u := by
  apply Option.isSome_iff_exists.mp
  rw [← h.flag, hflag]

theorem exclusive_next {s : State τ} {a : Action τ} (h : Exclusive s)
    (ha : Enabled s a) : Exclusive (next s a) := by
  cases a with
  | call t op b =>
      refine ⟨h.guards.stay ?_, h.flag⟩
      rw [ha.1]
      cases op with
      | unlock => exact (ha.2 rfl).symm
      | _ => rfl
  | testAndSetClear t b => exact ⟨h.guards.enter (h.free ha.2) rfl, rfl⟩
  | trySucceeds t b => exact ⟨h.guards.enter (h.free ha.2) rfl, rfl⟩
  | clear t =>
      have hpc : s.pc t = .clear := ha
      exact ⟨h.guards.leave (by rw [hpc]; rfl) rfl, rfl⟩
  | ret t op out b =>
      have hpc : s.pc t = .return op out b := ha
      exact ⟨h.guards.stay (by rw [hpc]; rfl), h.flag⟩
  | testSet t b => exact ⟨h.guards.stay (by rw [ha.1]), h.flag⟩
  | _ => exact ⟨h.guards.stay (by rw [ha.1]; rfl), h.flag⟩

/-- At most one thread holds the lock at a time. -/
theorem exclusive_reachable {s : State τ} (hs : (system τ).Reachable s) :
    Exclusive s := by
  refine hs.invariant Exclusive ?_ fun s a h ha => exclusive_next h ha
  rintro s rfl
  exact ⟨fun t => by simp [initialState, Pc.holds], rfl⟩

/-! ## The lock as a sequential object -/

/-- What an operation may return and what it leaves of the lock: nobody gets a
lock that is taken, and `try_lock` fails only if it is. -/
inductive LockStep : τ → Op → Option τ → Outcome → Option τ → Prop
  | lock (t : τ) : LockStep t .lock none .returned (some t)
  | succeed (t : τ) : LockStep t .tryLock none (.flag true) (some t)
  | fail (t u : τ) : LockStep t .tryLock (some u) (.flag false) (some u)
  | unlock (t : τ) : LockStep t .unlock (some t) .returned none

def lockObject (τ : Type*) : SequentialObject τ (Option τ) Op Outcome where
  Step := LockStep

def Action.visible : Action τ → Option (HistoryEvent τ Op Outcome)
  | .call t op _ => some (.call t op)
  | .ret t op out _ => some (.ret t op out)
  | _ => none

def Pc.status : Pc → Status Op Outcome
  | idle _ => .idle
  | testAndSet _ | spin _ => .called .lock
  | tryTestAndSet _ => .called .tryLock
  | clear => .called .unlock
  | .return op out _ => .performed op out

/-- The state of the atomic lock that a state of the spinlock stands for. -/
def reading (s : State τ) : AtomicState τ (Option τ) Op Outcome :=
  standing Pc.status s.owner s.pc

theorem status_afterCall (op : Op) (b : Bool) :
    (afterCall op b).status = .called op := by
  cases op <;> rfl

/-- The steps of the spinlock are steps of the atomic lock. -/
theorem readsAs_lock (τ : Type*) [DecidableEq τ] :
    SequentialObject.ReadsAs (system τ) (fun _ => Action.visible) (lockObject τ)
      none reading where
  initial := by
    rintro s rfl
    rfl
  step s a hs ha := by
    have hexclusive := exclusive_reachable hs
    cases a with
    | call t op b => exact moves_call ha.1 rfl rfl (status_afterCall op b)
    | testAndSetClear t b =>
        have hstep : LockStep t .lock s.owner .returned (some t) := by
          rw [hexclusive.free ha.2]
          exact .lock t
        exact moves_perform ha.1 rfl rfl rfl hstep
    | testAndSetSet t b => exact moves_hidden ha.1 rfl rfl
    | testSet t b => exact moves_hidden ha.1 rfl rfl
    | testClear t b => exact moves_hidden ha.1 rfl rfl
    | trySucceeds t b =>
        have hstep : LockStep t .tryLock s.owner (.flag true) (some t) := by
          rw [hexclusive.free ha.2]
          exact .succeed t
        exact moves_perform ha.1 rfl rfl rfl hstep
    | tryFails t b =>
        obtain ⟨u, hu⟩ := hexclusive.taken ha.2
        have hstep : LockStep t .tryLock s.owner (.flag false) s.owner := by
          rw [hu]
          exact .fail t u
        exact moves_perform ha.1 rfl rfl rfl hstep
    | clear t =>
        have hpc : s.pc t = .clear := ha
        have howner : s.owner = some t := by
          apply (hexclusive.guards t).mp
          rw [hpc]
          rfl
        have hstep : LockStep t .unlock s.owner .returned none := by
          rw [howner]
          exact .unlock t
        exact moves_perform hpc rfl rfl rfl hstep
    | ret t op out b => exact moves_ret ha rfl rfl rfl

/-- The spinlock is a mutex: in every run of any number of threads, the calls
that have returned form a run of the sequential lock, in an order that
respects real time. -/
theorem linearizable_locks {l : List (Action τ)}
    (hl : (system τ).Executes (initialState τ) l) :
    (lockObject τ).Linearizable none (l.filterMap Action.visible) :=
  (readsAs_lock τ).linearizable rfl hl

/-- A thread spins until the lock is released, and a third one does not get
it. -/
def lockAfterSpin : List (Action (Fin 3)) :=
  [.call 0 .lock false, .testAndSetClear 0 false, .ret 0 .lock .returned true,
    .call 1 .lock false, .testAndSetSet 1 false, .testSet 1 false,
    .call 2 .tryLock false, .tryFails 2 false,
    .ret 2 .tryLock (.flag false) false, .call 0 .unlock true, .clear 0,
    .testClear 1 false, .testAndSetClear 1 false,
    .ret 0 .unlock .returned false, .ret 1 .lock .returned true]

theorem linearizable_lockAfterSpin :
    (lockObject (Fin 3)).Linearizable none
      (lockAfterSpin.filterMap Action.visible) :=
  linearizable_locks (by decide)

end Spinlock
end Ethreads
