import Ethreads.Support.TransitionSystem
import Mathlib.Data.Fintype.Basic
import Mathlib.Data.Fintype.Quotient

/-!
# The list of suspended coroutines

This module models `waiter_node` and `async_primitive_base` of
`include/shared_state/crtp_base.hpp`: `add_waiter`, `wake_one` and `wake_all`.
The functions of `async_channel` that work on `send_waiters_` have the same
bodies and are further instances of it.

Every load, every write to `next` and every compare-exchange is a step of its
own, and a weak compare-exchange may fail spuriously.  A node always carries
the handle of its coroutine when it is added.

The field `place` is not part of the program.  It records where each node is
on its way from `add_waiter` to the resumption of its coroutine.
-/

namespace Ethreads
namespace AsyncPrimitive

inductive Place (τ : Type*)
  | outside
  | adding (t : τ)
  | listed
  | taken (t : τ)
  | scheduled
  deriving DecidableEq, Repr

/-- Where a thread stands in `add_waiter`, `wake_one` or `wake_all`. -/
inductive Pc (ν : Type*)
  | idle
  | addLoad (node : ν)
  | addLink (node : ν) (oldHead : Option ν)
  | addCas (node : ν) (oldHead : Option ν)
  | wakeLoad
  | wakeNext (head : ν)
  | wakeCas (head : ν) (next : Option ν)
  | exchange
  | walkNext (head : ν)
  | deliver (head : ν) (rest : Option ν)
  deriving DecidableEq, Repr

/-- The list head, the `next` pointers, the gates that have fired and the
handles passed to `schedule_coro_handle` that have not run yet. -/
structure State (τ ν γ : Type*) where
  waiters : Option ν
  next : ν → Option ν
  fired : γ → Bool
  pc : τ → Pc ν
  scheduled : List ν
  place : ν → Place τ

def initialState (τ ν γ : Type*) : State τ ν γ where
  waiters := none
  next := fun _ => none
  fired := fun _ => false
  pc := fun _ => .idle
  scheduled := []
  place := fun _ => .outside

variable {τ ν γ : Type*}

def State.hasWaiters (s : State τ ν γ) : Bool :=
  s.waiters.isSome

/-- The loop of `wake_one` with the head it has read. -/
def wakeWith : Option ν → Pc ν
  | none => .idle
  | some head => .wakeNext head

/-- The loop of `wake_all` with the rest of its chain. -/
def walkWith : Option ν → Pc ν
  | none => .idle
  | some head => .walkNext head

/-- The atomic steps.  A coroutine that is `resumed` leaves the list's
care, and `fire` is the step with which another owner of a gate sets it. -/
inductive Action (τ ν γ : Type*)
  | callAdd (t : τ) (node : ν)
  | callWakeOne (t : τ)
  | callWakeAll (t : τ)
  | addLoad (t : τ) (node : ν)
  | addLink (t : τ) (node : ν) (oldHead : Option ν)
  | addCas (t : τ) (node : ν) (oldHead : Option ν)
  | addCasFails (t : τ) (node : ν) (oldHead : Option ν)
  | wakeLoad (t : τ)
  | wakeNext (t : τ) (head : ν)
  | wakeCas (t : τ) (head : ν) (next : Option ν)
  | wakeCasFails (t : τ) (head : ν) (next : Option ν)
  | exchange (t : τ)
  | walkNext (t : τ) (head : ν)
  | schedule (t : τ) (head : ν) (rest : Option ν)
  | skip (t : τ) (head : ν) (rest : Option ν) (g : γ)
  | fire (g : γ)
  | resume (node : ν)
  deriving DecidableEq, Repr

/-- The thread that makes a step inside one of the three functions. -/
def Action.runner : Action τ ν γ → Option τ
  | addLoad t _ | addLink t _ _ | addCas t _ _ | addCasFails t _ _
  | wakeLoad t | wakeNext t _ | wakeCas t _ _ | wakeCasFails t _ _
  | exchange t | walkNext t _ | schedule t _ _ | skip t _ _ _ => some t
  | callAdd _ _ | callWakeOne _ | callWakeAll _ | fire _ | resume _ => none

/-- When a step may be taken, for nodes with the given gates. -/
def Enabled (gate : ν → Option γ) (s : State τ ν γ) : Action τ ν γ → Prop
  | .callAdd t _ => s.pc t = .idle
  | .callWakeOne t => s.pc t = .idle
  | .callWakeAll t => s.pc t = .idle
  | .addLoad t n => s.pc t = .addLoad n
  | .addLink t n o => s.pc t = .addLink n o
  | .addCas t n o => s.pc t = .addCas n o ∧ s.waiters = o
  | .addCasFails t n o => s.pc t = .addCas n o
  | .wakeLoad t => s.pc t = .wakeLoad
  | .wakeNext t h => s.pc t = .wakeNext h
  | .wakeCas t h o => s.pc t = .wakeCas h o ∧ s.waiters = some h
  | .wakeCasFails t h o => s.pc t = .wakeCas h o
  | .exchange t => s.pc t = .exchange
  | .walkNext t h => s.pc t = .walkNext h
  | .schedule t h r =>
      s.pc t = .deliver h r ∧ (gate h).all (fun g => !s.fired g) = true
  | .skip t h r g =>
      s.pc t = .deliver h r ∧ gate h = some g ∧ s.fired g = true
  | .fire g => s.fired g = false
  | .resume n => n ∈ s.scheduled

variable [DecidableEq τ] [DecidableEq ν] [DecidableEq γ]

instance (gate : ν → Option γ) (s : State τ ν γ) (a : Action τ ν γ) :
    Decidable (Enabled gate s a) := by
  cases a <;> dsimp only [Enabled] <;> infer_instance

def State.goto (s : State τ ν γ) (t : τ) (q : Pc ν) : State τ ν γ :=
  { s with pc := Function.update s.pc t q }

def State.move (s : State τ ν γ) (n : ν) (p : Place τ) : State τ ν γ :=
  { s with place := Function.update s.place n p }

/-- All listed nodes move into the hands of `t`. -/
def Place.takeListed (t : τ) : Place τ → Place τ
  | listed => taken t
  | p => p

/-- The gates after the coroutine of a node was scheduled. -/
def State.firedBy (s : State τ ν γ) : Option γ → γ → Bool
  | none => s.fired
  | some g => Function.update s.fired g true

def next (gate : ν → Option γ) (s : State τ ν γ) :
    Action τ ν γ → State τ ν γ
  | .callAdd t n => (s.goto t (.addLoad n)).move n (.adding t)
  | .callWakeOne t => s.goto t .wakeLoad
  | .callWakeAll t => s.goto t .exchange
  | .addLoad t n => s.goto t (.addLink n s.waiters)
  | .addLink t n o =>
      { s.goto t (.addCas n o) with next := Function.update s.next n o }
  | .addCas t n _ => { (s.goto t .idle).move n .listed with waiters := some n }
  | .addCasFails t n _ => s.goto t (.addLink n s.waiters)
  | .wakeLoad t => s.goto t (wakeWith s.waiters)
  | .wakeNext t h => s.goto t (.wakeCas h (s.next h))
  | .wakeCas t h o =>
      { (s.goto t (.deliver h none)).move h (.taken t) with waiters := o }
  | .wakeCasFails t _ _ => s.goto t (wakeWith s.waiters)
  | .exchange t =>
      { s.goto t (walkWith s.waiters) with
        waiters := none
        place := fun n => (s.place n).takeListed t }
  | .walkNext t h => s.goto t (.deliver h (s.next h))
  | .schedule t h r =>
      { (s.goto t (walkWith r)).move h .scheduled with
        fired := s.firedBy (gate h)
        scheduled := s.scheduled ++ [h] }
  | .skip t h r _ => (s.goto t (walkWith r)).move h .outside
  | .fire g => { s with fired := Function.update s.fired g true }
  | .resume n =>
      { s.move n .outside with scheduled := s.scheduled.erase n }

def system (gate : ν → Option γ) (τ : Type*) [DecidableEq τ] :
    TransitionSystem (State τ ν γ) (Action τ ν γ) where
  Initial s := s = initialState τ ν γ
  Enabled := Enabled gate
  next := next gate

instance (gate : ν → Option γ) (s : State τ ν γ) (a : Action τ ν γ) :
    Decidable ((system gate τ).Enabled s a) :=
  inferInstanceAs (Decidable (Enabled gate s a))

theorem exists_pc_next_of_runner (gate : ν → Option γ) {s : State τ ν γ}
    {a : Action τ ν γ} {t : τ} (ha : a.runner = some t) :
    ∃ q, (next gate s a).pc = Function.update s.pc t q := by
  cases a with
  | callAdd t n => cases ha
  | callWakeOne t => cases ha
  | callWakeAll t => cases ha
  | fire g => cases ha
  | resume n => cases ha
  | _ => cases ha; exact ⟨_, rfl⟩

omit [DecidableEq τ] [DecidableEq ν] [DecidableEq γ] in
theorem pc_ne_idle_of_runner {gate : ν → Option γ} {s : State τ ν γ}
    {a : Action τ ν γ} {t : τ} (ha : a.runner = some t)
    (he : Enabled gate s a) : s.pc t ≠ .idle := by
  intro hidle
  cases a with
  | callAdd u n => cases ha
  | callWakeOne u => cases ha
  | callWakeAll u => cases ha
  | fire g => cases ha
  | resume n => cases ha
  | addCas u n o => cases ha; cases hidle.symm.trans he.1
  | wakeCas u h o => cases ha; cases hidle.symm.trans he.1
  | schedule u h r => cases ha; cases hidle.symm.trans he.1
  | skip u h r g => cases ha; cases hidle.symm.trans he.1
  | _ => cases ha; cases hidle.symm.trans he

/-- A thread about to take all waiters out of the list does so next. -/
theorem waiters_eq_none_of_exchange {gate : ν → Option γ} {s : State τ ν γ}
    {a : Action τ ν γ} {t : τ} (ha : a.runner = some t)
    (he : Enabled gate s a) (hpc : s.pc t = .exchange) :
    (next gate s a).waiters = none := by
  cases a with
  | callAdd u n => cases ha
  | callWakeOne u => cases ha
  | callWakeAll u => cases ha
  | fire g => cases ha
  | resume n => cases ha
  | exchange u => rfl
  | addCas u n o => cases ha; cases hpc.symm.trans he.1
  | wakeCas u h o => cases ha; cases hpc.symm.trans he.1
  | schedule u h r => cases ha; cases hpc.symm.trans he.1
  | skip u h r g => cases ha; cases hpc.symm.trans he.1
  | _ => cases ha; cases hpc.symm.trans he

/-- Only `add_waiter` puts somebody into an empty list. -/
theorem waiters_ne_none_of_next {gate : ν → Option γ} {s : State τ ν γ}
    {a : Action τ ν γ} (ha : Enabled gate s a)
    (h : (next gate s a).waiters ≠ none) :
    s.waiters ≠ none ∨ ∃ t n o, a = .addCas t n o := by
  cases a with
  | addCas t n o => exact Or.inr ⟨t, n, o, rfl⟩
  | wakeCas t head o =>
      refine Or.inl ?_
      rw [ha.2]
      simp
  | exchange t => exact absurd rfl h
  | _ => exact Or.inl h

/-- The steps inside the three functions only add to the scheduled
handles. -/
theorem length_scheduled_le {gate : ν → Option γ} {s : State τ ν γ}
    {a : Action τ ν γ} {t : τ} (ha : a.runner = some t) :
    s.scheduled.length ≤ (next gate s a).scheduled.length := by
  cases a with
  | resume n => cases ha
  | schedule u h r => simp [next]
  | _ => exact le_rfl

/-- A function that returns while somebody is in the list has added or
scheduled a coroutine with its last step. -/
theorem added_or_scheduled {gate : ν → Option γ} {s : State τ ν γ}
    {a : Action τ ν γ} {t : τ} (ha : a.runner = some t)
    (hidle : (next gate s a).pc t = .idle)
    (hne : (next gate s a).waiters ≠ none) :
    (∃ n o, a = .addCas t n o) ∨ (∃ h r g, a = .skip t h r g) ∨
      (next gate s a).scheduled.length = s.scheduled.length + 1 := by
  have hself : ∀ {q : Pc ν}, Function.update s.pc t q t = .idle →
      q = .idle := by
    intro q hq
    rwa [Function.update_self] at hq
  have hwake : wakeWith s.waiters = .idle → s.waiters = none := by
    intro hw
    cases hs : s.waiters with
    | none => rfl
    | some n => rw [hs] at hw; cases hw
  cases a with
  | callAdd u n => cases ha
  | callWakeOne u => cases ha
  | callWakeAll u => cases ha
  | fire g => cases ha
  | resume n => cases ha
  | addCas u n o => cases ha; exact Or.inl ⟨n, o, rfl⟩
  | skip u h r g => cases ha; exact Or.inr (Or.inl ⟨h, r, g, rfl⟩)
  | schedule u h r => exact Or.inr (Or.inr (by simp [next]))
  | exchange u => exact absurd rfl hne
  | wakeLoad u => cases ha; exact absurd (hwake (hself hidle)) hne
  | wakeCasFails u h o => cases ha; exact absurd (hwake (hself hidle)) hne
  | _ => cases ha; cases hself hidle

/-- Nodes without a gate, as the awaiters without a time-out use them. -/
def ungated : ν → Option Empty :=
  fun _ => none

end AsyncPrimitive
end Ethreads
