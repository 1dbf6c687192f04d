import Ethreads.CoroTask.Completion
import Ethreads.WhenAll.Model

/-!
# The parties of one task

What the loops and others may do with a task fixes who can consume its result,
and where the party that starts it can stand.
-/

namespace Ethreads
namespace CoroTask

/-- The caller does not call anything but `start`. -/
def Pc.starts {T E : Type*} : Pc T E → Bool
  | idle | started => true
  | casStarted p | checkDone p | schedule p => decide (p = .start)
  | _ => false

end CoroTask

namespace WhenAll

open CoroTask (Completion Handle)

variable {υ T E R : Type*} {noop : BitVec 64}

/-- What holds of a task whose body ends with `c`. -/
structure Used (c : Completion T E) (s : CoroTask.State (Party υ) T E) :
    Prop where
  completion : ∀ d, s.completion = some d → d = c
  destructor : s.destructor = .idle
  starter : (s.pc .starter).starts = true
  consumer : s.consumer = none ∧ s.pc .consumer = .idle ∨
    s.consumer = some .consumer

/-- `start` goes on to the end of `start`. -/
theorem starts_afterStart {p : CoroTask.Purpose}
    (hp : decide (p = .start) = true) :
    (CoroTask.afterStart p : CoroTask.Pc T E).starts = true := by
  rw [of_decide_eq_true hp]
  rfl

variable [DecidableEq υ]

/-- The party that calls `start` does nothing else. -/
theorem starts_of_caller {h : Handle noop} {c : Completion T E}
    {s : CoroTask.State (Party υ) T E} {a : CoroTask.Action (Party υ) T E}
    (hoff : CoroTask.HandedOff (fun _ => h) s)
    (hstarts : (s.pc .starter).starts = true)
    (ha : CoroTask.Enabled (fun _ => h) s a) (hallowed : Allowed c a)
    (hcaller : a.caller = some .starter) :
    ((CoroTask.next (fun _ => h) s a).pc .starter).starts = true := by
  have hset : ∀ q : CoroTask.Pc T E,
      (CoroTask.next (fun _ => h) s a).pc =
        Function.update s.pc .starter q → q.starts = true →
          ((CoroTask.next (fun _ => h) s a).pc .starter).starts = true := by
    intro q hpc hq
    rwa [hpc, Function.update_self]
  have hno : ∀ p : CoroTask.Pc T E, s.pc .starter = p → p.starts ≠ false := by
    intro p hp hnot
    rw [hp, hnot] at hstarts
    cases hstarts
  cases a <;> cases hcaller
  case callIsReady => exact absurd rfl hallowed.1
  case callStart => exact hset _ rfl rfl
  case callGet => cases hallowed
  case coAwait => cases hallowed
  case startFirst p =>
      rw [ha.1] at hstarts
      exact hset _ rfl hstarts
  case startAgain p =>
      rw [ha.1] at hstarts
      exact hset _ rfl (starts_afterStart hstarts)
  case notDone p =>
      rw [ha.1] at hstarts
      exact hset _ rfl hstarts
  case isDone p =>
      rw [ha.1] at hstarts
      exact hset _ rfl (starts_afterStart hstarts)
  case schedule p =>
      rw [show s.pc .starter = .schedule p from ha] at hstarts
      exact hset _ rfl (starts_afterStart hstarts)
  case transferTo d =>
      exact absurd rfl (hno _ (hoff.suspended_of_transferTo ha))
  all_goals
    first
    | exact absurd rfl (hno _ ha)
    | exact absurd rfl (hno _ ha.1)

theorem starts_next {h : Handle noop} {c : Completion T E}
    {s : CoroTask.State (Party υ) T E} {a : CoroTask.Action (Party υ) T E}
    (hoff : CoroTask.HandedOff (fun _ => h) s)
    (hstarts : (s.pc .starter).starts = true)
    (ha : CoroTask.Enabled (fun _ => h) s a) (hallowed : Allowed c a) :
    ((CoroTask.next (fun _ => h) s a).pc .starter).starts = true := by
  by_cases hcaller : a.caller = some .starter
  · exact starts_of_caller hoff hstarts ha hallowed hcaller
  · have hstay : (CoroTask.next (fun _ => h) s a).pc .starter =
        s.pc .starter ∨ ∃ b, s.pc .starter = .waiting b ∧
          (CoroTask.next (fun _ => h) s a).pc .starter = .notified b :=
      CoroTask.next_pc_of_ne hcaller
    rcases hstay with hpc | ⟨b, hold, -⟩
    · rw [hpc]
      exact hstarts
    · rw [hold] at hstarts
      cases hstarts

omit [DecidableEq υ] in
/-- The consumer comes to no other call than the one that consumes. -/
theorem caller_ne_of_idle {h : Handle noop} {c : Completion T E}
    {s : CoroTask.State (Party υ) T E} {a : CoroTask.Action (Party υ) T E}
    (hoff : CoroTask.HandedOff (fun _ => h) s)
    (hidle : s.pc .consumer = .idle)
    (ha : CoroTask.Enabled (fun _ => h) s a) (hallowed : Allowed c a)
    (hget : a ≠ .callGet .consumer) (hawait : a ≠ .coAwait .consumer) :
    a.caller ≠ some .consumer := by
  intro hcaller
  cases a <;> cases hcaller
  case callIsReady => exact hallowed.2 rfl
  case callStart => exact hallowed rfl
  case callGet => exact hget rfl
  case coAwait => exact hawait rfl
  case transferTo d =>
      cases hidle.symm.trans (hoff.suspended_of_transferTo ha)
  all_goals
    first
    | cases hidle.symm.trans ha
    | cases hidle.symm.trans ha.1

theorem consumer_next {h : Handle noop} {c : Completion T E}
    {s : CoroTask.State (Party υ) T E} {a : CoroTask.Action (Party υ) T E}
    (hoff : CoroTask.HandedOff (fun _ => h) s)
    (hconsumer : s.consumer = none ∧ s.pc .consumer = .idle ∨
      s.consumer = some .consumer)
    (ha : CoroTask.Enabled (fun _ => h) s a) (hallowed : Allowed c a) :
    (CoroTask.next (fun _ => h) s a).consumer = none ∧
        (CoroTask.next (fun _ => h) s a).pc .consumer = .idle ∨
      (CoroTask.next (fun _ => h) s a).consumer = some .consumer := by
  by_cases hget : a = .callGet .consumer
  · subst hget
    exact Or.inr rfl
  by_cases hawait : a = .coAwait .consumer
  · subst hawait
    exact Or.inr rfl
  have hsame : (CoroTask.next (fun _ => h) s a).consumer = s.consumer := by
    cases a with
    | callGet p =>
        cases (show p = .consumer from hallowed)
        exact absurd rfl hget
    | coAwait p =>
        cases (show p = .consumer from hallowed)
        exact absurd rfl hawait
    | _ => rfl
  rcases hconsumer with ⟨hnone, hidle⟩ | hsome
  · have hcaller := caller_ne_of_idle hoff hidle ha hallowed hget hawait
    refine Or.inl ⟨hsame.trans hnone, ?_⟩
    have hstay : (CoroTask.next (fun _ => h) s a).pc .consumer =
        s.pc .consumer ∨ ∃ b, s.pc .consumer = .waiting b ∧
          (CoroTask.next (fun _ => h) s a).pc .consumer = .notified b :=
      CoroTask.next_pc_of_ne hcaller
    rcases hstay with hpc | ⟨b, hold, -⟩
    · exact hpc.trans hidle
    · cases hidle.symm.trans hold
  · exact Or.inr (hsame.trans hsome)

theorem used_next {h : Handle noop} {c : Completion T E}
    {s : CoroTask.State (Party υ) T E} {a : CoroTask.Action (Party υ) T E}
    (hoff : CoroTask.HandedOff (fun _ => h) s) (hused : Used c s)
    (ha : CoroTask.Enabled (fun _ => h) s a) (hallowed : Allowed c a) :
    Used c (CoroTask.next (fun _ => h) s a) where
  completion := by
    intro d hd
    cases a with
    | complete e =>
        cases hd
        exact hallowed
    | _ => exact hused.completion d hd
  destructor := by
    have hidle := hused.destructor
    cases a with
    | destruct => exact hallowed.elim
    | foundUnstarted => cases hidle.symm.trans ha.1
    | foundStarted => cases hidle.symm.trans ha.1
    | foundFinal => cases hidle.symm.trans ha.1
    | destroy => cases hidle.symm.trans ha
    | _ => exact hidle
  starter := starts_next hoff hused.starter ha hallowed
  consumer := consumer_next hoff hused.consumer ha hallowed

theorem used_reachableWhere {h : Handle noop} {c : Completion T E}
    {s : CoroTask.State (Party υ) T E}
    (hs : (CoroTask.system T E fun _ => h).ReachableWhere
      (fun _ a => Allowed c a) s) : Used c s := by
  refine hs.invariant_of (Used c)
    (fun s hs => CoroTask.handedOff_reachable hs.reachable) ?_
    fun s a hoff h ha hallowed => used_next hoff h ha hallowed
  rintro s rfl
  exact ⟨nofun, rfl, rfl, Or.inl ⟨rfl, rfl⟩⟩

end WhenAll
end Ethreads
