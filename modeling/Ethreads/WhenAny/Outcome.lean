import Ethreads.WhenAll.Loops
import Ethreads.WhenAny.Model

/-!
# What `when_any` returns

No result is consumed before a task was found ready, and then only the one of
this task, so that its `co_await` takes the path that does not suspend.  The
index is the first one that was ready when the sweep began, or a smaller one
that has become ready since.
-/

namespace Ethreads
namespace CoroTask

/-- A `co_await` that has not suspended. -/
def Pc.prompt {T E : Type*} : Pc T E → Bool
  | idle | awaitReady => true
  | lockState b | testReady b | readResult b | unlockState b _
  | returned b _ => b
  | _ => false

end CoroTask

namespace WhenAny

open CoroTask (Completion Handle)
open WhenAll (Party Allowed Used)

variable {υ T E R : Type*} [DecidableEq υ] {noop : BitVec 64}
  {F : Combinator T R} {h : Handle noop} {L : List (Completion T E)}

/-- The loop that starts the tasks, and the tasks. -/
def loops (υ : Type*) [DecidableEq υ] (F : Combinator T R) (h : Handle noop)
    (L : List (Completion T E)) :
    WhenAll.Loops (system υ F h L) υ h L (Pc R E) where
  get := State.task
  rest := State.pc
  act := .task
  Allows pc i a := Allowed (L.get i) a ∧ AtIndex pc i a
  initial := by
    rintro s rfl i
    rfl
  enabled_act _ _ _ hb hallows := ⟨hb, hallows⟩
  get_act _ _ _ := rfl
  rest_act _ _ _ := rfl
  cases_enabled s a ha := by
    cases a with
    | task i b => exact Or.inr ⟨i, b, rfl, ha⟩
    | _ => exact Or.inl rfl
  start := .start
  nextStart := .nextStart
  allowed _ _ _ ha := ha.1
  allows pc i a ha := ⟨WhenAll.allowed_of_advances ha,
    by cases a <;> first | exact ha.elim | trivial⟩
  allows_start _ := ⟨nofun, rfl⟩
  enabled_nextStart _ _ hpc hstarted := ⟨hpc, hstarted⟩
  rest_nextStart _ _ := rfl

/-! ## A `co_await` of a ready task -/

/-- The consumer of a ready task goes on without suspending. -/
theorem prompt_of_caller {c : Completion T E}
    {s : CoroTask.State (Party υ) T E} {a : CoroTask.Action (Party υ) T E}
    (hoff : CoroTask.HandedOff (fun _ => h) s) (hready : s.ready = true)
    (hprompt : (s.pc .consumer).prompt = true)
    (ha : CoroTask.Enabled (fun _ => h) s a) (hallowed : Allowed c a)
    (hget : a ≠ .callGet .consumer) (hcaller : a.caller = some .consumer) :
    ((CoroTask.next (fun _ => h) s a).pc .consumer).prompt = true := by
  have hset : ∀ q : CoroTask.Pc T E,
      (CoroTask.next (fun _ => h) s a).pc =
        Function.update s.pc .consumer q → q.prompt = true →
          ((CoroTask.next (fun _ => h) s a).pc .consumer).prompt = true := by
    intro q hpc hq
    rwa [hpc, Function.update_self]
  have hno : ∀ p : CoroTask.Pc T E,
      s.pc .consumer = p → p.prompt ≠ false := by
    intro p hp hnot
    rw [hp, hnot] at hprompt
    cases hprompt
  cases a <;> cases hcaller
  case callIsReady => exact absurd rfl hallowed.2
  case callStart => exact absurd rfl hallowed
  case callGet => exact absurd rfl hget
  case coAwait => exact hset _ rfl rfl
  case awaitReadyTrue => exact hset _ rfl rfl
  case awaitReadyFalse => cases hready.symm.trans ha.2
  case lockState b =>
      rw [ha.1] at hprompt
      exact hset _ rfl hprompt
  case testTrue b =>
      rw [ha.1] at hprompt
      exact hset _ rfl hprompt
  case testFalse b => cases hready.symm.trans ha.2
  case readResult b =>
      rw [show s.pc .consumer = .readResult b from ha] at hprompt
      exact hset _ rfl hprompt
  case unlockState b r =>
      rw [show s.pc .consumer = .unlockState b r from ha] at hprompt
      exact hset _ rfl hprompt
  case transferTo d =>
      exact absurd rfl (hno _ (hoff.suspended_of_transferTo ha))
  all_goals
    first
    | exact absurd rfl (hno _ ha)
    | exact absurd rfl (hno _ ha.1)

theorem prompt_next {c : Completion T E}
    {s : CoroTask.State (Party υ) T E} {a : CoroTask.Action (Party υ) T E}
    (hoff : CoroTask.HandedOff (fun _ => h) s) (hready : s.ready = true)
    (hprompt : (s.pc .consumer).prompt = true)
    (ha : CoroTask.Enabled (fun _ => h) s a) (hallowed : Allowed c a)
    (hget : a ≠ .callGet .consumer) :
    ((CoroTask.next (fun _ => h) s a).pc .consumer).prompt = true := by
  by_cases hcaller : a.caller = some .consumer
  · exact prompt_of_caller hoff hready hprompt ha hallowed hget hcaller
  · have hstay : (CoroTask.next (fun _ => h) s a).pc .consumer =
        s.pc .consumer ∨ ∃ b, s.pc .consumer = .waiting b ∧
          (CoroTask.next (fun _ => h) s a).pc .consumer = .notified b :=
      CoroTask.next_pc_of_ne hcaller
    rcases hstay with hpc | ⟨b, hold, -⟩
    · rw [hpc]
      exact hprompt
    · rw [hold] at hprompt
      cases hprompt

/-- A result that nobody asks for stays where it is. -/
theorem consumer_eq_none {c : Completion T E}
    {s : CoroTask.State (Party υ) T E} {a : CoroTask.Action (Party υ) T E}
    (hnone : s.consumer = none) (hallowed : Allowed c a)
    (hget : a ≠ .callGet .consumer) (hawait : a ≠ .coAwait .consumer) :
    (CoroTask.next (fun _ => h) s a).consumer = none := by
  cases a with
  | callGet p =>
      cases (show p = .consumer from hallowed)
      exact absurd rfl hget
  | coAwait p =>
      cases (show p = .consumer from hallowed)
      exact absurd rfl hawait
  | _ => exact hnone

/-! ## The coroutine -/

/-- The sweep was left at task `i`, which is ready; no task before it was ready
when the sweep began, and no other result was asked for. -/
structure Won (s : State L.length υ T E R) (i : Fin L.length) : Prop where
  ready : (s.task i).ready = true
  first : ∀ j < i, s.atSweep j = false
  prompt : ((s.task i).pc .consumer).prompt = true
  others : ∀ j ≠ i, (s.task j).consumer = none

/-- Nobody has asked for a result yet. -/
def Unconsumed (s : State L.length υ T E R) : Prop :=
  ∀ j, (s.task j).consumer = none

/-- What the program point tells. -/
def Pc.Ok (F : Combinator T R) (L : List (Completion T E))
    (s : State L.length υ T E R) : Pc R E → Prop
  | .testEmpty => Unconsumed s
  | .start i => i ≤ L.length ∧ L ≠ [] ∧ Unconsumed s
  | .poll i => i ≤ L.length ∧ L ≠ [] ∧
      (∀ j : Fin L.length, j < i → s.atSweep j = false) ∧ Unconsumed s
  | .await i => ∃ k : Fin L.length, i = k ∧ Won s k
  | .yield | .scheduled => L ≠ [] ∧ Unconsumed s
  | .returned r =>
      L = [] ∧ r = .invalidArgument "when_any called with empty task list" ∨
        ∃ k : Fin L.length, r = F.settle k (L.get k) ∧ Won s k

/-- A task that was ready when the sweep began still is. -/
structure Swept (F : Combinator T R) (s : State L.length υ T E R) : Prop where
  ready : ∀ j, s.atSweep j = true → (s.task j).ready = true
  ok : s.pc.Ok F L s

omit [DecidableEq υ] in
theorem AtIndex.ne_callGet {pc : Pc R E} {i : ℕ}
    {a : CoroTask.Action (Party υ) T E} (h : AtIndex pc i a) :
    a ≠ .callGet .consumer := by
  rintro rfl
  exact h

omit [DecidableEq υ] in
/-- A result is asked for at one program point only. -/
theorem AtIndex.ne_coAwait {pc : Pc R E} {i : ℕ}
    {a : CoroTask.Action (Party υ) T E} (h : AtIndex pc i a)
    (hpc : pc ≠ .await i) : a ≠ .coAwait .consumer := by
  rintro rfl
  exact hpc h

theorem task_ready_next {s : State L.length υ T E R} {i j : Fin L.length}
    {a : CoroTask.Action (Party υ) T E} (hj : (s.task j).ready = true) :
    ((next F h s (.task i a)).task j).ready = true :=
  (loops υ F h L).keeps_act (I := fun t => t.ready = true) hj
    fun _ => CoroTask.next_ready hj

/-- A step of a task that does not ask for its result leaves all others
unconsumed. -/
theorem task_consumer_next {s : State L.length υ T E R} {i j : Fin L.length}
    {a : CoroTask.Action (Party υ) T E} (ha : Enabled h L s (.task i a))
    (hpc : s.pc ≠ .await j) (hj : (s.task j).consumer = none) :
    ((next F h s (.task i a)).task j).consumer = none := by
  refine (loops υ F h L).keeps_act (I := fun t => t.consumer = none) hj ?_
  rintro rfl
  exact consumer_eq_none hj ha.2.1 ha.2.2.ne_callGet (ha.2.2.ne_coAwait hpc)

theorem unconsumed_next {s : State L.length υ T E R} {i : Fin L.length}
    {a : CoroTask.Action (Party υ) T E} (ha : Enabled h L s (.task i a))
    (hpc : ∀ k, s.pc ≠ .await k) (hs : Unconsumed s) :
    Unconsumed (next F h s (.task i a)) :=
  fun j => task_consumer_next ha (hpc j) (hs j)

/-- The task that has won stays ready, and its `co_await` goes on. -/
theorem won_next {s : State L.length υ T E R} {i k : Fin L.length}
    {a : CoroTask.Action (Party υ) T E} (hs : (system υ F h L).Reachable s)
    (ha : Enabled h L s (.task i a)) (hpc : ∀ j ≠ k, s.pc ≠ .await j)
    (hwon : Won s k) : Won (next F h s (.task i a)) k where
  ready := task_ready_next hwon.ready
  first := hwon.first
  prompt := by
    refine (loops υ F h L).keeps_act
      (I := fun t => (t.pc .consumer).prompt = true) hwon.prompt ?_
    rintro rfl
    have htask := (loops υ F h L).reachable hs k
    exact prompt_next (CoroTask.handedOff_reachable htask) hwon.ready
      hwon.prompt ha.1 ha.2.1 ha.2.2.ne_callGet
  others j hj := task_consumer_next ha (hpc j hj) (hwon.others j hj)

/-- A step of a task keeps what the program point tells. -/
theorem ok_task {s : State L.length υ T E R} {i : Fin L.length}
    {a : CoroTask.Action (Party υ) T E} (hs : (system υ F h L).Reachable s)
    (hok : s.pc.Ok F L s) (ha : Enabled h L s (.task i a)) :
    s.pc.Ok F L (next F h s (.task i a)) := by
  cases hpc : s.pc with
  | testEmpty =>
      rw [hpc] at hok
      exact unconsumed_next ha (by simp [hpc]) hok
  | start n =>
      rw [hpc] at hok
      obtain ⟨hn, hne, hnone⟩ := hok
      exact ⟨hn, hne, unconsumed_next ha (by simp [hpc]) hnone⟩
  | poll n =>
      rw [hpc] at hok
      obtain ⟨hn, hne, hfirst, hnone⟩ := hok
      exact ⟨hn, hne, hfirst, unconsumed_next ha (by simp [hpc]) hnone⟩
  | await n =>
      rw [hpc] at hok
      obtain ⟨k, rfl, hwon⟩ := hok
      refine ⟨k, rfl, won_next hs ha ?_ hwon⟩
      intro j hj hawait
      have hkj : (k : ℕ) = j := Pc.await.inj (hpc.symm.trans hawait)
      exact hj (Fin.ext hkj.symm)
  | yield =>
      rw [hpc] at hok
      exact ⟨hok.1, unconsumed_next ha (by simp [hpc]) hok.2⟩
  | scheduled =>
      rw [hpc] at hok
      exact ⟨hok.1, unconsumed_next ha (by simp [hpc]) hok.2⟩
  | returned r =>
      rw [hpc] at hok
      refine hok.imp id ?_
      rintro ⟨k, hr, hwon⟩
      exact ⟨k, hr, won_next hs ha (by simp [hpc]) hwon⟩

/-- A consumer that has not asked for the result has not suspended. -/
theorem prompt_of_unconsumed {s : State L.length υ T E R}
    (hs : (system υ F h L).Reachable s) {j : Fin L.length}
    (hnone : (s.task j).consumer = none) :
    ((s.task j).pc .consumer).prompt = true := by
  have hused : Used (L.get j) (s.task j) := (loops υ F h L).used hs j
  rcases hused.consumer with ⟨-, hidle⟩ | hsome
  · rw [hidle]
    rfl
  · cases hnone.symm.trans hsome

/-- Each step keeps what the sweeps have found out. -/
theorem swept_next {s : State L.length υ T E R}
    {a : Action L.length υ T E} (hs : (system υ F h L).Reachable s)
    (hswept : Swept F s) (ha : Enabled h L s a) :
    Swept F (next F h s a) := by
  obtain ⟨hready, hok⟩ := hswept
  cases a with
  | task i b =>
      exact ⟨fun j hj => task_ready_next (hready j hj), ok_task hs hok ha⟩
  | throwEmpty =>
      exact ⟨hready, Or.inl ⟨List.length_eq_zero_iff.mp ha.2, rfl⟩⟩
  | notEmpty =>
      rw [ha.1] at hok
      exact ⟨hready, Nat.zero_le _, fun hL => ha.2 (hL ▸ rfl), hok⟩
  | nextStart i =>
      rw [ha.1] at hok
      exact ⟨hready, i.isLt, hok.2⟩
  | startsDone =>
      have hpc : s.pc = .start L.length := ha
      rw [hpc] at hok
      exact ⟨fun _ => id, Nat.zero_le _, hok.2.1, nofun, hok.2.2⟩
  | pollReady i =>
      rw [ha.1] at hok
      obtain ⟨-, -, hfirst, hnone⟩ := hok
      exact ⟨hready, i, rfl, ha.2, hfirst, prompt_of_unconsumed hs (hnone i),
        fun j _ => hnone j⟩
  | pollNotReady i =>
      rw [ha.1] at hok
      obtain ⟨-, hne, hfirst, hnone⟩ := hok
      refine ⟨hready, i.isLt, hne, fun j hj => ?_, hnone⟩
      rcases Nat.lt_succ_iff_lt_or_eq.mp hj with hlt | heq
      · exact hfirst j hlt
      · cases Fin.ext heq
        exact Bool.eq_false_iff.mpr fun hj => by
          cases (hready i hj).symm.trans ha.2
  | sweepDone =>
      have hpc : s.pc = .poll L.length := ha
      rw [hpc] at hok
      exact ⟨hready, hok.2.1, hok.2.2.2⟩
  | schedule =>
      have hpc : s.pc = .yield := ha
      rw [hpc] at hok
      exact ⟨hready, hok⟩
  | resume =>
      have hpc : s.pc = .scheduled := ha
      rw [hpc] at hok
      exact ⟨fun _ => id, Nat.zero_le _, hok.1, nofun, hok.2⟩
  | awaitDone i b c =>
      rw [ha.1] at hok
      obtain ⟨k, hk, hwon⟩ := hok
      cases Fin.ext hk
      have hc : some c = some (L.get i) :=
        (loops υ F h L).result_eq hs ha.2
      cases hc
      exact ⟨hready, Or.inr
        ⟨i, rfl, hwon.ready, hwon.first, hwon.prompt, hwon.others⟩⟩

theorem swept_reachable {s : State L.length υ T E R}
    (hs : (system υ F h L).Reachable s) : Swept F s := by
  refine TransitionSystem.Reachable.invariant_of hs (Swept F)
    (fun s hs => hs) ?_ fun s a hs hswept ha => swept_next hs hswept ha
  rintro s rfl
  exact ⟨nofun, fun _ => rfl⟩

/-- No `co_await` of the function suspends. -/
theorem prompt_reachable {s : State L.length υ T E R}
    (hs : (system υ F h L).Reachable s) (j : Fin L.length) :
    ((s.task j).pc .consumer).prompt = true := by
  have hnone : (s.task j).consumer = none →
      ((s.task j).pc .consumer).prompt = true := prompt_of_unconsumed hs
  have hwon : ∀ k, Won s k → ((s.task j).pc .consumer).prompt = true := by
    intro k hk
    by_cases hj : j = k
    · exact hj ▸ hk.prompt
    · exact hnone (hk.others j hj)
  have hok := (swept_reachable hs).ok
  cases hpc : s.pc <;> rw [hpc] at hok
  case testEmpty => exact hnone (hok j)
  case start => exact hnone (hok.2.2 j)
  case poll => exact hnone (hok.2.2.2 j)
  case await =>
      obtain ⟨k, -, hk⟩ := hok
      exact hwon k hk
  case yield => exact hnone (hok.2 j)
  case scheduled => exact hnone (hok.2 j)
  case returned =>
      rcases hok with ⟨rfl, -⟩ | ⟨k, -, hk⟩
      · exact j.elim0
      · exact hwon k hk

end WhenAny
end Ethreads
