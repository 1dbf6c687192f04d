import Ethreads.AsyncPrimitive.Model
import Ethreads.Support.Linked

/-!
# One call of `wake_one`

This module models a call of `async_primitive_base::wake_one` in
`include/shared_state/crtp_base.hpp`, and of `async_channel::wake_one_sender` in
`include/shared_state/channel.hpp`, on a list that nobody else works on.  The
weak compare-exchange may fail spuriously any number of times.

The list of suspended coroutines, of which one thread runs `wake_one` alone,
does what the call does.
-/

namespace Ethreads
namespace AsyncPrimitive

variable {ν γ η : Type*}

/-- The members `handle` and `gate` of the nodes. -/
structure Nodes (ν γ η : Type*) where
  handle : ν → Option η
  gate : ν → Option γ

/-- The head of the list, the `next` pointers, the gates that have fired and the
handles passed to `schedule_coro_handle`. -/
structure WaiterList (ν γ η : Type*) where
  head : Option ν
  next : ν → Option ν
  fired : γ → Bool
  scheduled : List η

/-- The node is ungated or has an unfired gate. -/
def Nodes.isLive (nodes : Nodes ν γ η) (fired : γ → Bool) (n : ν) : Bool :=
  (nodes.gate n).all fun g => !fired g

section Calls

variable [DecidableEq γ] (nodes : Nodes ν γ η)

/-- What is done with a node that was popped. -/
def WaiterList.deliver (l : WaiterList ν γ η) (n : ν) : WaiterList ν γ η :=
  match nodes.handle n with
  | none => l
  | some h =>
      match nodes.gate n with
      | none => { l with scheduled := l.scheduled ++ [h] }
      | some g =>
          if l.fired g = true then l
          else { l with
            fired := Function.update l.fired g true
            scheduled := l.scheduled ++ [h] }

/-- The loop with the head it has read, whose compare-exchange fails some number
of times. -/
def wakeLoop : ℕ → Option ν → WaiterList ν γ η → Bool × WaiterList ν γ η
  | _, none, l => (false, l)
  | 0, some n, l =>
      (true, { l with head := l.next n }.deliver nodes n)
  | failures + 1, some _, l => wakeLoop failures l.head l

/-- `async_primitive_base::wake_one`. -/
def wakeOne (failures : ℕ) (l : WaiterList ν γ η) :
    Bool × WaiterList ν γ η :=
  wakeLoop nodes failures l.head l

/-- `async_channel::wake_one_sender`. -/
def wakeOneSender (failures : ℕ) (l : WaiterList ν γ η) : WaiterList ν γ η :=
  (wakeLoop nodes failures l.head l).2

variable {nodes} {l l' : WaiterList ν γ η} {n : ν} {ns : List ν}

theorem wakeLoop_some (failures : ℕ) (hhead : l.head = some n) :
    wakeLoop nodes failures (some n) l =
      (true, { l with head := l.next n }.deliver nodes n) := by
  induction failures with
  | zero => rfl
  | succ failures ih =>
      rw [wakeLoop, hhead]
      exact ih

theorem wakeOne_some (failures : ℕ) (hhead : l.head = some n) :
    wakeOne nodes failures l =
      (true, { l with head := l.next n }.deliver nodes n) := by
  rw [wakeOne, hhead]
  exact wakeLoop_some failures hhead

/-! ## Waking a live node -/

/-- The handle of one live node is scheduled, and the other live nodes stay in
the list in order. -/
def WakesLive [DecidableEq ν] (nodes : Nodes ν γ η) (ns : List ν)
    (l l' : WaiterList ν γ η) : Prop :=
  ∃ n ∈ ns, nodes.isLive l.fired n = true ∧
    (∃ h, nodes.handle n = some h ∧ l'.scheduled = l.scheduled ++ [h]) ∧
      ∃ ms, Linked l'.next l'.head ms ∧
        ms.filter (nodes.isLive l.fired) =
          (ns.erase n).filter (nodes.isLive l.fired)

/-- The node at the head of the list is live, and its handle is not null. -/
def HeadLive (nodes : Nodes ν γ η) (l : WaiterList ν γ η) : Prop :=
  ∃ n h, l.head = some n ∧ nodes.isLive l.fired n = true ∧
    nodes.handle n = some h

theorem next_deliver : (l.deliver nodes n).next = l.next := by
  unfold WaiterList.deliver
  split
  · rfl
  · split
    · rfl
    · split <;> rfl

theorem head_deliver : (l.deliver nodes n).head = l.head := by
  unfold WaiterList.deliver
  split
  · rfl
  · split
    · rfl
    · split <;> rfl

theorem scheduled_deliver_of_live {h : η}
    (hlive : nodes.isLive l.fired n = true)
    (hhandle : nodes.handle n = some h) :
    (l.deliver nodes n).scheduled = l.scheduled ++ [h] := by
  unfold WaiterList.deliver
  rw [hhandle]
  cases hgate : nodes.gate n with
  | none => rfl
  | some g =>
      have hfired : l.fired g = false := by
        simpa [Nodes.isLive, hgate] using hlive
      simp [hfired]

theorem scheduled_deliver_of_dead
    (hdead : nodes.isLive l.fired n = false ∨ nodes.handle n = none) :
    (l.deliver nodes n).scheduled = l.scheduled := by
  unfold WaiterList.deliver
  cases hhandle : nodes.handle n with
  | none => rfl
  | some h =>
      have hlive := hdead.resolve_right (by rw [hhandle]; exact nofun)
      cases hgate : nodes.gate n with
      | none => simp [Nodes.isLive, hgate] at hlive
      | some g =>
          have hfired : l.fired g = true := by
            simpa [Nodes.isLive, hgate] using hlive
          simp [hfired]

variable [DecidableEq ν]

theorem wakesLive_iff (hns : Linked l.next l.head ns)
    (hlive : ∃ n ∈ ns, nodes.isLive l.fired n = true) (failures : ℕ) :
    WakesLive nodes ns l (wakeOne nodes failures l).2 ↔ HeadLive nodes l := by
  cases ns with
  | nil =>
      obtain ⟨n, hn, -⟩ := hlive
      cases hn
  | cons n ns =>
      obtain ⟨hhead, hrest⟩ := hns
      rw [wakeOne_some failures hhead]
      constructor
      · rintro ⟨m, -, -, ⟨h, -, hscheduled⟩, -⟩
        by_contra hnot
        have hdead : nodes.isLive l.fired n = false ∨
            nodes.handle n = none := by
          by_contra hgood
          rw [not_or, Bool.not_eq_false, ← ne_eq, Option.ne_none_iff_exists']
            at hgood
          obtain ⟨hliven, h', hhandle⟩ := hgood
          exact hnot ⟨n, h', hhead, hliven, hhandle⟩
        have hsame := scheduled_deliver_of_dead
          (l := { l with head := l.next n }) hdead
        rw [hsame] at hscheduled
        exact absurd hscheduled (by simp)
      · rintro ⟨m, h, hm, hlivem, hhandle⟩
        obtain rfl : n = m := Option.some.inj (hhead.symm.trans hm)
        refine ⟨n, List.mem_cons_self, hlivem, ⟨h, hhandle, ?_⟩, ns, ?_, ?_⟩
        · exact scheduled_deliver_of_live
            (l := { l with head := l.next n }) hlivem hhandle
        · rw [next_deliver, head_deliver]
          exact hrest
        · rw [List.erase_cons_head]

end Calls

/-- A call of `wake_one` or `wake_one_sender` that is made while some node is
live schedules the handle of exactly one live node and leaves the others in
order if and only if the node at the head of the list is live and has a
handle. -/
theorem wakesLive_iff_headLive [DecidableEq ν] [DecidableEq γ]
    (nodes : Nodes ν γ η) (l : WaiterList ν γ η) (ns : List ν)
    (hns : Linked l.next l.head ns)
    (hlive : ∃ n ∈ ns, nodes.isLive l.fired n = true) (failures : ℕ) :
    (WakesLive nodes ns l (wakeOne nodes failures l).2 ↔ HeadLive nodes l) ∧
      (WakesLive nodes ns l (wakeOneSender nodes failures l) ↔
        HeadLive nodes l) :=
  ⟨wakesLive_iff hns hlive failures, wakesLive_iff hns hlive failures⟩

/-! ## A thread that runs alone -/

section Solo

variable {τ : Type*} {gate : ν → Option γ} {s : State τ ν γ} {t : τ} {n : ν}

/-- The memory that a call of `wake_one` works on.  A node carries the handle of
its own coroutine. -/
def State.list (s : State τ ν γ) : WaiterList ν γ ν :=
  ⟨s.waiters, s.next, s.fired, s.scheduled⟩

def nodesOf (gate : ν → Option γ) : Nodes ν γ ν :=
  ⟨some, gate⟩

/-- The last step of a call that has popped a node. -/
def lastStep (gate : ν → Option γ) (s : State τ ν γ) (t : τ) (n : ν) :
    Action τ ν γ :=
  match gate n with
  | none => .schedule t n none
  | some g => if s.fired g = true then .skip t n none g else .schedule t n none

/-- The steps of the loop whose compare-exchange fails some number of times. -/
def loopSteps (gate : ν → Option γ) (s : State τ ν γ) (t : τ) (n : ν) :
    ℕ → List (Action τ ν γ)
  | 0 => [.wakeNext t n, .wakeCas t n (s.next n), lastStep gate s t n]
  | failures + 1 =>
      .wakeNext t n :: .wakeCasFails t n (s.next n) ::
        loopSteps gate s t n failures

/-- The steps of a call of `wake_one` that a thread runs alone. -/
def wakeOneSteps (gate : ν → Option γ) (s : State τ ν γ) (t : τ)
    (failures : ℕ) : List (Action τ ν γ) :=
  .callWakeOne t :: .wakeLoad t ::
    match s.waiters with
    | none => []
    | some n => loopSteps gate s t n failures

variable [DecidableEq τ] [DecidableEq ν] [DecidableEq γ]

/-- The steps are those of the call, and the thread is done after them. -/
structure RunsCall (gate : ν → Option γ) (t : τ) (s : State τ ν γ)
    (steps : List (Action τ ν γ)) (l : WaiterList ν γ ν) : Prop where
  executes : (system gate τ).Executes s steps
  list : ((system gate τ).after s steps).list = l
  idle : ((system gate τ).after s steps).pc t = .idle

theorem RunsCall.cons {steps : List (Action τ ν γ)} {l : WaiterList ν γ ν}
    {a : Action τ ν γ} (ha : Enabled gate s a)
    (h : RunsCall gate t (next gate s a) steps l) :
    RunsCall gate t s (a :: steps) l :=
  ⟨⟨ha, h.executes⟩, h.list, h.idle⟩

omit [DecidableEq τ] [DecidableEq ν] [DecidableEq γ] in
theorem loopSteps_congr {s' : State τ ν γ} (hnext : s'.next = s.next)
    (hfired : s'.fired = s.fired) {failures : ℕ} :
    loopSteps gate s' t n failures = loopSteps gate s t n failures := by
  induction failures with
  | zero => simp only [loopSteps, lastStep, hnext, hfired]
  | succ failures ih => simp only [loopSteps, hnext, ih]

theorem runsCall_lastStep (hpc : s.pc t = .deliver n none) :
    RunsCall gate t s [lastStep gate s t n]
      (s.list.deliver (nodesOf gate) n) := by
  have hidle : ∀ p : Pc ν, p = .idle →
      Function.update s.pc t p t = .idle := by
    rintro _ rfl
    exact Function.update_self ..
  cases hgate : gate n with
  | none =>
      have hlist : s.list.deliver (nodesOf gate) n =
          { s.list with scheduled := s.list.scheduled ++ [n] } := by
        simp [WaiterList.deliver, nodesOf, hgate]
      rw [lastStep, hgate, hlist]
      refine ⟨⟨⟨hpc, by rw [hgate]; rfl⟩, trivial⟩, ?_, hidle _ rfl⟩
      simp only [TransitionSystem.after_cons, TransitionSystem.after_nil]
      simp [system, next, State.list, State.firedBy, State.goto, State.move,
        hgate]
  | some g =>
      by_cases hfired : s.fired g = true
      · have hlist : s.list.deliver (nodesOf gate) n = s.list := by
          simp [WaiterList.deliver, nodesOf, hgate, State.list, hfired]
        rw [lastStep, hgate, hlist]
        simp only [if_pos hfired]
        exact ⟨⟨⟨hpc, hgate, hfired⟩, trivial⟩, rfl, hidle _ rfl⟩
      · have hlist : s.list.deliver (nodesOf gate) n =
            { s.list with
              fired := Function.update s.fired g true
              scheduled := s.list.scheduled ++ [n] } := by
          simp [WaiterList.deliver, nodesOf, hgate, State.list, hfired]
        rw [lastStep, hgate, hlist]
        simp only [if_neg hfired]
        refine ⟨⟨⟨hpc, by simpa [hgate] using hfired⟩, trivial⟩, ?_,
          hidle _ rfl⟩
        simp only [TransitionSystem.after_cons, TransitionSystem.after_nil]
        simp [system, next, State.list, State.firedBy, State.goto, State.move,
          hgate]

/-- The induction is on the failures of the compare-exchange. -/
theorem runsCall_loopSteps (hpc : s.pc t = .wakeNext n)
    (hwaiters : s.waiters = some n) (failures : ℕ) :
    RunsCall gate t s (loopSteps gate s t n failures)
      ({ s.list with head := s.next n }.deliver (nodesOf gate) n) := by
  induction failures generalizing s with
  | zero =>
      have hself : ∀ p : Pc ν, Function.update s.pc t p t = p :=
        fun p => Function.update_self ..
      refine RunsCall.cons (a := .wakeNext t n) hpc ?_
      refine RunsCall.cons (a := .wakeCas t n (s.next n))
        ⟨hself _, hwaiters⟩ ?_
      exact runsCall_lastStep (s := next gate (next gate s (.wakeNext t n))
        (.wakeCas t n (s.next n))) (Function.update_self ..)
  | succ failures ih =>
      have hself : ∀ p : Pc ν, Function.update s.pc t p t = p :=
        fun p => Function.update_self ..
      refine RunsCall.cons (a := .wakeNext t n) hpc ?_
      refine RunsCall.cons (a := .wakeCasFails t n (s.next n)) (hself _) ?_
      have hsame : loopSteps gate (next gate (next gate s (.wakeNext t n))
          (.wakeCasFails t n (s.next n))) t n failures =
          loopSteps gate s t n failures := by
        refine loopSteps_congr ?_ ?_ <;> rfl
      rw [← hsame]
      refine ih ((Function.update_self ..).trans ?_) hwaiters
      change wakeWith s.waiters = _
      rw [hwaiters]
      rfl

/-- A thread that runs `wake_one` alone does what the call does. -/
theorem runsCall_wakeOneSteps (hpc : s.pc t = .idle) (failures : ℕ) :
    RunsCall gate t s (wakeOneSteps gate s t failures)
      (wakeOne (nodesOf gate) failures s.list).2 := by
  have hself : ∀ p : Pc ν, Function.update s.pc t p t = p :=
    fun p => Function.update_self ..
  refine RunsCall.cons (a := .callWakeOne t) hpc ?_
  refine RunsCall.cons (a := .wakeLoad t) (hself _) ?_
  cases hwaiters : s.waiters with
  | none =>
      have hnone : (wakeOne (nodesOf gate) failures s.list).2 = s.list := by
        rw [wakeOne]
        change (wakeLoop (nodesOf gate) failures s.waiters s.list).2 = _
        rw [hwaiters]
        cases failures <;> rfl
      rw [hnone]
      refine ⟨trivial, rfl, ?_⟩
      refine (Function.update_self ..).trans ?_
      change wakeWith s.waiters = _
      rw [hwaiters]
      rfl
  | some n =>
      rw [wakeOne_some failures (l := s.list) hwaiters]
      have hsame : loopSteps gate (next gate (next gate s (.callWakeOne t))
          (.wakeLoad t)) t n failures = loopSteps gate s t n failures := by
        refine loopSteps_congr ?_ ?_ <;> rfl
      change RunsCall gate t _ (loopSteps gate s t n failures) _
      rw [← hsame]
      have hpc' : (next gate (next gate s (.callWakeOne t))
          (.wakeLoad t)).pc t = .wakeNext n := by
        refine (Function.update_self ..).trans ?_
        change wakeWith s.waiters = _
        rw [hwaiters]
        rfl
      exact runsCall_loopSteps hpc' hwaiters failures

end Solo

/-! ### Two waiters -/

section Two

/-- The first node is gated, the second is not; the handles are their
numbers. -/
def twoNodes : Nodes (Fin 2) (Fin 1) ℕ where
  handle n := some n
  gate n := if n = 0 then some 0 else none

def twoWaiters (fired : Bool) : WaiterList (Fin 2) (Fin 1) ℕ where
  head := some 0
  next n := if n = 0 then some 1 else none
  fired _ := fired
  scheduled := []

theorem linked_twoWaiters (fired : Bool) :
    Linked (twoWaiters fired).next (twoWaiters fired).head [0, 1] :=
  ⟨rfl, rfl, rfl⟩

/-- The gate of the first node is unfired. -/
theorem wakesLive_twoWaiters :
    (WakesLive twoNodes [0, 1] (twoWaiters false)
        (wakeOne twoNodes 1 (twoWaiters false)).2 ↔
      HeadLive twoNodes (twoWaiters false)) ∧
    (WakesLive twoNodes [0, 1] (twoWaiters false)
        (wakeOneSender twoNodes 1 (twoWaiters false)) ↔
      HeadLive twoNodes (twoWaiters false)) :=
  wakesLive_iff_headLive twoNodes (twoWaiters false) [0, 1]
    (linked_twoWaiters false) (by decide) 1

/-- The gate of the first node has fired: the call pops it, schedules nothing
and says that it has woken somebody. -/
theorem not_forall_wakesLive :
    (¬∀ (l : WaiterList (Fin 2) (Fin 1) ℕ) (ns : List (Fin 2)),
      Linked l.next l.head ns →
        (∃ n ∈ ns, twoNodes.isLive l.fired n = true) →
          ∀ failures, WakesLive twoNodes ns l
              (wakeOne twoNodes failures l).2 ∧
            WakesLive twoNodes ns l (wakeOneSender twoNodes failures l)) ∧
    (wakeOne twoNodes 0 (twoWaiters true)).1 = true ∧
    (wakeOne twoNodes 0 (twoWaiters true)).2.scheduled = [] := by
  refine ⟨fun hall => ?_, by decide, by decide⟩
  obtain ⟨n, -, -, ⟨h, -, hscheduled⟩, -⟩ :=
    (hall (twoWaiters true) [0, 1] (linked_twoWaiters true) (by decide) 0).1
  have hnone : (wakeOne twoNodes 0 (twoWaiters true)).2.scheduled = [] := by
    decide
  rw [hnone] at hscheduled
  cases hscheduled

end Two

end AsyncPrimitive
end Ethreads
