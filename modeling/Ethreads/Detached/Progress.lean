import Ethreads.CoroTask.Readiness
import Ethreads.Detached.Sweeps

/-!
# Calls of the runtime return

A sweep may run a destructor, which spins while it holds the mutex.  It spins
for a task that is ready, and such a task reaches its final suspend point
without the mutex.  So whoever holds the mutex can go on until the call
returns, and after that everybody else.
-/

namespace Ethreads
namespace Detached

open CoroTask (Completion Handle)

variable {ι τ T E : Type*} [DecidableEq ι] [DecidableEq τ]
  {noop : BitVec 64} {h : Handle noop} {s : State ι τ T E}

/-! ## The steps of a task -/

omit [DecidableEq ι] [DecidableEq τ] in
theorem called_of_advances {c : Completion T E} (pc : τ → Pc ι) (i : ι)
    {a : CoroTask.Action Unit T E} (ha : CoroTask.Advances c a) :
    Called pc i a := by
  cases a <;> first | exact ha.elim | trivial

/-- Steps of task `i` lead to a state in which it has the property. -/
def TaskReaches (h : Handle noop) (s : State ι τ T E) (i : ι)
    (B : CoroTask.State Unit T E → Prop) : Prop :=
  (system ι τ T E h).MayReach s fun s' =>
    s' = { s with task := s'.task } ∧ B (s'.task i)

theorem task_next (i : ι) (b : CoroTask.Action Unit T E) :
    (next h s (.task i b)).task i =
      CoroTask.next (fun _ => h) (s.task i) b :=
  Function.update_self ..

theorem task_pc_next {i : ι} {b : CoroTask.Action Unit T E}
    {q : CoroTask.Pc T E}
    (hpc : (CoroTask.next (fun _ => h) (s.task i) b).pc =
      Function.update (s.task i).pc () q) :
    ((next h s (.task i b)).task i).pc () = q := by
  rw [task_next, hpc, Function.update_self]

theorem TaskReaches.of_now {i : ι} {B : CoroTask.State Unit T E → Prop}
    (hB : B (s.task i)) : TaskReaches h s i B :=
  TransitionSystem.MayReach.of_now ⟨rfl, hB⟩

theorem TaskReaches.of_next {i : ι} {b : CoroTask.Action Unit T E}
    {B : CoroTask.State Unit T E → Prop}
    (ha : (system ι τ T E h).Enabled s (.task i b))
    (hrest : TaskReaches h (next h s (.task i b)) i B) :
    TaskReaches h s i B := by
  refine TransitionSystem.MayReach.of_next ha (hrest.mono ?_)
  rintro s' ⟨hsame, hB⟩
  exact ⟨hsame, hB⟩

/-- What a task reaches by itself it reaches in the whole. -/
theorem TaskReaches.of_advancing (i : ι) {c : Completion T E}
    {B : CoroTask.State Unit T E → Prop}
    (hB : (CoroTask.advancing (fun _ => h) c).MayReach (s.task i) B) :
    TaskReaches h s i B := by
  refine ((tasks ι τ T E h).mayReach
    (fun _ b hb => called_of_advances s.pc i hb) hB).mono ?_
  rintro s' ⟨hb, hrest⟩
  refine ⟨?_, hb⟩
  calc
    s' = { (tasks ι τ T E h).rest s' with task := s'.task } := rfl
    _ = { (tasks ι τ T E h).rest s with task := s'.task } := by rw [hrest]
    _ = { s with task := s'.task } := rfl

/-! ## `start` -/

theorem reaches_of_schedule {i : ι}
    (hpc : (s.task i).pc () = .schedule .start) :
    TaskReaches h s i fun t => t.pc () = .started := by
  have ha : (system ι τ T E h).Enabled s (.task i (.schedule () .start)) :=
    ⟨hpc, trivial⟩
  exact .of_next ha (.of_now (task_pc_next rfl))

theorem reaches_of_checkDone {i : ι}
    (hpc : (s.task i).pc () = .checkDone .start) :
    TaskReaches h s i fun t => t.pc () = .started := by
  cases hdone : (s.task i).coro.isDone with
  | true =>
      have ha : (system ι τ T E h).Enabled s (.task i (.isDone () .start)) :=
        ⟨⟨hpc, hdone⟩, trivial⟩
      exact .of_next ha (.of_now (task_pc_next rfl))
  | false =>
      have ha : (system ι τ T E h).Enabled s (.task i (.notDone () .start)) :=
        ⟨⟨hpc, hdone⟩, trivial⟩
      exact .of_next ha (reaches_of_schedule (task_pc_next rfl))

theorem reaches_of_casStarted {i : ι}
    (hpc : (s.task i).pc () = .casStarted .start) :
    TaskReaches h s i fun t => t.pc () = .started := by
  cases hstarted : (s.task i).started with
  | true =>
      have ha : (system ι τ T E h).Enabled s
          (.task i (.startAgain () .start)) := ⟨⟨hpc, hstarted⟩, trivial⟩
      exact .of_next ha (.of_now (task_pc_next rfl))
  | false =>
      have ha : (system ι τ T E h).Enabled s
          (.task i (.startFirst () .start)) := ⟨⟨hpc, hstarted⟩, trivial⟩
      exact .of_next ha (reaches_of_checkDone (task_pc_next rfl))

variable [Fintype τ]

theorem reaches_started {t : τ} {i : ι}
    (hs : (system ι τ T E h).Reachable s) (ht : s.pc t = .start i) :
    TaskReaches h s i fun t => t.pc () = .started := by
  have hconsumes : ((s.task i).pc ()).consumes = false := by
    refine Bool.eq_false_iff.mpr fun hyes => ?_
    have hsome := ((CoroTask.handedOff_reachable
      (task_reachable hs i)).consumer ()).mp hyes
    cases (consumer_eq_none hs i).symm.trans hsome
  have hasks := asks_eq_false hs i
  have hpurpose : ∀ p : CoroTask.Purpose, decide (p ≠ .start) = false →
      p = .start := by
    intro p hp
    simpa using hp
  cases hpc : (s.task i).pc () <;> rw [hpc] at hconsumes hasks
  case idle =>
      have ha : (system ι τ T E h).Enabled s (.task i (.callStart ())) :=
        ⟨⟨hpc, destructor_eq_idle hs (refs_pos_of_start hs ht)⟩, t, ht⟩
      exact .of_next ha (reaches_of_casStarted (task_pc_next rfl))
  case casStarted p =>
      cases hpurpose p hconsumes
      exact reaches_of_casStarted hpc
  case checkDone p =>
      cases hpurpose p hconsumes
      exact reaches_of_checkDone hpc
  case schedule p =>
      cases hpurpose p hconsumes
      exact reaches_of_schedule hpc
  case started => exact .of_now hpc
  case loadReady => cases hasks
  case answered => cases hasks
  all_goals cases hconsumes

/-! ## The destructor -/

omit [Fintype τ] in
theorem reaches_of_destroy {i : ι} (hd : (s.task i).destructor = .destroy) :
    TaskReaches h s i fun t => t.destructor = .destroyed := by
  have ha : (system ι τ T E h).Enabled s (.task i .destroy) := ⟨hd, trivial⟩
  refine .of_next ha (.of_now ?_)
  rw [task_next]
  rfl

omit [Fintype τ] in
theorem reaches_of_final {i : ι} (hd : (s.task i).destructor = .loadFinal)
    (hfinal : (s.task i).finalSuspendReached = true) :
    TaskReaches h s i fun t => t.destructor = .destroyed := by
  have ha : (system ι τ T E h).Enabled s (.task i .foundFinal) :=
    ⟨⟨hd, hfinal⟩, trivial⟩
  refine .of_next ha (reaches_of_destroy ?_)
  rw [task_next]
  rfl

omit [Fintype τ] in
theorem TaskReaches.trans {i : ι} {A B : CoroTask.State Unit T E → Prop}
    (hs : (system ι τ T E h).Reachable s) (hA : TaskReaches h s i A)
    (hB : ∀ s', (system ι τ T E h).Reachable s' → A (s'.task i) →
      TaskReaches h s' i B) : TaskReaches h s i B := by
  refine (TransitionSystem.MayReach.reachable hs hA).trans ?_
  rintro s' ⟨hs', hsame, ha⟩
  refine (hB s' hs' ha).mono ?_
  rintro s'' ⟨hsame', hb⟩
  refine ⟨?_, hb⟩
  rw [hsame', hsame]

omit [DecidableEq ι] [DecidableEq τ] [Fintype τ] in
theorem destructor_of_advances {c : Completion T E}
    {s : CoroTask.State Unit T E} {a : CoroTask.Action Unit T E}
    (ha : CoroTask.Advances c a) :
    (CoroTask.next (fun _ => h) s a).destructor = s.destructor := by
  cases a <;> first | exact ha.elim | rfl

omit [Fintype τ] in
/-- The destructor spins until the coroutine has finished. -/
theorem reaches_of_loadFinal {i : ι} (hs : (system ι τ T E h).Reachable s)
    (hready : (s.task i).ready = true) (hstarted : (s.task i).started = true)
    (hd : (s.task i).destructor = .loadFinal) :
    TaskReaches h s i fun t => t.destructor = .destroyed := by
  have htask := task_reachable hs i
  obtain ⟨c, -⟩ := CoroTask.exists_completion_of_ready htask hready
  obtain ⟨x, hleads, hfinished⟩ := CoroTask.mayReach_finished htask c hstarted
    (consumer_eq_none hs i)
  have hkept : x.destructor = .loadFinal :=
    hleads.invariant (fun x => x.destructor = .loadFinal)
      (fun x a hx ha => (destructor_of_advances ha.2).trans hx) hd
  refine TaskReaches.trans hs (A := fun x => x.coro = .finished ∧
    x.destructor = .loadFinal)
    (.of_advancing i ⟨x, hleads, hfinished, hkept⟩) ?_
  rintro s' hs' ⟨hfinished, hd⟩
  refine reaches_of_final hd ?_
  rw [(CoroTask.published_reachable (task_reachable hs' i)).final, hfinished]
  rfl

theorem reaches_destroyed {t : τ} {i : ι}
    (hs : (system ι τ T E h).Reachable s)
    (ht : (s.pc t).destroying = some i) :
    TaskReaches h s i fun t => t.destructor = .destroyed := by
  have hpc := started_of_destroying hs ht
  obtain ⟨hrefs, howned⟩ := (balanced_reachable hs i).unreferenced
    (Or.inl (destroying_pos ⟨t, ht⟩))
  have hready := ready_of_unreferenced hs hrefs howned
  have hstarted : ∀ s', (system ι τ T E h).Reachable s' →
      (s'.task i).pc () = .started → (s'.task i).started = true := by
    intro s' hs' hpc
    refine (CoroTask.launched_reachable (task_reachable hs' i)).updated () ?_
    rw [hpc]
    rfl
  have hload : ∀ s', (system ι τ T E h).Reachable s' →
      (s'.task i).ready = true → (s'.task i).pc () = .started →
      (s'.task i).destructor = .loadStarted →
        TaskReaches h s' i fun t => t.destructor = .destroyed := by
    intro s' hs' hready hpc hd
    have ha : (system ι τ T E h).Enabled s' (.task i .foundStarted) :=
      ⟨⟨hd, hstarted s' hs' hpc⟩, trivial⟩
    refine .of_next ha (reaches_of_loadFinal (.step hs' ha trivial)
      (ready_next hready) ?_ ?_)
    · rw [task_next]
      exact hstarted s' hs' hpc
    · rw [task_next]
      rfl
  cases hd : (s.task i).destructor with
  | idle =>
      have ha : (system ι τ T E h).Enabled s (.task i .destruct) :=
        ⟨⟨hd, fun _ => by rw [hpc]; rfl⟩, t, ht⟩
      refine .of_next ha (hload _ (.step hs ha trivial) (ready_next hready)
        ?_ ?_)
      · rw [task_next]
        exact hpc
      · rw [task_next]
        rfl
  | loadStarted => exact hload s hs hready hpc hd
  | loadFinal => exact reaches_of_loadFinal hs hready (hstarted s hs hpc) hd
  | destroy => exact reaches_of_destroy hd
  | destroyed => exact .of_now hd

/-! ## A thread on its own -/

/-- Thread `t` can return from its call while the other threads wait. -/
def Returns (h : Handle noop) (s : State ι τ T E) (t : τ) : Prop :=
  (system ι τ T E h).MayReach s fun s' =>
    s'.pc t = .idle ∧ ∀ u, u ≠ t → s'.pc u = s.pc u

omit [Fintype τ] in
theorem returns_of_idle {t : τ} (ht : s.pc t = .idle) : Returns h s t :=
  TransitionSystem.MayReach.of_now ⟨ht, fun _ _ => rfl⟩

omit [Fintype τ] in
theorem returns_of_next {t : τ} {a : Action ι τ T E}
    (ha : (system ι τ T E h).Enabled s a) (hthread : a.thread = some t)
    (hrest : Returns h (next h s a) t) : Returns h s t := by
  refine TransitionSystem.MayReach.of_next ha (hrest.mono ?_)
  rintro s' ⟨hidle, hsame⟩
  refine ⟨hidle, fun u hu => (hsame u hu).trans (pc_next_of_ne ?_)⟩
  rw [hthread]
  exact fun htu => hu (Option.some.inj htu).symm

omit [Fintype τ] in
theorem returns_of_task {t : τ} {i : ι} {B : CoroTask.State Unit T E → Prop}
    (hs : (system ι τ T E h).Reachable s) (hB : TaskReaches h s i B)
    (hrest : ∀ s', (system ι τ T E h).Reachable s' →
      s' = { s with task := s'.task } → B (s'.task i) → Returns h s' t) :
    Returns h s t := by
  refine (TransitionSystem.MayReach.reachable hs hB).trans ?_
  rintro s' ⟨hs', hsame, hb⟩
  refine (hrest s' hs' hsame hb).mono ?_
  rintro s'' ⟨hidle, hother⟩
  refine ⟨hidle, fun u hu => (hother u hu).trans ?_⟩
  rw [hsame]

omit [DecidableEq ι] [Fintype τ] in
theorem goto_pc_self {t : τ} {q : Pc ι} : (s.goto t q).pc t = q :=
  Function.update_self ..

theorem returns_of_destroyLast {t : τ} {i : ι}
    (hs : (system ι τ T E h).Reachable s) (ht : s.pc t = .destroyLast i) :
    Returns h s t := by
  refine returns_of_task hs (reaches_destroyed hs (by rw [ht]; rfl)) ?_
  intro s' hs' hsame hd
  have hpc : s'.pc t = .destroyLast i := by
    rw [hsame]
    exact ht
  have ha : (system ι τ T E h).Enabled s' (.destroyedLast t i) := ⟨hpc, hd⟩
  exact returns_of_next ha rfl (returns_of_idle goto_pc_self)

theorem returns_of_release {t : τ} {i : ι}
    (hs : (system ι τ T E h).Reachable s) (ht : s.pc t = .release i) :
    Returns h s t := by
  have ha : (system ι τ T E h).Enabled s (.release t i) := ht
  have hpc : (next h s (.release t i)).pc t =
      if s.refs i = 1 then .destroyLast i else .idle := Function.update_self ..
  refine returns_of_next ha rfl ?_
  by_cases hone : s.refs i = 1
  · rw [if_pos hone] at hpc
    exact returns_of_destroyLast (.step hs ha trivial) hpc
  · rw [if_neg hone] at hpc
    exact returns_of_idle hpc

theorem returns_of_unlock {t : τ} {o : Option ι}
    (hs : (system ι τ T E h).Reachable s) (ht : s.pc t = .unlock o) :
    Returns h s t := by
  have ha : (system ι τ T E h).Enabled s (.unlock t o) := ht
  have hpc : (next h s (.unlock t o)).pc t = .afterUnlock o :=
    Function.update_self ..
  refine returns_of_next ha rfl ?_
  cases o with
  | none => exact returns_of_idle hpc
  | some i => exact returns_of_release (.step hs ha trivial) hpc

theorem returns_of_pushBack {t : τ} {i : ι}
    (hs : (system ι τ T E h).Reachable s) (ht : s.pc t = .pushBack i) :
    Returns h s t := by
  have ha : (system ι τ T E h).Enabled s (.pushBack t i) := ht
  exact returns_of_next ha rfl (returns_of_unlock (.step hs ha trivial)
    (Function.update_self ..))

/-- The sweep goes on after the destructor of a task. -/
theorem returns_of_destroy {t : τ} {o : Option ι} {i : ι} {rest : List ι}
    (hsweep : ∀ s : State ι τ T E, (system ι τ T E h).Reachable s →
      s.pc t = .sweep o rest → Returns h s t)
    (hs : (system ι τ T E h).Reachable s)
    (ht : s.pc t = .destroy o i rest) : Returns h s t := by
  refine returns_of_task hs (reaches_destroyed hs (by rw [ht]; rfl)) ?_
  intro s' hs' hsame hd
  have hpc : s'.pc t = .destroy o i rest := by
    rw [hsame]
    exact ht
  have ha : (system ι τ T E h).Enabled s' (.destroyed t o i rest) := ⟨hpc, hd⟩
  exact returns_of_next ha rfl (hsweep _ (.step hs' ha trivial) goto_pc_self)

theorem returns_of_reset {t : τ} {o : Option ι} {i : ι} {rest : List ι}
    (hsweep : ∀ s : State ι τ T E, (system ι τ T E h).Reachable s →
      s.pc t = .sweep o rest → Returns h s t)
    (hs : (system ι τ T E h).Reachable s) (ht : s.pc t = .reset o i rest) :
    Returns h s t := by
  have ha : (system ι τ T E h).Enabled s (.reset t o i rest) := ht
  have hpc : (next h s (.reset t o i rest)).pc t =
      if s.refs i = 1 then .destroy o i rest else .sweep o rest :=
    Function.update_self ..
  refine returns_of_next ha rfl ?_
  by_cases hone : s.refs i = 1
  · rw [if_pos hone] at hpc
    exact returns_of_destroy hsweep (.step hs ha trivial) hpc
  · rw [if_neg hone] at hpc
    exact hsweep _ (.step hs ha trivial) hpc

theorem returns_of_sweep {t : τ} {o : Option ι} {rest : List ι}
    (hs : (system ι τ T E h).Reachable s) (ht : s.pc t = .sweep o rest) :
    Returns h s t := by
  induction rest generalizing s with
  | nil =>
      have ha : (system ι τ T E h).Enabled s (.erase t o) := ht
      have hpc : (next h s (.erase t o)).pc t = .afterSweep o :=
        Function.update_self ..
      refine returns_of_next ha rfl ?_
      cases o with
      | none => exact returns_of_unlock (.step hs ha trivial) hpc
      | some i => exact returns_of_pushBack (.step hs ha trivial) hpc
  | cons i rest ih =>
      cases hready : (s.task i).ready with
      | true =>
          have ha : (system ι τ T E h).Enabled s (.checkTrue t o i rest) :=
            ⟨ht, hready⟩
          exact returns_of_next ha rfl (returns_of_reset (fun s => ih)
            (.step hs ha trivial) goto_pc_self)
      | false =>
          have ha : (system ι τ T E h).Enabled s (.checkFalse t o i rest) :=
            ⟨ht, hready⟩
          exact returns_of_next ha rfl (ih (.step hs ha trivial)
            (Function.update_self ..))

theorem returns_of_size {t : τ} {i : ι}
    (hs : (system ι τ T E h).Reachable s) (ht : s.pc t = .size i) :
    Returns h s t := by
  rcases Nat.lt_or_ge sweepLimit s.detached.length with hlt | hge
  · have ha : (system ι τ T E h).Enabled s (.sizeMany t i) := ⟨ht, hlt⟩
    exact returns_of_next ha rfl (returns_of_sweep (.step hs ha trivial)
      (Function.update_self ..))
  · have ha : (system ι τ T E h).Enabled s (.sizeFew t i) := ⟨ht, hge⟩
    exact returns_of_next ha rfl (returns_of_pushBack (.step hs ha trivial)
      goto_pc_self)

theorem returns_of_lock {t : τ} {o : Option ι}
    (hs : (system ι τ T E h).Reachable s) (hfree : s.mutex = none)
    (ht : s.pc t = .lock o) : Returns h s t := by
  have ha : (system ι τ T E h).Enabled s (.lock t o) := ⟨ht, hfree⟩
  refine returns_of_next ha rfl ?_
  cases o with
  | none =>
      exact returns_of_sweep (.step hs ha trivial) (Function.update_self ..)
  | some i =>
      exact returns_of_size (.step hs ha trivial) (Function.update_self ..)

theorem returns_of_start {t : τ} {i : ι}
    (hs : (system ι τ T E h).Reachable s) (hfree : s.mutex = none)
    (ht : s.pc t = .start i) : Returns h s t := by
  refine returns_of_task hs (reaches_started hs ht) ?_
  intro s' hs' hsame hstarted
  have hpc : s'.pc t = .start i := by
    rw [hsame]
    exact ht
  have hfree' : s'.mutex = none := by
    rw [hsame]
    exact hfree
  have ha : (system ι τ T E h).Enabled s' (.started t i) := ⟨hpc, hstarted⟩
  exact returns_of_next ha rfl (returns_of_lock (.step hs' ha trivial) hfree'
    goto_pc_self)

/-- The holder of the mutex can return, and anybody if there is none. -/
theorem returns_of_reachable {t : τ} (hs : (system ι τ T E h).Reachable s)
    (hfree : s.mutex = none ∨ (s.pc t).holdsMutex = true) :
    Returns h s t := by
  have hoff : (s.pc t).holdsMutex = false → s.mutex = none := by
    intro hoff
    refine hfree.resolve_right ?_
    rw [hoff]
    exact Bool.false_ne_true
  cases ht : s.pc t with
  | idle => exact returns_of_idle ht
  | start i => exact returns_of_start hs (hoff (by rw [ht]; rfl)) ht
  | lock o => exact returns_of_lock hs (hoff (by rw [ht]; rfl)) ht
  | size i => exact returns_of_size hs ht
  | sweep o rest => exact returns_of_sweep hs ht
  | reset o i rest =>
      exact returns_of_reset (fun s hs => returns_of_sweep hs) hs ht
  | destroy o i rest =>
      exact returns_of_destroy (fun s hs => returns_of_sweep hs) hs ht
  | pushBack i => exact returns_of_pushBack hs ht
  | unlock o => exact returns_of_unlock hs ht
  | release i => exact returns_of_release hs ht
  | destroyLast i => exact returns_of_destroyLast hs ht

/-! ## All calls -/

def Pc.active : Pc ι → ℕ
  | idle => 0
  | _ => 1

/-- From every state all calls can return. -/
theorem mayReach_idle (hs : (system ι τ T E h).Reachable s) :
    (system ι τ T E h).MayReach s fun s' => ∀ t, s'.pc t = .idle := by
  refine TransitionSystem.MayReach.of_rounds
    (I := (system ι τ T E h).Reachable)
    (fun s => tally Pc.active s.pc) ?_ hs
  intro s hs hnot
  have hturn : ∃ t, s.pc t ≠ .idle ∧
      (s.mutex = none ∨ (s.pc t).holdsMutex = true) := by
    cases hm : s.mutex with
    | none =>
        push Not at hnot
        obtain ⟨t, ht⟩ := hnot
        exact ⟨t, ht, Or.inl rfl⟩
    | some t =>
        have hholds := (guards_reachable hs t).mpr hm
        refine ⟨t, ?_, Or.inr hholds⟩
        intro ht
        rw [ht] at hholds
        cases hholds
  obtain ⟨t, ht, hfree⟩ := hturn
  refine (TransitionSystem.MayReach.reachable hs
    (returns_of_reachable hs hfree)).mono ?_
  rintro s' ⟨hs', hidle, hother⟩
  refine ⟨hs', ?_⟩
  have hmove : tally Pc.active s'.pc + (s.pc t).active =
      tally Pc.active s.pc + (s'.pc t).active :=
    tally_add_of_forall_ne t fun u hu => congrArg Pc.active (hother u hu)
  have hone : (s.pc t).active = 1 := by
    cases hp : s.pc t <;> first | rfl | exact absurd hp ht
  have hzero : (s'.pc t).active = 0 := by
    rw [hidle]
    rfl
  omega

/-! ## What detaching guarantees -/

/-- A detached task is destroyed at most once, by one thread, when it has
completed and nobody refers to it any more, and no closure of a destroyed task
is called.  A task that was given away is referred to until then, and as long
as it is not ready its closure stays in the list or is on its way there.  What
`collect_detached` leaves was not ready when it began; the list stays short as
long as few tasks are unfinished; and all calls can return. -/
structure SafelyDetached (h : Handle noop) (s : State ι τ T E) : Prop where
  destroyed_le : ∀ i, (s.task i).destroyed ≤ 1
  destroyed : ∀ i, (s.task i).destructor = .destroyed →
    s.refs i = 0 ∧ (s.task i).finalSuspendReached = true
  destroying : ∀ t u i, (s.pc t).destroying = some i →
    (s.pc u).destroying = some i → t = u
  called : ∀ t o i rest, s.pc t = .sweep o (i :: rest) →
    (s.task i).destructor = .idle
  kept : ∀ i, s.owned i = false → 0 < s.refs i ∨
    (∃ t, (s.pc t).destroying = some i) ∨ (s.task i).destructor = .destroyed
  watched : ∀ i, s.owned i = false → (s.task i).ready = false →
    i ∈ s.detached ∨ ∃ t, 0 < (s.pc t).pending i ∨ 0 < (s.pc t).spawning i
  collected : ∀ t, s.pc t = .unlock none →
    ∀ i ∈ s.detached, s.atSweep i = false
  bounded : ∀ m : ℕ, (system ι τ T E h).ReachableWhere
    (fun s _ => s.unfinished.encard ≤ m) s →
      s.detached.length ≤ max 100 m + 1
  returns : (system ι τ T E h).MayReach s fun s' => ∀ t, s'.pc t = .idle

/-- A destructor runs when nobody refers to the task, and the task has
completed. -/
theorem finalSuspendReached_of_destroyed
    (hs : (system ι τ T E h).Reachable s) {i : ι}
    (hd : (s.task i).destructor = .destroyed) :
    s.refs i = 0 ∧ (s.task i).finalSuspendReached = true := by
  have hphase : 0 < (s.census i).phase := by
    simp only [State.census, hd, phase, Nat.zero_lt_two]
  obtain ⟨hrefs, howned⟩ :=
    (balanced_reachable hs i).unreferenced (Or.inr hphase)
  refine ⟨hrefs, ?_⟩
  have hready := ready_of_unreferenced hs hrefs howned
  have hguarded := CoroTask.guarded_reachable (task_reachable hs i)
  rcases hguarded.safe (Or.inr hd) with ⟨hinitial, -⟩ | hfinal
  · have hpub := CoroTask.published_reachable (task_reachable hs i)
    rw [hpub.ready, hinitial] at hready
    cases hready
  · exact hfinal

omit [DecidableEq τ] [Fintype τ] in
theorem destroys_eq (i : ι) (p : Pc ι) :
    p.destroys i = if p.destroying = some i then 1 else 0 := by
  cases p <;> simp [Pc.destroys, Pc.destroying]

theorem destroying_unique (hs : (system ι τ T E h).Reachable s) {t u : τ}
    {i : ι} (ht : (s.pc t).destroying = some i)
    (hu : (s.pc u).destroying = some i) : t = u := by
  by_contra htu
  have hmove := tally_update (Pc.destroys i) s.pc t .idle
  have hle := le_tally (Pc.destroys i) (Function.update s.pc t .idle) u
  have hidle : (Pc.idle : Pc ι).destroys i = 0 := rfl
  rw [Function.update_of_ne (Ne.symm htu), destroys_eq, if_pos hu] at hle
  rw [destroys_eq, if_pos ht, hidle] at hmove
  have hone : tally (Pc.destroys i) s.pc ≤ 1 :=
    (balanced_reachable hs i).destroying
  omega

/-- A task that was given away is referred to until it is destroyed. -/
theorem kept_of_given (hs : (system ι τ T E h).Reachable s) {i : ι}
    (howned : s.owned i = false) : 0 < s.refs i ∨
      (∃ t, (s.pc t).destroying = some i) ∨
        (s.task i).destructor = .destroyed := by
  rcases Nat.eq_zero_or_pos (s.refs i) with hzero | hpos
  · refine Or.inr ?_
    have howned' : (s.census i).owned = 0 := by
      simp only [State.census, howned, Bool.toNat_false]
    rcases (balanced_reachable hs i).kept howned' hzero with hd | hphase
    · left
      obtain ⟨t, ht⟩ := tally_pos_iff.mp hd
      refine ⟨t, ?_⟩
      rw [destroys_eq] at ht
      by_contra hne
      rw [if_neg hne] at ht
      cases ht
    · right
      change phase (s.task i).destructor = 2 at hphase
      cases hd : (s.task i).destructor <;> rw [hd] at hphase <;>
        first | rfl | cases hphase
  · exact Or.inl hpos

/-- The closure of a task that is not ready is going to be called again. -/
theorem watched_of_given (hs : (system ι τ T E h).Reachable s) {i : ι}
    (howned : s.owned i = false) (hready : (s.task i).ready = false) :
    i ∈ s.detached ∨
      ∃ t, 0 < (s.pc t).pending i ∨ 0 < (s.pc t).spawning i := by
  have howned' : (s.census i).owned = 0 := by
    simp only [State.census, howned, Bool.toNat_false]
  have hready' : (s.census i).ready = 0 := by
    simp only [State.census, hready, Bool.toNat_false]
  have hone := (balanced_reachable hs i).ready hready'
  by_cases hmem : i ∈ s.detached
  · exact Or.inl hmem
  · right
    have hclosures : (s.census i).closures = 0 := List.count_eq_zero.mpr hmem
    by_cases hpending : 0 < (s.census i).pending
    · obtain ⟨t, ht⟩ := tally_pos_iff.mp hpending
      exact ⟨t, Or.inl ht⟩
    · have hspawning : 0 < (s.census i).spawning := by omega
      obtain ⟨t, ht⟩ := tally_pos_iff.mp hspawning
      exact ⟨t, Or.inr ht⟩

/-- Whoever calls a closure finds its task alive. -/
theorem destructor_of_sweep (hs : (system ι τ T E h).Reachable s) {t : τ}
    {o : Option ι} {i : ι} {rest : List ι}
    (ht : s.pc t = .sweep o (i :: rest)) :
    (s.task i).destructor = .idle := by
  refine destructor_eq_idle hs ?_
  have hle : (s.pc t).pending i ≤ (s.census i).pending :=
    le_tally (Pc.pending i) s.pc t
  rw [ht] at hle
  simp only [Pc.pending, List.count_cons_self] at hle
  have hrefs := (balanced_reachable hs i).refs
  change s.refs i = _ at hrefs
  omega

/-- Detached tasks are neither lost nor destroyed too early, whatever the
threads that spawn and collect and the coroutines do. -/
theorem safelyDetached_of_reachable
    (hs : (system ι τ T E h).Reachable s) : SafelyDetached h s where
  destroyed_le i := by
    have hguarded := CoroTask.guarded_reachable (task_reachable hs i)
    rw [hguarded.count]
    split <;> omega
  destroyed _ hd := finalSuspendReached_of_destroyed hs hd
  destroying _ _ _ ht hu := destroying_unique hs ht hu
  called _ _ _ _ ht := destructor_of_sweep hs ht
  kept _ howned := kept_of_given hs howned
  watched _ howned hready := watched_of_given hs howned hready
  collected t ht := (kept_reachable hs).unready t (by rw [ht]; rfl)
  bounded _ hm := (limited_reachableWhere hm).length
  returns := mayReach_idle hs

/-! ## A run

A task completes before `spawn_detached` has returned, and is destroyed by
`collect_detached` while its coroutine is still on its way to the final
suspend point. -/

def spawnThenCollect : List (Action (Fin 1) (Fin 1) ℕ Unit) :=
  [.callSpawn 0 0, .task 0 (.callStart ()), .task 0 (.startFirst () .start),
    .task 0 (.notDone () .start), .task 0 (.schedule () .start), .started 0 0,
    .lock 0 (some 0), .sizeFew 0 0, .pushBack 0 0, .unlock 0 (some 0),
    .task 0 .resumeTask, .task 0 (.complete (.value 5)),
    .task 0 (.coroLock (.value 5)), .task 0 (.storeResult (.value 5)),
    .task 0 .storeReady, .release 0 0, .callCollect 0, .lock 0 none,
    .checkTrue 0 none 0 [], .reset 0 none 0 [], .task 0 .destruct,
    .task 0 .foundStarted, .task 0 .notifyAll, .task 0 .coroUnlock,
    .task 0 .coroLoadWord, .task 0 (.setReady 0), .task 0 (.storeFinal 8),
    .task 0 .foundFinal, .task 0 .destroy, .destroyed 0 none 0 [],
    .erase 0 none, .unlock 0 none]

/-- The state that the run ends in. -/
def collected : State (Fin 1) (Fin 1) ℕ Unit :=
  (system (Fin 1) (Fin 1) ℕ Unit (CoroTask.sampleHandle 0)).after
    (initialState (Fin 1) (Fin 1) ℕ Unit) spawnThenCollect

theorem safelyDetached_collected :
    (collected.task 0).destroyed = 1 ∧
      SafelyDetached (CoroTask.sampleHandle 0) collected :=
  ⟨by decide, safelyDetached_of_reachable
    (TransitionSystem.Executes.reachable (.init rfl) (by decide))⟩

end Detached
end Ethreads
