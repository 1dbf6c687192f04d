import Ethreads.TaskPool.Accounts

/-!
# Tasks that are run

Every task handed over is run once, unless it is left behind: `add_task` drops
its task when there are no workers, and a worker may leave its loop with tasks
in its queue and be sent more.
-/

namespace Ethreads
namespace TaskPool

variable {n : ℕ} {C K V E : Type*}

/-- Tasks are submitted by `add_task` only where there are workers, a worker
leaves its loop only with an empty queue, and nothing is sent to it
afterwards. -/
def LeavesNothing (s : State n C K V E) : Action n C → Prop
  | .addNoWorkers _ => False
  | .addSend _ _ w | .scheduleSend _ w => (s.workers w).pc ≠ .exited
  | .loadTrue w | .closedTrue w => (s.workers w).queue = []
  | _ => True

/-- Every function is run at most once, and that of a call that has returned
normally exactly once, with what follows it. -/
structure State.RunsEachOnce (cfg : Config C K V E) (s : State n C K V E) :
    Prop where
  atMostOnce : ∀ c, s.runs c ≤ 1
  accepted : ∀ c accepted, s.call c = .returned accepted →
    s.runs c = 1 ∧
      ((cfg.job c).isAddTask = true → s.future c = some (cfg.outcome c)) ∧
        (cfg.job c = .runBlocking → s.rescheduled c = 1)

/-- Nothing has been left behind so far. -/
structure Clean (s : State n C K V E) : Prop where
  queues : ∀ w, (s.workers w).pc = .exited → (s.workers w).queue = []
  calls : ∀ c, s.call c ≠ .returned false

instance [DecidableEq C] (s : State n C K V E) (a : Action n C) :
    Decidable (LeavesNothing s a) := by
  induction a using Action.casesOn <;> dsimp only [LeavesNothing] <;>
    infer_instance

/-! ## Nothing left behind -/

section Clean

variable [DecidableEq C] [DecidableEq K] {cfg : Config C K V E}
  {s : State n C K V E} {a : Action n C}

omit [DecidableEq C] [DecidableEq K] in
theorem queue_workerTo {v w : Fin n} {i : WorkerInfo C}
    (hi : w = v → i.pc = .exited → i.queue = [])
    (hold : w ≠ v → (s.workers w).pc = .exited → (s.workers w).queue = [])
    (hw : ((s.workerTo v i).workers w).pc = .exited) :
    ((s.workerTo v i).workers w).queue = [] := by
  change (Function.update s.workers v i w).pc = _ at hw
  change (Function.update s.workers v i w).queue = _
  by_cases hv : w = v
  · subst hv
    rw [Function.update_self] at hw ⊢
    exact hi rfl hw
  · rw [Function.update_of_ne hv] at hw ⊢
    exact hold hv hw

omit [DecidableEq C] [DecidableEq K] in
theorem prefix_workerTo {v w : Fin n} {i : WorkerInfo C}
    (hi : w = v → (s.workers w).queue <+: i.queue) :
    (s.workers w).queue <+: ((s.workerTo v i).workers w).queue := by
  change _ <+: (Function.update s.workers v i w).queue
  by_cases hv : w = v
  · subst hv
    rw [Function.update_self]
    exact hi rfl
  · rw [Function.update_of_ne hv]

/-- The queue of a worker that has left its loop only grows. -/
theorem prefix_next_of_exited (ha : Enabled cfg s a) {w : Fin n}
    (hw : (s.workers w).pc = .exited) :
    (s.workers w).queue <+: ((next cfg s a).workers w).queue := by
  cases a with
  | addSend d now v | scheduleSend d v =>
      refine prefix_workerTo ?_
      rintro rfl
      exact List.prefix_append ..
  | returnInline d =>
      change _ <+: ((s.report cfg d).workers w).queue
      rw [workers_report]
  | loadTrue v | loadFalse v | receiveNothing v | closedTrue v
  | closedFalse v | record v d start | close v =>
      refine prefix_workerTo ?_
      rintro rfl
      exact List.prefix_refl _
  | receive v d =>
      refine prefix_workerTo ?_
      rintro rfl
      exact nomatch hw.symm.trans ha.1
  | invoke v d =>
      refine prefix_workerTo (s := s.run d) ?_
      rintro rfl
      exact List.prefix_refl _
  | finish v d start =>
      rw [← show (s.report cfg d).workers = s.workers from workers_report d]
      refine prefix_workerTo (s := s.report cfg d) ?_
      rintro rfl
      exact List.prefix_refl _
  | _ => exact List.prefix_refl _

/-- A call that has returned does nothing any more. -/
theorem returned_next (ha : Enabled cfg s a) {c : C} {accepted : Bool}
    (hc : s.call c = .returned accepted) :
    (next cfg s a).call c = .returned accepted := by
  have hmove : ∀ {d q}, s.call d ≠ .returned accepted →
      Function.update s.call d q c = .returned accepted := by
    intro d q hd
    have hcd : c ≠ d := by
      rintro rfl
      exact hd hc
    rw [Function.update_of_ne hcd, hc]
  cases a with
  | enter d | invokeInline d =>
      refine hmove fun hd => ?_
      exact nomatch ha.symm.trans hd
  | readClock d | addSend d now w | addSendThrows d now w
  | scheduleNoWorkers d | scheduleSend d w | scheduleSendThrows d w
  | throwInline d =>
      refine hmove fun hd => ?_
      exact nomatch ha.1.symm.trans hd
  | addNoWorkers d =>
      obtain ⟨⟨now, hcall⟩, -⟩ := ha
      refine hmove fun hd => ?_
      exact nomatch hcall.symm.trans hd
  | returnInline d =>
      change Function.update (s.report cfg d).call d _ c = _
      rw [call_report]
      refine hmove fun hd => ?_
      exact nomatch ha.1.symm.trans hd
  | finish w d start =>
      change (s.report cfg d).call c = _
      rw [call_report]
      exact hc
  | _ => exact hc

/-- The two ways in which a step leaves a task behind. -/
theorem returned_false_next (hP : LeavesNothing s a) {c : C}
    (hc : (next cfg s a).call c = .returned false) :
    s.call c = .returned false := by
  have hmove : ∀ {d q}, Function.update s.call d q c = .returned false →
      q ≠ .returned false → s.call c = .returned false := by
    intro d q hd hq
    by_cases hcd : c = d
    · subst hcd
      rw [Function.update_self] at hd
      exact absurd hd hq
    · rwa [Function.update_of_ne hcd] at hd
  cases a with
  | enter d | readClock d | addSend d now w | addSendThrows d now w
  | scheduleNoWorkers d | scheduleSend d w | scheduleSendThrows d w
  | invokeInline d | throwInline d => exact hmove hc nofun
  | addNoWorkers d => exact hP.elim
  | returnInline d =>
      change Function.update (s.report cfg d).call d _ c = _ at hc
      rw [call_report] at hc
      exact hmove hc nofun
  | finish w d start =>
      change (s.report cfg d).call c = _ at hc
      rwa [call_report] at hc
  | _ => exact hc

theorem clean_next (h : Clean s) (ha : Enabled cfg s a)
    (hP : LeavesNothing s a) : Clean (next cfg s a) where
  calls c hc := h.calls c (returned_false_next hP hc)
  queues w := by
    have hold : ∀ {v : Fin n}, w ≠ v → (s.workers w).pc = .exited →
        (s.workers w).queue = [] := fun _ => h.queues w
    cases a with
    | addSend d now v | scheduleSend d v =>
        refine queue_workerTo ?_ hold
        exact fun _ hv => absurd hv hP
    | loadTrue v | closedTrue v => exact queue_workerTo (fun _ _ => hP) hold
    | close v =>
        refine queue_workerTo ?_ hold
        exact fun _ hv => h.queues v hv
    | loadFalse v | receiveNothing v | closedFalse v | receive v d
    | record v d start =>
        refine queue_workerTo ?_ hold
        exact nofun
    | invoke v d =>
        refine queue_workerTo (s := s.run d) ?_ hold
        exact nofun
    | returnInline d =>
        change ((s.report cfg d).workers w).pc = _ → _
        change _ → ((s.report cfg d).workers w).queue = _
        rw [workers_report]
        exact h.queues w
    | finish v d start =>
        refine queue_workerTo (s := s.report cfg d) ?_ ?_
        · intro _ hv
          exact absurd hv (afterReport_ne_exited d start _)
        · rw [workers_report]
          exact hold
    | _ => exact h.queues w

theorem clean_of_next (ha : Enabled cfg s a) (h : Clean (next cfg s a)) :
    Clean s ∧ LeavesNothing s a := by
  refine ⟨⟨fun w hw => ?_, fun c hc => ?_⟩, ?_⟩
  · have hprefix := prefix_next_of_exited ha hw
    rw [h.queues w (exited_next ha hw)] at hprefix
    exact List.prefix_nil.mp hprefix
  · exact h.calls c (returned_next ha hc)
  · cases a with
    | addNoWorkers d =>
        exact h.calls d (Function.update_self ..)
    | addSend d now w =>
        intro hw
        have hempty := h.queues w (exited_next ha hw)
        simp [next, State.callTo, State.workerTo] at hempty
    | scheduleSend d w =>
        intro hw
        have hempty := h.queues w (exited_next ha hw)
        simp [next, State.callTo, State.workerTo] at hempty
    | loadTrue w =>
        have hempty := h.queues w
        simpa [LeavesNothing, next, State.threadTo, State.workerTo] using hempty
    | closedTrue w =>
        have hempty := h.queues w
        simpa [LeavesNothing, next, State.threadTo, State.workerTo] using hempty
    | _ => trivial

theorem reachableWhere_leavesNothing_iff :
    (system cfg n).ReachableWhere LeavesNothing s ↔
      (system cfg n).Reachable s ∧ Clean s := by
  refine TransitionSystem.reachableWhere_iff ?_ ?_ ?_
  · rintro s ⟨clock, rfl⟩
    exact ⟨fun _ _ => rfl, nofun⟩
  · exact fun s a _ h ha hP => clean_next h ha.2 hP
  · exact fun s a _ ha h => clean_of_next ha.2 h

end Clean

/-! ## Tasks that are run -/

section Execution

variable [DecidableEq C] {cfg : Config C K V E} {s : State n C K V E}

theorem CallPc.handedOver_pos {p : CallPc} (h : 0 < p.handedOver) :
    p.hasRun = true ∨ p = .returned true := by
  unfold CallPc.handedOver at h
  split at h
  · exact .inl rfl
  · exact .inr rfl
  · exact .inl rfl
  · exact absurd h (Nat.lt_irrefl 0)

/-- A task left in a queue is not run where it should have been. -/
theorem Conserved.clean (h : Conserved cfg s) (hruns : s.RunsEachOnce cfg) :
    Clean s where
  queues w _ := by
    refine List.eq_nil_iff_forall_not_mem.mpr fun c hc => ?_
    have hholds : 0 < (s.workers w).holds c :=
      Nat.lt_of_lt_of_le (List.count_pos_iff.mpr hc) (Nat.le_add_right ..)
    have htally := le_tally (WorkerInfo.holds c) s.workers w
    have haccount := h.account c
    have hone := handedOver_le (s.call c)
    unfold TaskPool.account at haccount
    rcases CallPc.handedOver_pos (p := s.call c) (by omega) with hran | hret
    · have hpos := h.ran c hran
      omega
    · have hrun := (hruns.accepted c true hret).1
      omega
  calls c hc := by
    have haccount := h.account c
    rw [hc] at haccount
    have hrun := (hruns.accepted c false hc).1
    unfold TaskPool.account at haccount
    simp only [CallPc.handedOver] at haccount
    omega

/-- When all workers have left their loops with empty queues, no task is
waiting or being run. -/
theorem Clean.tally_eq_zero (h : Clean s)
    (hexited : ∀ w, (s.workers w).pc = .exited) (c : C) :
    tally (WorkerInfo.holds c) s.workers = 0 ∧
      tally (fun i : WorkerInfo C => i.pc.reporting c) s.workers = 0 := by
  refine ⟨tally_eq_zero_iff.mpr fun w => ?_, tally_eq_zero_iff.mpr fun w => ?_⟩
  · simp [WorkerInfo.holds, hexited w, h.queues w (hexited w),
      WorkerPc.invokes]
  · simp [hexited w, WorkerPc.reporting]

theorem Conserved.runsEachOnce (h : Conserved cfg s)
    (hexited : ∀ w, (s.workers w).pc = .exited) (hclean : Clean s) :
    s.RunsEachOnce cfg where
  atMostOnce := h.runs_le
  accepted c accepted hc := by
    obtain ⟨hholds, hreporting⟩ := hclean.tally_eq_zero hexited c
    have htrue : accepted = true := by
      by_contra hfalse
      exact hclean.calls c (by simpa [hfalse] using hc)
    have haccount := h.account c
    rw [hc, htrue] at haccount
    unfold TaskPool.account at haccount
    have hrun : s.runs c = 1 := by
      rwa [hholds, Nat.add_zero] at haccount
    have hreports : cfg.job c ≠ .scheduleTask →
        TaskPool.reports cfg s c = 1 := by
      intro hjob
      have hreport := h.reports c hjob
      unfold reportAccount at hreport
      rw [hc, hreporting, hrun] at hreport
      exact hreport
    refine ⟨hrun, fun hadd => ?_, fun hjob => ?_⟩
    · cases hj : cfg.job c with
      | addTask k =>
          have hone := hreports (by simp [hj])
          unfold TaskPool.reports at hone
          rw [hj] at hone
          cases hf : s.future c with
          | none => simp [hf] at hone
          | some v => rw [h.future c v hf]
      | runBlocking | scheduleTask => simp [hj, Job.isAddTask] at hadd
    · have hone := hreports (by simp [hjob])
      unfold TaskPool.reports at hone
      rwa [hjob] at hone

/-- When the destructor has joined the workers, every task of a call that has
returned has been run once, with its future set or its coroutine rescheduled,
if and only if no task has been left behind. -/
theorem runsEachOnce_iff [DecidableEq K] (cfg : Config C K V E) (n : ℕ)
    (s : State n C K V E) (hs : (system cfg n).Reachable s)
    (hjoined : s.destructor = .joined) :
    s.RunsEachOnce cfg ↔ (system cfg n).ReachableWhere LeavesNothing s := by
  have hconserved := conserved_reachable hs
  have hexited : ∀ w, (s.workers w).pc = .exited := by
    intro w
    refine hconserved.workers w ?_
    rw [hjoined]
    exact w.isLt
  rw [reachableWhere_leavesNothing_iff]
  constructor
  · intro hruns
    exact ⟨hs, hconserved.clean hruns⟩
  · rintro ⟨-, hclean⟩
    exact hconserved.runsEachOnce hexited hclean

end Execution

/-! ## Schedules -/

section Schedules

/-- Every call is one of `add_task`, and its function returns. -/
def oneFunction : Config (Fin 1) (Fin 1) ℕ Unit where
  job := fun _ => .addTask 0
  outcome := fun _ => .ok 7

/-- A pool of `n` workers that has just been constructed. -/
def started (n : ℕ) : State n (Fin 1) (Fin 1) ℕ Unit :=
  initialState n (Fin 1) (Fin 1) ℕ Unit 0

/-- `add_task` sends its task to the only worker. -/
def sends : List (Action 1 (Fin 1)) :=
  [.enter 0, .readClock 0, .addSend 0 0 0]

/-- The destructor runs; the worker leaves its loop when it loads the flag. -/
def destructs : List (Action 1 (Fin 1)) :=
  [.storeFlag, .loadTrue 0, .shutdownServices, .close 0, .closedAll, .join 0,
    .joinedAll]

/-- The worker takes the task out of its queue and runs it. -/
def runsTask : List (Action 1 (Fin 1)) :=
  [.loadFalse 0, .receive 0 0, .invoke 0 0, .finish 0 0 0, .record 0 0 0]

theorem runsEachOnce_runsTask :
    ((system oneFunction 1).after (started 1)
      (sends ++ (runsTask ++ destructs))).RunsEachOnce oneFunction :=
  (runsEachOnce_iff oneFunction 1 _
    (TransitionSystem.Executes.reachable (.init ⟨0, rfl⟩) (by decide))
    (by decide)).mpr
      (TransitionSystem.Executes.reachableWhere (.init ⟨0, rfl⟩) (by decide))

/-- A worker loads the flag with the task in its queue, and `add_task` drops its
task when there are no workers. -/
theorem not_forall_runsEachOnce :
    (¬∀ s, (system oneFunction 1).Reachable s → s.destructor = .joined →
      s.RunsEachOnce oneFunction) ∧
    ¬∀ s, (system oneFunction 0).Reachable s → s.destructor = .joined →
      s.RunsEachOnce oneFunction := by
  refine ⟨fun hall => ?_, fun hall => ?_⟩
  · have hruns := hall _ (TransitionSystem.Executes.reachable
      (s := started 1) (l := sends ++ destructs) (.init ⟨0, rfl⟩)
      (by decide)) (by decide)
    exact absurd (hruns.accepted 0 true (by decide)).1 (by decide)
  · have hruns := hall _ (TransitionSystem.Executes.reachable
      (s := started 0)
      (l := [.enter 0, .readClock 0, .addNoWorkers 0, .storeFlag,
        .shutdownServices, .closedAll, .joinedAll])
      (.init ⟨0, rfl⟩) (by decide)) (by decide)
    exact absurd (hruns.accepted 0 false (by decide)).1 (by decide)

end Schedules

end TaskPool
end Ethreads
