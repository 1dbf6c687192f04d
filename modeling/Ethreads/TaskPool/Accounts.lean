import Ethreads.Support.Tally
import Ethreads.TaskPool.Model

/-!
# Where a task is

A task that a call has handed over is in one queue, in the hands of one worker,
or has been run, and it has been run once.  A function that has been run is
followed by one report: its promise is set or its coroutine rescheduled.
-/

namespace Ethreads
namespace TaskPool

variable {n : ℕ} {C K V E : Type*}

/-! ## Where a task is -/

/-- The call has passed its task on or run its function. -/
def CallPc.handedOver : CallPc → ℕ
  | invokedInline | returned true | taskThrew => 1
  | _ => 0

/-- The call has run the function itself, and the task has not reported. -/
def CallPc.reporting : CallPc → ℕ
  | invokedInline | taskThrew => 1
  | _ => 0

/-- The call runs its function itself and has done so. -/
def CallPc.hasRun : CallPc → Bool
  | invokedInline | taskThrew => true
  | _ => false

def DestructorPc.joinedCount (n : ℕ) : DestructorPc → ℕ
  | joining k => k
  | joined => n
  | _ => 0

variable [DecidableEq C]

/-- The worker is about to run the function of call `c`. -/
def WorkerPc.invokes (c : C) : WorkerPc C → ℕ
  | invoke d => if c = d then 1 else 0
  | _ => 0

/-- The worker has run the function of call `c`, whose task has still to
report. -/
def WorkerPc.reporting (c : C) : WorkerPc C → ℕ
  | invoked d _ => if c = d then 1 else 0
  | _ => 0

def WorkerInfo.holds (c : C) (i : WorkerInfo C) : ℕ :=
  i.queue.count c + i.pc.invokes c

def account (s : State n C K V E) (c : C) : ℕ :=
  s.runs c + tally (WorkerInfo.holds c) s.workers

def reports (cfg : Config C K V E) (s : State n C K V E) (c : C) : ℕ :=
  match cfg.job c with
  | .addTask _ => if (s.future c).isSome = true then 1 else 0
  | .runBlocking => s.rescheduled c
  | .scheduleTask => s.runs c

def reportAccount (cfg : Config C K V E) (s : State n C K V E) (c : C) : ℕ :=
  reports cfg s c +
    tally (fun i : WorkerInfo C => i.pc.reporting c) s.workers +
      (s.call c).reporting

/-- Every task handed over is accounted for exactly once, and so is what
follows its function. -/
structure Conserved (cfg : Config C K V E) (s : State n C K V E) : Prop where
  account : ∀ c, account s c = (s.call c).handedOver
  reports : ∀ c, cfg.job c ≠ .scheduleTask →
    reportAccount cfg s c = s.runs c
  inline : ∀ c, (cfg.job c).isAddTask = true →
    s.call c ≠ .inline ∧ s.call c ≠ .invokedInline
  future : ∀ c v, s.future c = some v → v = cfg.outcome c
  ran : ∀ c, (s.call c).hasRun = true → 0 < s.runs c
  workers : ∀ w : Fin n, w < s.destructor.joinedCount n →
    (s.workers w).pc = .exited

theorem conserved_initialState (cfg : Config C K V E) (clock : ℕ) :
    Conserved cfg (initialState n C K V E clock) where
  account _ := by simp [account, tally, initialState, WorkerInfo.holds,
    WorkerPc.invokes, CallPc.handedOver]
  reports c hc := by
    unfold reportAccount reports
    cases hj : cfg.job c <;>
      simp_all [tally, initialState, WorkerPc.reporting, CallPc.reporting]
  inline _ _ := ⟨nofun, nofun⟩
  future _ _ h := nomatch h
  ran _ h := nomatch h
  workers _ h := absurd h (Nat.not_lt_zero _)

/-! ## Steps -/

section Account

variable {cfg : Config C K V E} {s : State n C K V E}

theorem handedOver_callTo (d : C) (q : CallPc) (c : C) :
    ((s.callTo d q).call c).handedOver +
        (if c = d then (s.call d).handedOver else 0) =
      (s.call c).handedOver + if c = d then q.handedOver else 0 := by
  unfold State.callTo
  by_cases hc : c = d
  · subst hc
    simp [Nat.add_comm]
  · simp [hc]

theorem handedOver_of_eq {d : C} {p q : CallPc} (hp : s.call d = p)
    (hpq : p.handedOver = q.handedOver) (c : C) :
    ((s.callTo d q).call c).handedOver = (s.call c).handedOver := by
  have hmove := handedOver_callTo (s := s) d q c
  rw [hp, hpq] at hmove
  exact Nat.add_right_cancel hmove

theorem handedOver_succ {d : C} {p q : CallPc} (hp : s.call d = p)
    (hzero : p.handedOver = 0) (hone : q.handedOver = 1) (c : C) :
    ((s.callTo d q).call c).handedOver =
      (s.call c).handedOver + if c = d then 1 else 0 := by
  have hmove := handedOver_callTo (s := s) d q c
  rw [hp, hzero, hone, ite_self] at hmove
  exact hmove

theorem account_callTo {d : C} {p q : CallPc} (hp : s.call d = p)
    (hpq : p.handedOver = q.handedOver) (c : C) :
    account (s.callTo d q) c + (s.call c).handedOver =
      account s c + ((s.callTo d q).call c).handedOver := by
  rw [handedOver_of_eq hp hpq]
  rfl

theorem count_append_singleton (l : List C) (c d : C) :
    (l ++ [d]).count c = l.count c + if c = d then 1 else 0 := by
  rw [List.count_append]
  by_cases hc : c = d
  · subst hc
    simp
  · simp [hc, Ne.symm hc]

theorem count_of_head? {l : List C} {d : C} (h : l.head? = some d) (c : C) :
    l.count c = l.tail.count c + if c = d then 1 else 0 := by
  rw [← List.cons_head?_tail h, List.count_cons, List.tail_cons]
  by_cases hc : c = d
  · subst hc
    simp
  · simp [hc, Ne.symm hc]

theorem runs_run (d c : C) :
    (s.run d).runs c = s.runs c + if c = d then 1 else 0 := by
  unfold State.run
  by_cases hc : c = d
  · subst hc
    simp
  · simp [hc]

theorem account_workerTo (w : Fin n) (i : WorkerInfo C) (c : C) :
    account (s.workerTo w i) c + (s.workers w).holds c =
      account s c + i.holds c := by
  have htally := tally_update (WorkerInfo.holds c) s.workers w i
  change s.runs c + tally (WorkerInfo.holds c)
    (Function.update s.workers w i) + _ = _
  unfold account
  omega

theorem account_of_holds {w : Fin n} {i : WorkerInfo C} {c : C}
    (h : (s.workers w).holds c = i.holds c) :
    account (s.workerTo w i) c = account s c := by
  have hmove := account_workerTo (s := s) w i c
  omega

theorem account_threadTo {w : Fin n} {p q : WorkerPc C}
    (hp : (s.workers w).pc = p) (c : C)
    (hpq : p.invokes c = q.invokes c) :
    account (s.threadTo w q) c = account s c := by
  refine account_of_holds ?_
  unfold WorkerInfo.holds
  rw [hp, hpq]

theorem holds_receive {i : WorkerInfo C} {d : C} (hpc : i.pc = .receiveFor)
    (hhead : i.queue.head? = some d) (c : C) :
    i.holds c =
      WorkerInfo.holds c { i with pc := .invoke d, queue := i.queue.tail } := by
  unfold WorkerInfo.holds
  rw [hpc, count_of_head? hhead c]
  rfl

theorem account_invoke {w : Fin n} {d : C} {i : WorkerInfo C}
    (hpc : (s.workers w).pc = .invoke d)
    (hqueue : i.queue = (s.workers w).queue) (c : C)
    (hi : i.pc.invokes c = 0) :
    account ((s.run d).workerTo w i) c = account s c := by
  have hrun : account (s.run d) c =
      account s c + if c = d then 1 else 0 := by
    unfold account
    rw [runs_run, Nat.add_right_comm]
    rfl
  have hold : ((s.run d).workers w).holds c =
      (s.workers w).queue.count c + if c = d then 1 else 0 := by
    change (s.workers w).queue.count c + (s.workers w).pc.invokes c = _
    rw [hpc]
    rfl
  have hnew : i.holds c = (s.workers w).queue.count c := by
    unfold WorkerInfo.holds
    rw [hqueue, hi, Nat.add_zero]
  have hmove := account_workerTo (s := s.run d) w i c
  omega

theorem account_report (c d : C) :
    account (s.report cfg d) c = account s c := by
  unfold State.report
  split <;> rfl

theorem workers_report (d : C) : (s.report cfg d).workers = s.workers := by
  unfold State.report
  split <;> rfl

theorem call_report (d : C) : (s.report cfg d).call = s.call := by
  unfold State.report
  split <;> rfl

theorem runs_report (d : C) : (s.report cfg d).runs = s.runs := by
  unfold State.report
  split <;> rfl

theorem destructor_report (d : C) :
    (s.report cfg d).destructor = s.destructor := by
  unfold State.report
  split <;> rfl

theorem invokes_afterReport (c d : C) (start : ℕ) (j : Job K) :
    (afterReport d start j).invokes c = 0 := by
  cases j <;> rfl

theorem reporting_afterReport (c d : C) (start : ℕ) (j : Job K) :
    (afterReport d start j).reporting c = 0 := by
  cases j <;> rfl

omit [DecidableEq C] in
theorem afterReport_ne_exited (d : C) (start : ℕ) (j : Job K) :
    afterReport d start j ≠ .exited := by
  cases j <;> exact nofun

end Account

section Steps

variable [DecidableEq K] {cfg : Config C K V E} {s : State n C K V E}
  {a : Action n C}

omit [DecidableEq K] in
theorem account_push {w : Fin n} {d : C} {i : WorkerInfo C} {p : CallPc}
    (hp : s.call d = p) (hzero : p.handedOver = 0)
    (hqueue : i.queue = (s.workers w).queue ++ [d])
    (hpc : i.pc = (s.workers w).pc) (c : C) :
    account ((s.workerTo w i).callTo d (.returned true)) c +
        (s.call c).handedOver =
      account s c +
        (((s.workerTo w i).callTo d (.returned true)).call c).handedOver := by
  have hmove := account_workerTo (s := s) w i c
  have hd := handedOver_succ (q := .returned true) hp hzero rfl c
  simp only [WorkerInfo.holds, hqueue, hpc, count_append_singleton] at hmove
  change account (s.workerTo w i) c + _ =
    _ + ((s.callTo d (.returned true)).call c).handedOver
  omega

/-- A call hands its task over, or runs it, with the step that puts it into a
queue or runs its function. -/
theorem account_next (ha : Enabled cfg s a) (c : C) :
    account (next cfg s a) c + (s.call c).handedOver =
      account s c + ((next cfg s a).call c).handedOver := by
  cases a with
  | tick | storeFlag | shutdownServices | closedAll | join | joinedAll
  | throw => rfl
  | enter d =>
      refine account_callTo ha ?_ c
      rfl
  | addNoWorkers d =>
      obtain ⟨⟨now, hd⟩, -⟩ := ha
      refine account_callTo hd ?_ c
      rfl
  | readClock d | addSendThrows d now w | scheduleNoWorkers d
  | scheduleSendThrows d w | throwInline d =>
      refine account_callTo ha.1 ?_ c
      rfl
  | addSend d now w =>
      exact account_push (i := { s.workers w with
        queue := (s.workers w).queue ++ [d]
        availableAt := s.expected now (cfg.job d) }) ha.1 rfl rfl rfl c
  | scheduleSend d w =>
      exact account_push (i := { s.workers w with
        queue := (s.workers w).queue ++ [d] }) ha.1 rfl rfl rfl c
  | invokeInline d =>
      have hd := handedOver_succ (q := .invokedInline) ha rfl rfl c
      have hrun := runs_run (s := s) d c
      change (s.run d).runs c + tally (WorkerInfo.holds c) s.workers + _ =
        s.runs c + tally (WorkerInfo.holds c) s.workers +
          ((s.callTo d .invokedInline).call c).handedOver
      omega
  | returnInline d =>
      have hpc : (s.report cfg d).call d = .invokedInline := by
        rw [call_report]
        exact ha.1
      have hmove := account_callTo (q := .returned true) hpc rfl c
      rwa [account_report, call_report] at hmove
  | loadTrue w | loadFalse w | receiveNothing w | closedTrue w
  | closedFalse w =>
      exact congrArg (· + _) (account_threadTo ha.1 c rfl)
  | receive w d =>
      exact congrArg (· + _) (account_of_holds (holds_receive ha.1 ha.2 c))
  | invoke w d =>
      exact congrArg (· + _) (account_invoke (i := { s.workers w with
        pc := .invoked d s.clock }) ha rfl c rfl)
  | finish w d start =>
      have hpc : ((s.report cfg d).workers w).pc = .invoked d start := by
        rw [workers_report]
        exact ha.1
      have hmove := account_threadTo (q := afterReport d start (cfg.job d))
        hpc c (invokes_afterReport c d start _).symm
      rw [account_report] at hmove
      have hcall : (next cfg s (.finish w d start)).call = s.call :=
        call_report d
      rw [hcall]
      exact congrArg (· + _) hmove
  | record w d start =>
      exact congrArg (· + _) (account_threadTo ha c rfl)
  | close w =>
      exact congrArg (· + _) (account_of_holds (w := w)
        (i := { s.workers w with closed := true }) rfl)

end Steps

/-! ## Reports -/

section Reports

variable {cfg : Config C K V E} {s : State n C K V E} {c : C}

variable (cfg c) in
theorem reportAccount_workerTo (w : Fin n) (i : WorkerInfo C) :
    reportAccount cfg (s.workerTo w i) c + (s.workers w).pc.reporting c =
      reportAccount cfg s c + i.pc.reporting c := by
  have htally := tally_update
    (fun i : WorkerInfo C => i.pc.reporting c) s.workers w i
  change reports cfg s c + tally (fun i : WorkerInfo C => i.pc.reporting c)
    (Function.update s.workers w i) + (s.call c).reporting + _ = _
  unfold reportAccount
  omega

theorem reportAccount_of_pc {w : Fin n} {i : WorkerInfo C}
    (h : (s.workers w).pc.reporting c = i.pc.reporting c) :
    reportAccount cfg (s.workerTo w i) c = reportAccount cfg s c := by
  have hmove := reportAccount_workerTo cfg c (s := s) w i
  omega

variable (cfg c) in
theorem reportAccount_callTo (d : C) (q : CallPc) :
    reportAccount cfg (s.callTo d q) c +
        (if c = d then (s.call d).reporting else 0) =
      reportAccount cfg s c + if c = d then q.reporting else 0 := by
  have hsame : reports cfg (s.callTo d q) c = reports cfg s c := rfl
  unfold reportAccount
  rw [hsame]
  by_cases hc : c = d
  · subst hc
    simp only [State.callTo, Function.update_self, if_true]
    omega
  · simp only [State.callTo, Function.update_of_ne hc, if_neg hc]

theorem reportAccount_of_call {d : C} {p q : CallPc} (hp : s.call d = p)
    (hpq : p.reporting = q.reporting) :
    reportAccount cfg (s.callTo d q) c = reportAccount cfg s c := by
  have hmove := reportAccount_callTo cfg c (s := s) d q
  rw [hp, hpq] at hmove
  exact Nat.add_right_cancel hmove

theorem reportAccount_push {w : Fin n} {d : C} {i : WorkerInfo C}
    {p : CallPc} (hp : s.call d = p) (hzero : p.reporting = 0)
    (hpc : i.pc = (s.workers w).pc) :
    reportAccount cfg ((s.workerTo w i).callTo d (.returned true)) c =
      reportAccount cfg s c := by
  refine (reportAccount_of_call (s := s.workerTo w i) hp ?_).trans
    (reportAccount_of_pc ?_)
  · exact hzero
  · rw [hpc]

theorem reportAccount_run (d : C) (hc : cfg.job c ≠ .scheduleTask) :
    reportAccount cfg (s.run d) c = reportAccount cfg s c := by
  have hsame : reports cfg (s.run d) c = reports cfg s c := by
    unfold reports
    cases hj : cfg.job c with
    | scheduleTask => exact absurd hj hc
    | _ => rfl
  unfold reportAccount
  rw [hsame]
  rfl

theorem reports_report {d : C} (hc : cfg.job c ≠ .scheduleTask)
    (hnone : (cfg.job d).isAddTask = true → s.future d = none) :
    reports cfg (s.report cfg d) c =
      reports cfg s c + if c = d then 1 else 0 := by
  unfold reports State.report
  by_cases hcd : c = d
  · subst hcd
    cases hj : cfg.job c with
    | addTask k =>
        rw [hj] at hnone
        simp [hnone rfl]
    | runBlocking => simp
    | scheduleTask => exact absurd hj hc
  · cases hj : cfg.job c with
    | scheduleTask => exact absurd hj hc
    | _ => cases cfg.job d <;> simp [hcd]

theorem reportAccount_report {d : C} (hc : cfg.job c ≠ .scheduleTask)
    (hnone : (cfg.job d).isAddTask = true → s.future d = none) :
    reportAccount cfg (s.report cfg d) c =
      reportAccount cfg s c + if c = d then 1 else 0 := by
  unfold reportAccount
  rw [reports_report hc hnone, workers_report, call_report]
  omega

variable (cfg) in
theorem reportAccount_invoke {w : Fin n} {d : C} {start : ℕ}
    {i : WorkerInfo C} (hpc : (s.workers w).pc = .invoke d)
    (hi : i.pc = .invoked d start) (hc : cfg.job c ≠ .scheduleTask) :
    reportAccount cfg ((s.run d).workerTo w i) c =
      reportAccount cfg s c + if c = d then 1 else 0 := by
  have hmove := reportAccount_workerTo cfg c (s := s.run d) w i
  rw [show ((s.run d).workers w).pc = .invoke d from hpc,
    reportAccount_run d hc, hi] at hmove
  exact hmove

theorem reportAccount_finish {w : Fin n} {d : C} {start : ℕ}
    {i : WorkerInfo C} (hpc : (s.workers w).pc = .invoked d start)
    (hi : i.pc.reporting c = 0) (hc : cfg.job c ≠ .scheduleTask)
    (hnone : (cfg.job d).isAddTask = true → s.future d = none) :
    reportAccount cfg ((s.report cfg d).workerTo w i) c =
      reportAccount cfg s c := by
  have hmove := reportAccount_workerTo cfg c (s := s.report cfg d) w i
  rw [workers_report, hpc, reportAccount_report hc hnone, hi] at hmove
  simp only [WorkerPc.reporting] at hmove
  omega

variable [DecidableEq K] {a : Action n C}

/-- Every run of a function is followed by one report. -/
theorem reportAccount_next (ha : Enabled cfg s a)
    (hinline : ∀ d, s.call d = .invokedInline →
      (cfg.job d).isAddTask = false)
    (hnone : ∀ d w start, (s.workers w).pc = .invoked d start →
      (cfg.job d).isAddTask = true → s.future d = none)
    (hc : cfg.job c ≠ .scheduleTask) :
    reportAccount cfg (next cfg s a) c + s.runs c =
      reportAccount cfg s c + (next cfg s a).runs c := by
  cases a with
  | tick | storeFlag | shutdownServices | closedAll | join | joinedAll
  | throw => rfl
  | enter d =>
      refine congrArg (· + s.runs c) (reportAccount_of_call ha ?_)
      rfl
  | addNoWorkers d =>
      obtain ⟨⟨now, hd⟩, -⟩ := ha
      refine congrArg (· + s.runs c) (reportAccount_of_call hd ?_)
      rfl
  | readClock d | addSendThrows d now w | scheduleNoWorkers d
  | scheduleSendThrows d w | throwInline d =>
      refine congrArg (· + s.runs c) (reportAccount_of_call ha.1 ?_)
      rfl
  | addSend d now w =>
      exact congrArg (· + s.runs c) (reportAccount_push (i := {
        s.workers w with
          queue := (s.workers w).queue ++ [d]
          availableAt := s.expected now (cfg.job d) }) ha.1 rfl rfl)
  | scheduleSend d w =>
      exact congrArg (· + s.runs c) (reportAccount_push (i := {
        s.workers w with queue := (s.workers w).queue ++ [d] }) ha.1 rfl rfl)
  | invokeInline d =>
      have hmove := reportAccount_callTo cfg c (s := s.run d) d .invokedInline
      have hrun := runs_run (s := s) d c
      rw [show (s.run d).call d = .inline from ha,
        reportAccount_run d hc] at hmove
      simp only [CallPc.reporting, ite_self] at hmove
      change reportAccount cfg ((s.run d).callTo d .invokedInline) c + _ =
        _ + (s.run d).runs c
      omega
  | returnInline d =>
      have hmove := reportAccount_callTo cfg c (s := s.report cfg d) d
        (.returned true)
      rw [call_report, ha.1, reportAccount_report hc fun hadd =>
        absurd (hinline d ha.1) (by simp [hadd])] at hmove
      simp only [CallPc.reporting, ite_self] at hmove
      change reportAccount cfg ((s.report cfg d).callTo d (.returned true)) c +
        _ = _ + (s.report cfg d).runs c
      rw [runs_report]
      omega
  | loadTrue w | loadFalse w | receiveNothing w | closedTrue w
  | closedFalse w | receive w d =>
      refine congrArg (· + s.runs c) (reportAccount_of_pc ?_)
      rw [ha.1]
      rfl
  | invoke w d =>
      have hmove := reportAccount_invoke cfg (c := c) (w := w)
        (i := { s.workers w with pc := .invoked d s.clock }) ha rfl hc
      have hrun := runs_run (s := s) d c
      refine (congrArg (· + s.runs c) hmove).trans ?_
      change _ = _ + (s.run d).runs c
      omega
  | finish w d start =>
      rw [show next cfg s (.finish w d start) =
        (s.report cfg d).threadTo w (afterReport d start (cfg.job d)) from rfl,
        State.threadTo, reportAccount_finish ha.1
          (reporting_afterReport c d start _) hc (hnone d w start ha.1)]
      exact congrArg (_ + ·) (congrFun (runs_report d) c).symm
  | record w d start =>
      have hsame : reportAccount cfg (next cfg s (.record w d start)) c =
          reportAccount cfg (s.threadTo w .loadFlag) c := rfl
      rw [hsame, State.threadTo, reportAccount_of_pc]
      · rfl
      · rw [show (s.workers w).pc = _ from ha]
        rfl
  | close w =>
      have hsame : reportAccount cfg (next cfg s (.close w)) c =
          reportAccount cfg
            (s.workerTo w { s.workers w with closed := true }) c := rfl
      rw [hsame, reportAccount_of_pc]
      · rfl
      · rfl

end Reports

/-! ## The invariant -/

theorem handedOver_le (p : CallPc) : p.handedOver ≤ 1 := by
  unfold CallPc.handedOver
  split <;> omega

theorem Conserved.runs_le {cfg : Config C K V E} {s : State n C K V E}
    (h : Conserved cfg s) (c : C) : s.runs c ≤ 1 := by
  have hone := handedOver_le (s.call c)
  rw [← h.account c] at hone
  exact (Nat.le_add_right ..).trans hone

/-- The task of `add_task` whose function has been run and that has not
reported has not set its promise. -/
theorem Conserved.future_eq_none {cfg : Config C K V E}
    {s : State n C K V E} (h : Conserved cfg s) {d : C} {w : Fin n}
    {start : ℕ} (hpc : (s.workers w).pc = .invoked d start)
    (hd : (cfg.job d).isAddTask = true) : s.future d = none := by
  have hreports := h.reports d (by rintro hj; simp [hj, Job.isAddTask] at hd)
  have hruns := h.runs_le d
  have hw : 1 ≤ tally (fun i : WorkerInfo C => i.pc.reporting d) s.workers := by
    refine le_trans (le_of_eq ?_) (le_tally _ s.workers w)
    simp [hpc, WorkerPc.reporting]
  unfold reportAccount at hreports
  have hzero : TaskPool.reports cfg s d = 0 := by omega
  unfold TaskPool.reports at hzero
  cases hj : cfg.job d with
  | addTask k =>
      rw [hj] at hzero
      cases hf : s.future d with
      | none => rfl
      | some v => simp [hf] at hzero
  | runBlocking | scheduleTask => simp [hj, Job.isAddTask] at hd

section Runs

variable [DecidableEq K] {cfg : Config C K V E} {s : State n C K V E}
  {a : Action n C}

omit [DecidableEq C] [DecidableEq K] in
theorem pc_workerTo_of_exited {v w : Fin n} {i : WorkerInfo C}
    (hw : (s.workers w).pc = .exited)
    (hi : (s.workers v).pc = .exited → i.pc = .exited) :
    ((s.workerTo v i).workers w).pc = .exited := by
  by_cases hv : w = v
  · subst hv
    exact (congrArg _ (Function.update_self ..)).trans (hi hw)
  · exact (congrArg _ (Function.update_of_ne hv ..)).trans hw

/-- A worker that has left its loop does nothing any more. -/
theorem exited_next (ha : Enabled cfg s a) {w : Fin n}
    (hw : (s.workers w).pc = .exited) :
    ((next cfg s a).workers w).pc = .exited := by
  cases a with
  | addSend d now v | scheduleSend d v | close v =>
      exact pc_workerTo_of_exited hw id
  | returnInline d =>
      change ((s.report cfg d).workers w).pc = .exited
      rw [workers_report]
      exact hw
  | loadTrue v | closedTrue v => exact pc_workerTo_of_exited hw fun _ => rfl
  | loadFalse v | closedFalse v | receiveNothing v | receive v d =>
      exact pc_workerTo_of_exited hw fun hv => nomatch ha.1.symm.trans hv
  | invoke v d =>
      exact pc_workerTo_of_exited (s := s.run d) hw
        fun hv => nomatch ha.symm.trans hv
  | finish v d start =>
      refine pc_workerTo_of_exited (s := s.report cfg d) ?_ fun hv => ?_
      · rw [workers_report]
        exact hw
      · rw [workers_report] at hv
        exact nomatch ha.1.symm.trans hv
  | record v d start =>
      exact pc_workerTo_of_exited hw fun hv => nomatch ha.symm.trans hv
  | _ => exact hw

theorem inline_next (h : ∀ c, (cfg.job c).isAddTask = true →
      s.call c ≠ .inline ∧ s.call c ≠ .invokedInline)
    (ha : Enabled cfg s a) (c : C) (hc : (cfg.job c).isAddTask = true) :
    (next cfg s a).call c ≠ .inline ∧
      (next cfg s a).call c ≠ .invokedInline := by
  have hmove : ∀ {d q}, (c = d → q ≠ .inline ∧ q ≠ .invokedInline) →
      Function.update s.call d q c ≠ .inline ∧
        Function.update s.call d q c ≠ .invokedInline := by
    intro d q hq
    by_cases hd : c = d
    · subst hd
      rw [Function.update_self]
      exact hq rfl
    · rw [Function.update_of_ne hd]
      exact h c hc
  cases a with
  | enter d | readClock d | addNoWorkers d | addSend d now w
  | addSendThrows d now w | scheduleSend d w | scheduleSendThrows d w
  | throwInline d => exact hmove fun _ => ⟨nofun, nofun⟩
  | scheduleNoWorkers d =>
      refine hmove fun hd => ?_
      subst hd
      exact nomatch hc.symm.trans ha.2.1
  | invokeInline d =>
      exact hmove fun hd => absurd ha (hd ▸ (h c hc).1)
  | returnInline d =>
      change Function.update (s.report cfg d).call d _ c ≠ _ ∧
        Function.update (s.report cfg d).call d _ c ≠ _
      rw [call_report]
      exact hmove fun _ => ⟨nofun, nofun⟩
  | finish w d start =>
      change (s.report cfg d).call c ≠ _ ∧ (s.report cfg d).call c ≠ _
      rw [call_report]
      exact h c hc
  | _ => exact h c hc

theorem future_next (h : ∀ c v, s.future c = some v → v = cfg.outcome c)
    (c : C) (v : Except E V) (hv : (next cfg s a).future c = some v) :
    v = cfg.outcome c := by
  have hreport : ∀ d, (s.report cfg d).future c = some v →
      v = cfg.outcome c := by
    intro d hd
    unfold State.report at hd
    split at hd
    · by_cases hcd : c = d
      · subst hcd
        change Function.update s.future c (some (cfg.outcome c)) c = _ at hd
        rw [Function.update_self] at hd
        exact (Option.some.inj hd).symm
      · change Function.update s.future d (some (cfg.outcome d)) c = _ at hd
        rw [Function.update_of_ne hcd] at hd
        exact h c v hd
    · exact h c v hd
    · exact h c v hd
  cases a with
  | returnInline d => exact hreport d hv
  | finish w d start => exact hreport d hv
  | _ => exact h c v hv

/-- A call that has run its function itself stays so until it reports. -/
theorem ran_next (h : ∀ c, (s.call c).hasRun = true → 0 < s.runs c)
    (ha : Enabled cfg s a) (c : C)
    (hc : ((next cfg s a).call c).hasRun = true) :
    0 < (next cfg s a).runs c := by
  have hmove : ∀ {d q}, q.hasRun = false →
      (Function.update s.call d q c).hasRun = true → 0 < s.runs c := by
    intro d q hq hd
    by_cases hcd : c = d
    · subst hcd
      rw [Function.update_self] at hd
      exact nomatch hq.symm.trans hd
    · rw [Function.update_of_ne hcd] at hd
      exact h c hd
  cases a with
  | enter d | readClock d | addNoWorkers d | addSend d now w
  | addSendThrows d now w | scheduleNoWorkers d | scheduleSend d w
  | scheduleSendThrows d w => exact hmove rfl hc
  | invokeInline d =>
      change 0 < (s.run d).runs c
      rw [runs_run]
      by_cases hcd : c = d
      · rw [if_pos hcd]
        exact Nat.succ_pos _
      · change (Function.update s.call d _ c).hasRun = true at hc
        rw [Function.update_of_ne hcd] at hc
        exact Nat.lt_add_right _ (h c hc)
  | returnInline d =>
      change 0 < (s.report cfg d).runs c
      change (Function.update (s.report cfg d).call d _ c).hasRun = true at hc
      rw [call_report] at hc
      rw [runs_report]
      exact hmove rfl hc
  | throwInline d =>
      by_cases hcd : c = d
      · refine h c ?_
        rw [hcd, ha.1]
        rfl
      · change (Function.update s.call d _ c).hasRun = true at hc
        rw [Function.update_of_ne hcd] at hc
        exact h c hc
  | invoke w d =>
      change 0 < (s.run d).runs c
      rw [runs_run]
      exact Nat.lt_add_right _ (h c hc)
  | finish w d start =>
      change 0 < (s.report cfg d).runs c
      change ((s.report cfg d).call c).hasRun = true at hc
      rw [call_report] at hc
      rw [runs_report]
      exact h c hc
  | _ => exact h c hc

/-- The destructor joins workers that have left their loops. -/
theorem workers_next
    (h : ∀ w : Fin n, w < s.destructor.joinedCount n →
      (s.workers w).pc = .exited)
    (ha : Enabled cfg s a) (w : Fin n)
    (hw : w < (next cfg s a).destructor.joinedCount n) :
    ((next cfg s a).workers w).pc = .exited := by
  refine exited_next ha ?_
  cases a with
  | storeFlag | shutdownServices | close v | closedAll =>
      exact absurd hw (Nat.not_lt_zero _)
  | join v =>
      rcases Nat.lt_succ_iff_lt_or_eq.mp hw with hlt | heq
      · refine h w ?_
        rw [ha.1]
        exact hlt
      · rw [Fin.ext heq]
        exact ha.2
  | joinedAll =>
      refine h w ?_
      rw [show s.destructor = _ from ha]
      exact hw
  | returnInline d =>
      exact h w (destructor_report (s := s) d ▸ hw)
  | finish v d start =>
      exact h w (destructor_report (s := s) d ▸ hw)
  | _ => exact h w hw

theorem conserved_next (h : Conserved cfg s) (ha : Enabled cfg s a) :
    Conserved cfg (next cfg s a) where
  account c := by
    have hmove := account_next ha c
    have hold := h.account c
    omega
  reports c hc := by
    have hinline : ∀ d, s.call d = .invokedInline →
        (cfg.job d).isAddTask = false := by
      intro d hd
      by_contra hadd
      exact (h.inline d (by simpa using hadd)).2 hd
    have hmove := reportAccount_next ha hinline
      (fun d w start hpc hd => h.future_eq_none hpc hd) hc
    have hold := h.reports c hc
    omega
  inline := inline_next h.inline ha
  future := future_next h.future
  ran := ran_next h.ran ha
  workers := workers_next h.workers ha

theorem conserved_reachable (hs : (system cfg n).Reachable s) :
    Conserved cfg s := by
  refine hs.invariant _ ?_ fun s a hs ha => conserved_next hs ha.2
  rintro s ⟨clock, rfl⟩
  exact conserved_initialState cfg clock

end Runs

end TaskPool
end Ethreads
