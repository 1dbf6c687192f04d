import Ethreads.IoUring.Results
import Mathlib.Data.Fintype.Basic

/-!
# Resumption

Every operation that awaits when the ring has been shut down was scheduled once
with its own result, if the completion thread leaves its loop only when no
operation is under way; and no completion outlives a send with a timeout, if its
coroutine is resumed only after the completion of the timeout.
-/

namespace Ethreads
namespace IoUring

variable {ο : Type*}

/-! ## Shutting the ring down -/

def Command.slots (c : Command) : ℕ :=
  if c.linked = true then 2 else 1

/-- The operation has slots that it has not prepared. -/
def OpPc.isReserved : OpPc → Bool
  | reserved _ _ => true
  | _ => false

/-- The operation has slots, or its entry waits in the queue, is with the
kernel, or has a completion that is not processed. -/
def Outstanding [DecidableEq ο] (s : State ο) (o : ο) : Prop :=
  (s.op o).isReserved = true ∨ some (.main o) ∈ entries s

/-- A submit sends only entries that are prepared; the completion thread leaves
its loop only when no operation is under way, and after that no operation gets a
slot. -/
def StopsIdle [DecidableEq ο] (command : ο → Command) (s : State ο)
    (a : Action ο) : Prop :=
  SendsPrepared s a ∧
    match a with
    | .loadRunning => s.running = true ∨ ∀ o, ¬Outstanding s o
    | .fatal => ∀ o, ¬Outstanding s o
    | .getSqe o => s.reaper = .exited →
        ∀ q ∈ s.ring, q.free.length < (command o).slots
    | _ => True

/-- The coroutine of the operation was scheduled once, with the result that the
kernel has posted for it or with `-ENOMEM`. -/
structure State.ResumesOnce (s : State ο) (o : ο) : Prop where
  once : s.scheduled o = 1
  result : (s.completion (.main o)).result = (s.posted o).getD enomem

/-- `await_suspend` of the operation has returned. -/
def State.Awaits (s : State ο) (o : ο) : Prop :=
  s.op o = .suspended ∨ s.op o = .refused

/-- Once the completion thread has left its loop, no operation is under way. -/
structure Stopped (s : State ο) : Prop where
  exited : s.reaper = .exited → ∀ o, (s.op o).isReserved = false ∧
    s.processed (.main o) = (s.op o).issued
  closed : s.closer = .joined ∨ s.closer = .returned → s.reaper = .exited
  idle : s.closer = .idle → s.running = false → s.reaper = .exited

section Stopped

variable {command : ο → Command} {s s' : State ο}

theorem Stopped.control (h : Stopped s) (hreaper : s'.reaper = s.reaper)
    (hcloser : s'.closer = s.closer) (hrunning : s'.running = s.running)
    (hop : s.reaper = .exited → ∀ o, (s'.op o).isReserved = false ∧
      s'.processed (.main o) = (s'.op o).issued) : Stopped s' := by
  refine ⟨fun hexited => hop (hreaper ▸ hexited), fun hc => ?_,
    fun hc hr => ?_⟩
  · rw [hcloser] at hc
    exact hreaper.trans (h.closed hc)
  · rw [hcloser] at hc
    rw [hrunning] at hr
    exact hreaper.trans (h.idle hc hr)

theorem Stopped.closerTo (h : Stopped s) (hreaper : s'.reaper = s.reaper)
    (hop : s'.op = s.op) (hprocessed : s'.processed = s.processed)
    (hclosed : s'.closer = .joined ∨ s'.closer = .returned →
      s.reaper = .exited) (hidle : s'.closer ≠ .idle) : Stopped s' := by
  refine ⟨fun hexited => ?_, fun hc => hreaper.trans (hclosed hc),
    fun hc => absurd hc hidle⟩
  rw [hop, hprocessed]
  exact h.exited (hreaper ▸ hexited)

theorem Stopped.reaperTo (h : Stopped s) (hold : s.reaper ≠ .exited)
    (hnew : s'.reaper ≠ .exited) (hcloser : s'.closer = s.closer)
    (hrunning : s'.running = s.running) : Stopped s' := by
  refine ⟨fun hexited => absurd hexited hnew, fun hc => ?_, fun hc hr => ?_⟩
  · rw [hcloser] at hc
    exact absurd (h.closed hc) hold
  · rw [hcloser] at hc
    rw [hrunning] at hr
    exact absurd (h.idle hc hr) hold

variable [DecidableEq ο]

theorem stopped_exit (haccounts : Accounts command s)
    (hnone : ∀ o, ¬Outstanding s o) :
    Stopped { s with reaper := .exited } := by
  refine ⟨fun _ o => ⟨?_, ?_⟩, fun _ => rfl, fun _ _ => rfl⟩
  · exact Bool.eq_false_iff.mpr fun hreserved => hnone o (.inl hreserved)
  · have haccount := haccounts.main o
    have hzero : (entries s).count (some (.main o)) = 0 :=
      List.count_eq_zero.mpr fun hmem => hnone o (.inr hmem)
    rw [hzero, Nat.zero_add] at haccount
    exact haccount

theorem stopped_update {o : ο} {p : OpPc}
    (h : ∀ o, (s.op o).isReserved = false ∧
      s.processed (.main o) = (s.op o).issued)
    (hreserved : p.isReserved = false) (hissued : p.issued = (s.op o).issued)
    (o' : ο) : (Function.update s.op o p o').isReserved = false ∧
      s.processed (.main o') = (Function.update s.op o p o').issued := by
  by_cases ho : o' = o
  · subst ho
    rw [Function.update_self, hissued]
    exact ⟨hreserved, (h o').2⟩
  · rw [Function.update_of_ne ho]
    exact h o'

/-- An operation that comes too late is refused. -/
theorem next_getSqe_of_lt {o : ο}
    (hlt : ∀ q ∈ s.ring, q.free.length < (command o).slots) :
    ∃ ring, next command s (.getSqe o) = { s with ring := ring }.refuse o := by
  rcases next_getSqe_cases s command o with
    ⟨q, hfree, hq, hlinked, -⟩ | ⟨q, hfree, hfree', hq, hlinked, -⟩ |
      ⟨q, hfree, -, -, -, hnext⟩ | hnext
  · have hslots := hlt q hq
    rw [q.free_of_lt hfree, Command.slots, hlinked] at hslots
    simp at hslots
  · have hslots := hlt q hq
    rw [q.free_of_lt hfree, (q.advance hfree).free_of_lt hfree',
      Command.slots, hlinked] at hslots
    simp only [List.length_cons, if_true] at hslots
    omega
  · exact ⟨_, hnext⟩
  · exact ⟨s.ring, hnext⟩

theorem next_getSqe_control (command : ο → Command) (s : State ο) (o : ο) :
    (next command s (.getSqe o)).reaper = s.reaper ∧
      (next command s (.getSqe o)).closer = s.closer ∧
      (next command s (.getSqe o)).running = s.running := by
  rcases next_getSqe_cases s command o with
    ⟨q, _, _, _, hnext⟩ | ⟨q, _, _, _, _, hnext⟩ | ⟨q, _, _, _, _, hnext⟩ |
      hnext
  all_goals
    rw [hnext]
    exact ⟨rfl, rfl, rfl⟩

theorem stopped_next {a : Action ο} (h : Stopped s)
    (haccounts : Accounts command s) (ha : Enabled s a)
    (hs : StopsIdle command s a) : Stopped (next command s a) := by
  cases a with
  | call o =>
      refine h.control rfl rfl rfl fun hexited => ?_
      exact stopped_update (h.exited hexited) rfl (by rw [ha]; rfl)
  | getSqe o =>
      obtain ⟨hreaper, hcloser, hrunning⟩ := next_getSqe_control command s o
      refine h.control hreaper hcloser hrunning fun hexited => ?_
      obtain ⟨ring, hnext⟩ := next_getSqe_of_lt (hs.2 hexited)
      rw [hnext]
      exact stopped_update (h.exited hexited) rfl (by rw [ha]; rfl)
  | prep o v w =>
      refine h.control ?_ ?_ ?_ fun hexited => ?_
      · cases w <;> rfl
      · cases w <;> rfl
      · cases w <;> rfl
      · have hnone := (h.exited hexited o).1
        rw [ha] at hnone
        cases hnone
  | submit o k =>
      change Stopped { s.submit k with op := Function.update s.op o .suspended }
      rw [submit_eq]
      refine h.control rfl rfl rfl fun hexited => ?_
      exact stopped_update (h.exited hexited) rfl (by rw [ha]; rfl)
  | resume o => exact h.control rfl rfl rfl h.exited
  | post i res flags =>
      change Stopped (s.post i res flags)
      rw [post_eq]
      exact h.control rfl rfl rfl h.exited
  | loadRunning =>
      have hin : s.reaper ≠ .exited := by rw [ha]; exact nofun
      by_cases hrunning : s.running = true
      · refine h.reaperTo hin ?_ rfl rfl
        change (if s.running = true then ReaperPc.waiting else .exited) ≠ _
        rw [if_pos hrunning]
        exact nofun
      · have hexit := stopped_exit haccounts (hs.2.resolve_left hrunning)
        change Stopped { s with
          reaper := if s.running = true then .waiting else .exited }
        rw [if_neg hrunning]
        exact hexit
  | fatal => exact stopped_exit haccounts hs.2
  | interrupted | seen =>
      exact h.reaperTo (by rw [ha]; exact nofun) nofun rfl rfl
  | waitCqe e => exact h.reaperTo (by rw [ha.1]; exact nofun) nofun rfl rfl
  | process e =>
      change Stopped { s.process e with reaper := .processed }
      rw [process_eq]
      exact h.reaperTo (by rw [ha]; exact nofun) nofun rfl rfl
  | exchange =>
      refine h.closerTo rfl rfl rfl (fun hc => ?_) ?_
      · change (if s.running = true then CloserPc.exchanged else .returned) =
          .joined ∨ (if s.running = true then CloserPc.exchanged
            else .returned) = .returned at hc
        by_cases hrunning : s.running = true
        · rw [if_pos hrunning] at hc
          exact hc.elim nofun nofun
        · exact h.idle ha (Bool.eq_false_iff.mpr hrunning)
      · change (if s.running = true then CloserPc.exchanged else .returned) ≠
          .idle
        split <;> exact nofun
  | nopGetSqe =>
      rcases next_nopGetSqe_cases s command with ⟨q, hfree, hq, hnext⟩ | hnext
      all_goals
        rw [hnext]
        exact h.closerTo rfl rfl rfl (fun hc => hc.elim nofun nofun) nofun
  | nopPrep v =>
      exact h.closerTo rfl rfl rfl (fun hc => hc.elim nofun nofun) nofun
  | nopSubmit k =>
      change Stopped { s.submit k with closer := .joining }
      rw [submit_eq]
      exact h.closerTo rfl rfl rfl (fun hc => hc.elim nofun nofun) nofun
  | join => exact h.closerTo rfl rfl rfl (fun _ => ha.2) nofun
  | queueExit =>
      exact h.closerTo rfl rfl rfl (fun _ => h.closed (.inl ha)) nofun

theorem stopped_reachable
    (hs : (system command).ReachableWhere (StopsIdle command) s) :
    Stopped s := by
  refine hs.invariant_of (fun s => Stopped s)
    (fun s hs => (accounts_reachable (hs.mono fun _ _ hP => hP.1)).2) ?_
    fun s a hJ h ha hP => stopped_next h hJ ha hP
  rintro s ⟨sqe, rfl | rfl⟩
  · exact ⟨nofun, fun hc => hc.elim nofun nofun, fun _ => nofun⟩
  · exact ⟨fun _ _ => ⟨rfl, rfl⟩, fun _ => rfl, fun _ _ => rfl⟩

end Stopped

/-- When the ring has been shut down, the coroutine of every operation that
awaits was scheduled once, with its own result, in every run in which a submit
sends only entries that are prepared, the completion thread leaves its loop only
when no operation is under way, and no operation gets a slot after that. -/
theorem resumesOnce_of_returned [DecidableEq ο] (command : ο → Command)
    (s : State ο)
    (hs : (system command).ReachableWhere (StopsIdle command) s)
    (hreturned : s.closer = .returned) (o : ο) (ho : s.Awaits o) :
    s.ResumesOnce o := by
  have hdelivers := delivers_reachable (hs.mono fun _ _ hP => hP.1) o
  have hstopped := stopped_reachable hs
  have hprocessed := (hstopped.exited (hstopped.closed (.inr hreturned)) o).2
  have hscheduled := hdelivers.scheduled
  rcases ho with ho | ho
  · rw [ho] at hprocessed hscheduled
    have hpos : 0 < s.processed (.main o) := by
      rw [hprocessed]
      exact Nat.one_pos
    refine ⟨by rw [hscheduled, hprocessed]; rfl, ?_⟩
    rw [hdelivers.result hpos, Option.getD_some]
  · rw [ho] at hprocessed hscheduled
    refine ⟨by rw [hscheduled, hprocessed]; rfl, ?_⟩
    rw [hdelivers.unposted (by rw [ho]; rfl), hdelivers.refused ho]
    rfl

/-! ### Schedules -/

section Schedules

instance [DecidableEq ο] (s : State ο) (o : ο) : Decidable (Outstanding s o) :=
  inferInstanceAs (Decidable (_ ∨ _ ∈ _))

instance (s : State ο) (a : Action ο) [DecidableEq ο] :
    Decidable (SendsPrepared s a) := by
  induction a using Action.casesOn <;> dsimp only [SendsPrepared] <;>
    infer_instance

instance [DecidableEq ο] [Fintype ο] (command : ο → Command) (s : State ο)
    (a : Action ο) : Decidable (StopsIdle command s a) := by
  induction a using Action.casesOn <;> dsimp only [StopsIdle] <;> infer_instance

/-- One operation, which receives ten bytes. -/
def receives : Unit → Command :=
  fun _ => .recv 3 0 10

/-- The slots hold nothing yet. -/
def zeroed (ο : Type*) : State ο :=
  initialState fun _ => nopSqe ο

/-- The operation is submitted, and the completion thread waits. -/
def submits : List (Action Unit) :=
  [.loadRunning, .call (), .getSqe (), .prep () 0 none, .submit () 1]

/-- The completion thread processes the completion that is posted next. -/
def completes (e : Cqe Unit) : List (Action Unit) :=
  [.post 0 e.res e.flags, .waitCqe e, .process e, .seen, .loadRunning]

/-- The ring is shut down: its entry wakes the completion thread, which leaves
its loop. -/
def shutsDown (i : ℕ) : List (Action Unit) :=
  [.exchange, .nopGetSqe, .nopPrep 1, .nopSubmit 1, .post i 0 0,
    .waitCqe ⟨none, 0, 0⟩, .process ⟨none, 0, 0⟩, .seen, .loadRunning, .join,
    .queueExit]

/-- The ring is shut down after the operation has completed. -/
theorem resumesOnce_completes :
    ((system receives).after (zeroed Unit)
      (submits ++ (completes ⟨some (.main ()), 10, 0⟩ ++
        shutsDown 0))).ResumesOnce () :=
  resumesOnce_of_returned receives _
    (TransitionSystem.Executes.reachableWhere (.init ⟨_, .inl rfl⟩)
      (by decide)) (by decide) () (.inl (by decide))

/-- The ring is shut down while the operation is with the kernel: its coroutine
is never scheduled. -/
theorem not_forall_resumesOnce :
    ¬∀ (command : Unit → Command) (s : State Unit),
      (system command).Reachable s → s.closer = .returned →
        ∀ o, s.Awaits o → s.ResumesOnce o := by
  intro hall
  have hresumes := hall receives _ (TransitionSystem.Executes.reachable
    (s := zeroed Unit) (l := submits ++ shutsDown 1) (.init ⟨_, .inl rfl⟩)
    (by decide)) (by decide) () (.inl (by decide))
  exact absurd hresumes.once (by decide)

end Schedules

/-! ## Sends with a timeout -/

/-- The completion object is pointed to by a pending entry that nobody is about
to overwrite, by an entry with the kernel, or by a completion that is not
processed. -/
def State.PointsTo (s : State ο) (c : Completion ο) : Prop :=
  (∃ q ∈ s.ring, ∃ v ∈ q.pending, (∀ x, s.status v ≠ .held x) ∧
    (q.sqe v).userData = some c) ∨
  (∃ e ∈ s.inflight, e.userData = some c) ∨
  ∃ e, s.HasCqe e ∧ e.userData = some c

/-- A submit sends only entries that are prepared, no pair of slots is asked for
when one is free, and the coroutine of a send with a timeout is resumed only if
the send was refused or the completion of the timeout was processed. -/
def ResumesLast (command : ο → Command) (s : State ο) (a : Action ο) : Prop :=
  SendsPrepared s a ∧
    match a with
    | .getSqe o => (command o).linked = true →
        ∀ q ∈ s.ring, q.free.length ≠ 1
    | .resume o => (command o).linked = true →
        s.op o = .refused ∨ 0 < s.processed (.timeout o)
    | _ => True

/-- Every slot in the queue has been given out for an entry or is prepared. -/
def NoneStale (s : State ο) : Prop :=
  ∀ q ∈ s.ring, ∀ v ∈ q.pending, s.status v ≠ .stale

/-- A coroutine that was resumed was refused, or its completions are
processed. -/
def ResumedDone (command : ο → Command) (s : State ο) : Prop :=
  ∀ o, s.resumed o = true → s.op o = .refused ∨
    0 < s.processed (.main o) ∧
      ((command o).linked = true → 0 < s.processed (.timeout o))

section Timeouts

variable [DecidableEq ο] {command : ο → Command} {s s' : State ο}

omit [DecidableEq ο] in
theorem NoneStale.frame (h : NoneStale s) (hring : s'.ring = s.ring)
    (hstatus : s'.status = s.status) : NoneStale s' := by
  intro q hq v hv
  rw [hring] at hq
  rw [hstatus]
  exact h q hq v hv

omit [DecidableEq ο] in
theorem noneStale_hold {status : ℕ → SlotStatus ο}
    {q : SubmissionQueue (Sqe ο)}
    (h : ∀ v ∈ q.pending, status v ≠ .stale)
    (hfree : q.tail < q.head + q.capacity) (x : Option (Completion ο)) :
    ∀ v ∈ (q.advance hfree).pending,
      Function.update status q.tail (.held x) v ≠ .stale := by
  intro v hv
  by_cases htail : v = q.tail
  · rw [htail, Function.update_self]
    exact nofun
  · rw [Function.update_of_ne htail]
    rw [q.pending_advance, List.mem_append, List.mem_singleton] at hv
    exact h v (hv.resolve_right htail)

omit [DecidableEq ο] in
theorem NoneStale.prep (h : NoneStale s) (v : ℕ) (e : Sqe ο) :
    NoneStale (s.prep v e) := by
  intro q hq u hu
  obtain ⟨q', hq', rfl⟩ := Option.map_eq_some_iff.mp hq
  change Function.update s.status v .ready u ≠ .stale
  by_cases huv : u = v
  · rw [huv, Function.update_self]
    exact nofun
  · rw [Function.update_of_ne huv]
    exact h q' hq' u hu

omit [DecidableEq ο] in
theorem NoneStale.submit (h : NoneStale s) (k : ℕ) :
    NoneStale (s.submit k) := by
  cases hq : s.ring with
  | none =>
      rw [State.submit, hq]
      exact h
  | some q =>
      rw [State.submit, hq]
      rintro q' ⟨⟩ v hv
      rw [q.pending_submit] at hv
      exact h q hq v (List.mem_of_mem_drop hv)

theorem noneStale_next {a : Action ο} (h : NoneStale s)
    (hs : ResumesLast command s a) : NoneStale (next command s a) := by
  cases a with
  | call | resume | loadRunning | interrupted | fatal | waitCqe | seen
  | exchange | join => exact h.frame rfl rfl
  | getSqe o =>
      rcases next_getSqe_cases s command o with
        ⟨q, hfree, hq, -, hnext⟩ | ⟨q, hfree, hfree', hq, -, hnext⟩ |
          ⟨q, hfree, hq, hlinked, hone, -⟩ | hnext
      · rw [hnext]
        rintro q' ⟨⟩
        exact noneStale_hold (h q hq) hfree _
      · rw [hnext]
        rintro q' ⟨⟩
        exact noneStale_hold (noneStale_hold (h q hq) hfree _) hfree' _
      · exact absurd hone (hs.2 hlinked q hq)
      · rw [hnext]
        exact h.frame rfl rfl
  | prep o v w =>
      cases w with
      | none => exact (h.prep v _).frame rfl rfl
      | some w => exact ((h.prep v _).prep w _).frame rfl rfl
  | submit o k => exact (h.submit k).frame rfl rfl
  | post i res flags =>
      change NoneStale (s.post i res flags)
      rw [post_eq]
      exact h.frame rfl rfl
  | process e =>
      change NoneStale { s.process e with reaper := .processed }
      rw [process_eq]
      exact h.frame rfl rfl
  | nopGetSqe =>
      rcases next_nopGetSqe_cases s command with ⟨q, hfree, hq, hnext⟩ | hnext
      · rw [hnext]
        rintro q' ⟨⟩
        exact noneStale_hold (h q hq) hfree _
      · rw [hnext]
        exact h.frame rfl rfl
  | nopPrep v => exact (h.prep v _).frame rfl rfl
  | nopSubmit k => exact (h.submit k).frame rfl rfl
  | queueExit => exact nofun

/-- Completion objects stay filled in. -/
theorem processed_le_next (s : State ο) (a : Action ο) (c : Completion ο) :
    s.processed c ≤ (next command s a).processed c := by
  cases a with
  | call | resume | loadRunning | interrupted | fatal | waitCqe | seen
  | exchange | join | nopPrep | queueExit => exact le_rfl
  | getSqe o =>
      rcases next_getSqe_cases s command o with
        ⟨_, _, _, _, hnext⟩ | ⟨_, _, _, _, _, hnext⟩ |
          ⟨_, _, _, _, _, hnext⟩ | hnext
      all_goals
        exact le_of_eq (congrArg (fun t => t.processed c) hnext).symm
  | prep o v w => cases w <;> exact le_rfl
  | submit o k | nopSubmit k =>
      change _ ≤ (s.submit k).processed c
      rw [submit_eq]
  | post i res flags =>
      change _ ≤ (s.post i res flags).processed c
      rw [post_eq]
  | process e =>
      change _ ≤ (s.process e).processed c
      rw [processed_process]
      exact Nat.le_add_right ..
  | nopGetSqe =>
      rcases next_nopGetSqe_cases s command with ⟨_, _, _, hnext⟩ | hnext
      all_goals
        exact le_of_eq (congrArg (fun t => t.processed c) hnext).symm

/-- An operation that was refused stays so. -/
theorem op_next_of_refused {a : Action ο} (ha : Enabled s a) {o : ο}
    (ho : s.op o = .refused) : (next command s a).op o = .refused := by
  have hother : ∀ (d : ο) (p : OpPc), s.op d ≠ .refused →
      Function.update s.op d p o = .refused := by
    intro d p hd
    have hne : o ≠ d := by
      rintro rfl
      exact hd ho
    rw [Function.update_of_ne hne, ho]
  cases a with
  | resume | loadRunning | interrupted | fatal | waitCqe | seen
  | exchange | join | nopPrep | queueExit => exact ho
  | call d => exact hother d _ (by rw [ha]; exact nofun)
  | getSqe d =>
      have hd : s.op d ≠ .refused := by rw [ha]; exact nofun
      rcases next_getSqe_cases s command d with
        ⟨_, _, _, _, hnext⟩ | ⟨_, _, _, _, _, hnext⟩ |
          ⟨_, _, _, _, _, hnext⟩ | hnext
      all_goals
        rw [hnext]
        exact hother d _ hd
  | prep d v w =>
      cases w <;> exact hother d .prepared (by rw [ha]; exact nofun)
  | submit d k => exact hother d .suspended (by rw [ha]; exact nofun)
  | post i res flags =>
      change (s.post i res flags).op o = _
      rw [post_eq]
      exact ho
  | process e =>
      change (s.process e).op o = _
      rw [process_eq]
      exact ho
  | nopGetSqe =>
      rcases next_nopGetSqe_cases s command with ⟨_, _, _, hnext⟩ | hnext <;>
        rw [hnext] <;> exact ho
  | nopSubmit k =>
      change (s.submit k).op o = _
      rw [submit_eq]
      exact ho

theorem resumed_next {a : Action ο} {o : ο}
    (ho : (next command s a).resumed o = true) :
    s.resumed o = true ∨ a = .resume o := by
  cases a with
  | call | loadRunning | interrupted | fatal | waitCqe | seen
  | exchange | join | nopPrep | queueExit => exact .inl ho
  | getSqe d =>
      rcases next_getSqe_cases s command d with
        ⟨_, _, _, _, hnext⟩ | ⟨_, _, _, _, _, hnext⟩ |
          ⟨_, _, _, _, _, hnext⟩ | hnext
      all_goals
        rw [hnext] at ho
        exact .inl ho
  | prep d v w => cases w <;> exact .inl ho
  | submit d k | nopSubmit k =>
      change (s.submit k).resumed o = true at ho
      rw [submit_eq] at ho
      exact .inl ho
  | post i res flags =>
      change (s.post i res flags).resumed o = true at ho
      rw [post_eq] at ho
      exact .inl ho
  | process e =>
      change (s.process e).resumed o = true at ho
      rw [process_eq] at ho
      exact .inl ho
  | nopGetSqe =>
      rcases next_nopGetSqe_cases s command with ⟨_, _, _, hnext⟩ | hnext <;>
        rw [hnext] at ho <;> exact .inl ho
  | resume d =>
      by_cases hd : o = d
      · subst hd
        exact .inr rfl
      · change Function.update s.resumed d true o = true at ho
        rw [Function.update_of_ne hd] at ho
        exact .inl ho

theorem resumedDone_next {a : Action ο} (h : ResumedDone command s)
    (hdelivers : ∀ o, Delivers s o) (ha : Enabled s a)
    (hs : ResumesLast command s a) :
    ResumedDone command (next command s a) := by
  have hkeep : ∀ o, (s.op o = .refused ∨ 0 < s.processed (.main o) ∧
      ((command o).linked = true → 0 < s.processed (.timeout o))) →
        (next command s a).op o = .refused ∨
          0 < (next command s a).processed (.main o) ∧
            ((command o).linked = true →
              0 < (next command s a).processed (.timeout o)) := by
    intro o hdone
    rcases hdone with hrefused | ⟨hmain, htimeout⟩
    · exact .inl (op_next_of_refused ha hrefused)
    · exact .inr ⟨Nat.lt_of_lt_of_le hmain (processed_le_next ..),
        fun hlinked => Nat.lt_of_lt_of_le (htimeout hlinked)
          (processed_le_next ..)⟩
  intro o ho
  refine hkeep o ?_
  rcases resumed_next ho with hold | rfl
  · exact h o hold
  · by_cases hrefused : s.op o = .refused
    · exact .inl hrefused
    · have hpos := ha.1
      rw [(hdelivers o).scheduled, OpPc.refusals_eq_zero hrefused] at hpos
      exact .inr ⟨hpos, fun hlinked =>
        (hs.2 hlinked).resolve_left hrefused⟩

theorem resumedDone_reachable
    (hs : (system command).ReachableWhere (ResumesLast command) s) :
    NoneStale s ∧ ResumedDone command s := by
  refine hs.invariant_of (fun s => NoneStale s ∧ ResumedDone command s)
    (fun s hs o => delivers_reachable (hs.mono fun _ _ hP => hP.1) o) ?_
    fun s a hJ h ha hP => ⟨noneStale_next h.1 hP,
      resumedDone_next h.2 hJ ha hP⟩
  rintro s ⟨sqe, rfl | rfl⟩
  · refine ⟨?_, nofun⟩
    rintro q ⟨⟩
    exact nofun
  · exact ⟨nofun, nofun⟩

/-- An object that is pointed to is in the accounts. -/
theorem mem_entries_of_pointsTo (h : NoneStale s) {c : Completion ο}
    (hc : s.PointsTo c) : some c ∈ entries s := by
  rcases hc with ⟨q, hq, v, hv, hheld, hdata⟩ | ⟨e, he, hdata⟩ |
    ⟨e, he, hdata⟩
  · have hready : s.status v = .ready := by
      cases hstatus : s.status v with
      | stale => exact absurd hstatus (h q hq v hv)
      | held x => exact absurd hstatus (hheld x)
      | ready => rfl
    have hmem : some c ∈ s.readyData := by
      rw [readyData_of_some hq]
      refine List.mem_map.mpr ⟨v, List.mem_filter.mpr ⟨hv, ?_⟩, hdata⟩
      rw [hready]
      rfl
    simp [entries, hmem]
  · exact hdata ▸ mem_entries_of_inflight he
  · exact hdata ▸ mem_entries_of_cqe he

/-- A completion object is filled in at most once, and has then no entry. -/
theorem Accounts.not_mem (h : Accounts command s) {c : Completion ο}
    (hdone : issued command s c ≤ s.processed c) : some c ∉ entries s := by
  intro hmem
  have hpos := List.count_pos_iff.mpr hmem
  have haccount := h c
  omega

end Timeouts

/-- When the coroutine of a send with a timeout was resumed, nothing points to
its completion objects, in every run in which a submit sends only entries that
are prepared, no pair of slots is asked for when one is free, and the coroutine
is resumed only after the completion of the timeout was processed. -/
theorem not_pointsTo_of_resumed [DecidableEq ο] (command : ο → Command)
    (s : State ο)
    (hs : (system command).ReachableWhere (ResumesLast command) s) (o : ο)
    (hlinked : (command o).linked = true) (hresumed : s.resumed o = true) :
    ¬s.PointsTo (.main o) ∧ ¬s.PointsTo (.timeout o) := by
  obtain ⟨hstale, hdone⟩ := resumedDone_reachable hs
  have haccounts := (accounts_reachable (hs.mono fun _ _ hP => hP.1)).2
  have hle := (s.op o).issued_le
  have hissued : issued command s (.timeout o) = (s.op o).issued :=
    if_pos hlinked
  have hmain : issued command s (.main o) = (s.op o).issued := rfl
  have hprocessed : (s.op o).issued ≤ s.processed (.main o) ∧
      (s.op o).issued ≤ s.processed (.timeout o) := by
    rcases hdone o hresumed with hrefused | ⟨hpos, htimeout⟩
    · rw [hrefused]
      exact ⟨Nat.zero_le _, Nat.zero_le _⟩
    · exact ⟨le_trans hle hpos, le_trans hle (htimeout hlinked)⟩
  refine ⟨fun hpoints => ?_, fun hpoints => ?_⟩
  · exact haccounts.not_mem (hmain.le.trans hprocessed.1)
      (mem_entries_of_pointsTo hstale hpoints)
  · exact haccounts.not_mem (hissued.le.trans hprocessed.2)
      (mem_entries_of_pointsTo hstale hpoints)

/-! ### Schedules -/

section Schedules

instance (s : State ο) (a : Action ο) [DecidableEq ο]
    (command : ο → Command) : Decidable (ResumesLast command s a) := by
  induction a using Action.casesOn <;> dsimp only [ResumesLast] <;>
    infer_instance

/-- One operation, which sends ten bytes within a second. -/
def sendsWithin : Unit → Command :=
  fun _ => .sendTimeout 3 0 10 1000

/-- The send and its timeout are submitted, and the completion thread waits. -/
def submitsPair : List (Action Unit) :=
  [.loadRunning, .call (), .getSqe (), .prep () 0 (some 1), .submit () 2]

set_option maxRecDepth 2000 in
/-- The send has completed, its timeout is cancelled after that, and the
coroutine is resumed last. -/
theorem not_pointsTo_resumedLast :
    ¬((system sendsWithin).after (zeroed Unit)
        (submitsPair ++ (completes ⟨some (.main ()), 10, 0⟩ ++
          (completes ⟨some (.timeout ()), -125, 0⟩ ++
            [.resume ()])))).PointsTo (.main ()) ∧
      ¬((system sendsWithin).after (zeroed Unit)
        (submitsPair ++ (completes ⟨some (.main ()), 10, 0⟩ ++
          (completes ⟨some (.timeout ()), -125, 0⟩ ++
            [.resume ()])))).PointsTo (.timeout ()) :=
  not_pointsTo_of_resumed sendsWithin _
    (TransitionSystem.Executes.reachableWhere (.init ⟨_, .inl rfl⟩)
      (by decide)) () (by decide) (by decide)

/-- The coroutine is resumed when the completion of its send was processed,
while the entry of its timeout is still with the kernel. -/
theorem not_forall_not_pointsTo :
    ¬∀ (command : Unit → Command) (s : State Unit),
      (system command).Reachable s → ∀ o, (command o).linked = true →
        s.resumed o = true →
          ¬s.PointsTo (.main o) ∧ ¬s.PointsTo (.timeout o) := by
  intro hall
  have hnone := hall sendsWithin _ (TransitionSystem.Executes.reachable
    (s := zeroed Unit)
    (l := submitsPair ++
      (completes ⟨some (.main ()), 10, 0⟩ ++ [.resume ()]))
    (.init ⟨_, .inl rfl⟩) (by decide)) () (by decide) (by decide)
  refine hnone.2 (.inr (.inl ⟨⟨.linkTimeout (some (1, 0)),
    some (.timeout ()), false⟩, ?_, rfl⟩))
  decide

end Schedules

end IoUring
end Ethreads
