import Ethreads.IoUring.Model
import Mathlib.Data.List.Perm.Basic

/-!
# Where the entry of an operation is

An entry that an operation has prepared waits in the submission queue, is with
the kernel, waits as a completion, is in the hands of the completion thread, or
went with the ring, until the completion thread has filled in its completion
object.  This holds in runs in which a submit sends only entries that are
prepared.
-/

namespace Ethreads
namespace IoUring

variable {ο : Type*}

/-! ## Entries -/

/-- A submit sends only slots that somebody has prepared. -/
def SendsPrepared (s : State ο) : Action ο → Prop
  | .submit _ k | .nopSubmit k =>
      ∀ q ∈ s.ring, ∀ v ∈ q.pending.take k, s.status v = .ready
  | _ => True

/-- The completion in the hands of the completion thread. -/
def ReaperPc.data : ReaperPc ο → List (Option (Completion ο))
  | taken e => [e.userData]
  | _ => []

def OpPc.issued : OpPc → ℕ
  | prepared | suspended => 1
  | _ => 0

/-- How many entries carry the completion object. -/
def issued (command : ο → Command) (s : State ο) : Completion ο → ℕ
  | .main o => (s.op o).issued
  | .timeout o => if (command o).linked = true then (s.op o).issued else 0

variable [DecidableEq ο]

/-- The user data of the entries whose completion is not processed. -/
def entries (s : State ο) : List (Option (Completion ο)) :=
  s.readyData ++ s.inflight.map Sqe.userData ++ s.cq.map Cqe.userData ++
    s.reaper.data ++ s.lost

/-- Every entry is accounted for. -/
def Accounts (command : ο → Command) (s : State ο) : Prop :=
  ∀ c, (entries s).count (some c) + s.processed c = issued command s c

/-- The slots that were given out are in the queue, and beyond its tail nothing
is known. -/
def QueueOk (ring : Option (SubmissionQueue (Sqe ο)))
    (status : ℕ → SlotStatus ο) : Prop :=
  ∀ q, ring = some q → (∀ v, q.tail ≤ v → status v = .stale) ∧
    ∀ v x, status v = .held x → v ∈ q.pending

/-- The slots are those of the operations and of the thread that shuts down. -/
structure RingOk (command : ο → Command) (s : State ο) : Prop where
  queue : QueueOk s.ring s.status
  op : ∀ o v w, s.op o = .reserved v w →
    s.status v = .held (some (.main o)) ∧
      ∀ u, w = some u → s.status u = .held (some (.timeout o))
  linked : ∀ o v w, s.op o = .reserved v w →
    w.isSome = (command o).linked
  closer : ∀ v, s.closer = .holding v → s.status v = .held none

/-! ## The slots -/

section Slots

omit [DecidableEq ο]

variable {ring : Option (SubmissionQueue (Sqe ο))} {q : SubmissionQueue (Sqe ο)}
  {status : ℕ → SlotStatus ο}

theorem QueueOk.advance (h : QueueOk (some q) status)
    (hfree : q.tail < q.head + q.capacity) :
    QueueOk (some (q.advance hfree)) status := by
  rintro q' ⟨⟩
  obtain ⟨hstale, hheld⟩ := h q rfl
  refine ⟨fun v hv => hstale v (Nat.le_of_succ_le hv), fun v x hx => ?_⟩
  rw [q.pending_advance]
  exact List.mem_append_left _ (hheld v x hx)

theorem QueueOk.hold (h : QueueOk (some q) status)
    (hfree : q.tail < q.head + q.capacity) (x : Option (Completion ο)) :
    QueueOk (some (q.advance hfree))
      (Function.update status q.tail (.held x)) := by
  rintro q' ⟨⟩
  obtain ⟨hstale, hheld⟩ := h q rfl
  refine ⟨fun v hv => ?_, fun v y hy => ?_⟩
  · rw [Function.update_of_ne (Nat.ne_of_gt hv)]
    exact hstale v (Nat.le_of_succ_le hv)
  · rw [q.pending_advance]
    by_cases hv : v = q.tail
    · exact List.mem_append_right _ (List.mem_singleton.mpr hv)
    · rw [Function.update_of_ne hv] at hy
      exact List.mem_append_left _ (hheld v y hy)

theorem QueueOk.prep (h : QueueOk ring status) {v : ℕ}
    {x : Option (Completion ο)} (hv : status v = .held x) (e : Sqe ο) :
    QueueOk (ring.map fun q => q.prep v e)
      (Function.update status v .ready) := by
  intro q' hq'
  obtain ⟨q, hq, rfl⟩ := Option.map_eq_some_iff.mp hq'
  obtain ⟨hstale, hheld⟩ := h q hq
  have hlt := SubmissionQueue.lt_tail_of_mem_pending (hheld v x hv)
  refine ⟨fun u hu => ?_, fun u y hy => ?_⟩
  · rw [Function.update_of_ne (Nat.ne_of_gt (Nat.lt_of_lt_of_le hlt hu))]
    exact hstale u hu
  · by_cases hu : u = v
    · subst hu
      rw [Function.update_self] at hy
      cases hy
    · rw [Function.update_of_ne hu] at hy
      exact hheld u y hy

theorem QueueOk.submit (h : QueueOk (some q) status) {k : ℕ}
    (hready : ∀ v ∈ q.pending.take k, status v = .ready) :
    QueueOk (some (q.submit k).2) status := by
  rintro q' ⟨⟩
  obtain ⟨hstale, hheld⟩ := h q rfl
  refine ⟨hstale, fun v x hx => ?_⟩
  have hv := hheld v x hx
  rw [← List.take_append_drop k q.pending, List.mem_append] at hv
  rw [q.pending_submit]
  refine hv.resolve_left fun htake => ?_
  rw [hready v htake] at hx
  cases hx

/-- A slot whose status is another keeps its own. -/
theorem status_update {v u : ℕ} {x y z : SlotStatus ο}
    (hv : status v = x) (hu : status u = y) (hxy : x ≠ y) :
    Function.update status u z v = x := by
  have hne : v ≠ u := by
    rintro rfl
    exact hxy (hv.symm.trans hu)
  rw [Function.update_of_ne hne, hv]

end Slots

/-! ## The queue as a list of entries -/

/-- An element of the list joins the ones that a filter keeps. -/
theorem perm_map_filter {ν β : Type*} {l : List ν} (hl : l.Nodup) {v : ν}
    (hv : v ∈ l) {p p' : ν → Bool} {f f' : ν → β} (hp : p v = false)
    (hp' : p' v = true) (hne : ∀ u, u ≠ v → p' u = p u ∧ f' u = f u) :
    ((l.filter p').map f').Perm (f' v :: (l.filter p).map f) := by
  induction l with
  | nil => cases hv
  | cons u l ih =>
      obtain ⟨hu, hl⟩ := List.nodup_cons.mp hl
      by_cases huv : u = v
      · subst huv
        have hfilter : l.filter p' = l.filter p :=
          List.filter_congr fun w hw =>
            (hne w (ne_of_mem_of_not_mem hw hu)).1
        have hmap : (l.filter p).map f' = (l.filter p).map f :=
          List.map_congr_left fun w hw =>
            (hne w (ne_of_mem_of_not_mem (List.mem_of_mem_filter hw) hu)).2
        rw [List.filter_cons_of_pos hp', List.filter_cons_of_neg (by simp [hp]),
          List.map_cons, hfilter, hmap]
      · have hrest := ih hl ((List.mem_cons.mp hv).resolve_left (Ne.symm huv))
        obtain ⟨hpu, hfu⟩ := hne u huv
        by_cases hkeep : p u = true
        · rw [List.filter_cons_of_pos (hpu.trans hkeep),
            List.filter_cons_of_pos hkeep, List.map_cons, List.map_cons, hfu]
          exact (hrest.cons _).trans (.swap ..)
        · rw [List.filter_cons_of_neg (by rwa [hpu]),
            List.filter_cons_of_neg hkeep]
          exact hrest

section Ready

variable {s : State ο} {q : SubmissionQueue (Sqe ο)}

theorem readyData_of_some (hq : s.ring = some q) :
    s.readyData = (q.pending.filter fun v => s.status v = .ready).map
      fun v => (q.sqe v).userData := by
  rw [State.readyData, hq]

theorem readyData_congr {s' : State ο} (hring : s'.ring = s.ring)
    (hstatus : s'.status = s.status) : s'.readyData = s.readyData := by
  unfold State.readyData
  rw [hring, hstatus]

/-- A slot that is given out is not among the entries that are prepared. -/
theorem readyData_advance {s' : State ο} (hq : s.ring = some q)
    (hfree : q.tail < q.head + q.capacity)
    (hring : s'.ring = some (q.advance hfree))
    (htail : s'.status q.tail ≠ .ready)
    (hstatus : ∀ v, v ≠ q.tail → s'.status v = s.status v) :
    s'.readyData = s.readyData := by
  rw [readyData_of_some hq, readyData_of_some hring, q.pending_advance,
    List.filter_append, List.filter_cons_of_neg (by simpa using htail),
    List.filter_nil, List.append_nil]
  have hfilter : (q.pending.filter fun v => s'.status v = .ready) =
      q.pending.filter fun v => s.status v = .ready :=
    List.filter_congr fun v hv => by
      rw [hstatus v (Nat.ne_of_lt (SubmissionQueue.lt_tail_of_mem_pending hv))]
  rw [hfilter]
  rfl

theorem entries_prep (h : QueueOk s.ring s.status) {v : ℕ}
    {x : Option (Completion ο)} (hv : s.status v = .held x) (e : Sqe ο) :
    (entries (s.prep v e)).Perm (e.userData :: entries s) := by
  cases hq : s.ring with
  | none =>
      have hready : s.readyData = [] := by rw [State.readyData, hq]
      have hready' : (s.prep v e).readyData = [] := by
        simp [State.readyData, State.prep, hq]
      unfold entries
      rw [hready, hready']
      simp only [State.prep, hq, Option.isSome_none, Bool.false_eq_true,
        if_false]
      exact List.perm_middle
  | some q =>
      have hring : (s.prep v e).ring = some (q.prep v e) := by
        simp [State.prep, hq]
      have hlost : (s.prep v e).lost = s.lost := by
        simp [State.prep, hq]
      have hready : (s.prep v e).readyData.Perm
          (e.userData :: s.readyData) := by
        rw [readyData_of_some hq, readyData_of_some hring]
        have hmem : v ∈ q.pending := (h q hq).2 v x hv
        have hself : ((q.prep v e).sqe v).userData = e.userData := by
          simp [SubmissionQueue.prep]
        rw [← hself]
        refine perm_map_filter q.nodup_pending hmem ?_ ?_ fun u hu => ?_
        · simp [hv]
        · simp [State.prep]
        · simp [State.prep, SubmissionQueue.prep, Function.update_of_ne hu]
      unfold entries
      rw [hlost]
      exact (((hready.append_right _).append_right _).append_right
        _).append_right _

theorem entries_submit {k : ℕ}
    (hready : ∀ q, s.ring = some q →
      ∀ v ∈ q.pending.take k, s.status v = .ready) :
    (entries (s.submit k)).Perm (entries s) := by
  cases hq : s.ring with
  | none =>
      rw [State.submit, hq]
  | some q =>
      have hsubmit : s.submit k = { s with
          ring := some (q.submit k).2
          inflight := s.inflight ++ (q.submit k).1 } := by
        rw [State.submit, hq]
      have hbefore : s.readyData =
          (q.submit k).1.map Sqe.userData ++ (s.submit k).readyData := by
        rw [readyData_of_some hq, hsubmit,
          readyData_of_some (q := (q.submit k).2) rfl, q.pending_submit]
        nth_rewrite 1 [← List.take_append_drop k q.pending]
        rw [List.filter_append, List.map_append]
        congr 1
        rw [List.filter_eq_self.mpr fun v hv => by
          simpa using hready q hq v hv]
        exact (List.map_map ..).symm
      unfold entries
      rw [hbefore, hsubmit, List.map_append]
      refine List.Perm.append_right _ (List.Perm.append_right _
        (List.Perm.append_right _ ?_))
      rw [← List.append_assoc, List.append_assoc (List.map _ _)]
      exact List.perm_append_comm

end Ready

/-! ## What the functions of the service touch -/

section Fields

variable (s : State ο)

omit [DecidableEq ο] in
theorem submit_eq (k : ℕ) :
    s.submit k = { s with
      ring := (s.submit k).ring
      inflight := (s.submit k).inflight } := by
  unfold State.submit
  split <;> rfl

theorem process_eq (e : Cqe ο) :
    s.process e = { s with
      completion := (s.process e).completion
      scheduled := (s.process e).scheduled
      processed := (s.process e).processed } := by
  unfold State.process
  split
  · rfl
  · next c _ =>
      cases (s.completion c).handle <;> rfl

theorem post_eq (i : ℕ) (res : ℤ) (flags : ℕ) :
    s.post i res flags = { s with
      inflight := (s.post i res flags).inflight
      cq := (s.post i res flags).cq
      posted := (s.post i res flags).posted } := by
  unfold State.post
  split <;> rfl

/-- What a step of `get_sqe` or `get_sqe_pair` does: a slot is taken, or two
are, or the only free one is given away, or there is none. -/
theorem next_getSqe_cases (command : ο → Command) (o : ο) :
    (∃ q h, s.ring = some q ∧ (command o).linked = false ∧
      next command s (.getSqe o) = { s with
        ring := some (q.advance h)
        status := Function.update s.status q.tail (.held (some (.main o)))
        op := Function.update s.op o (.reserved q.tail none) }) ∨
    (∃ q h h', s.ring = some q ∧ (command o).linked = true ∧
      next command s (.getSqe o) = { s with
        ring := some ((q.advance h).advance h')
        status := Function.update
          (Function.update s.status q.tail (.held (some (.main o))))
          (q.advance h).tail (.held (some (.timeout o)))
        op := Function.update s.op o
          (.reserved q.tail (some (q.tail + 1))) }) ∨
    (∃ q h, s.ring = some q ∧ (command o).linked = true ∧
      q.free.length = 1 ∧
        next command s (.getSqe o) =
          { s with ring := some (q.advance h) }.refuse o) ∨
    next command s (.getSqe o) = s.refuse o := by
  by_cases hlinked : (command o).linked = true
  · rcases SubmissionQueue.getSqePair_cases s.ring with
      ⟨q, h, h', hq, hpair⟩ | ⟨q, h, hq, hone, hpair⟩ | hpair
    · refine .inr (.inl ⟨q, h, h', hq, hlinked, ?_⟩)
      simp only [next, if_pos hlinked, State.getSqePair, hpair]
      rfl
    · refine .inr (.inr (.inl ⟨q, h, hq, hlinked, hone, ?_⟩))
      simp only [next, if_pos hlinked, State.getSqePair, hpair]
    · refine .inr (.inr (.inr ?_))
      simp only [next, if_pos hlinked, State.getSqePair, hpair]
  · rcases SubmissionQueue.serviceGetSqe_cases s.ring with
      ⟨q, h, hq, hget⟩ | hget
    · refine .inl ⟨q, h, hq, Bool.eq_false_iff.mpr hlinked, ?_⟩
      simp only [next, if_neg hlinked, State.getSqe, hget]
      rfl
    · refine .inr (.inr (.inr ?_))
      simp only [next, if_neg hlinked, State.getSqe, hget]

/-- What a step of the shutdown to its entry does. -/
theorem next_nopGetSqe_cases (command : ο → Command) :
    (∃ q h, s.ring = some q ∧
      next command s .nopGetSqe = { s with
        ring := some (q.advance h)
        status := Function.update s.status q.tail (.held none)
        closer := .holding q.tail }) ∨
    next command s .nopGetSqe = { s with closer := .joining } := by
  rcases SubmissionQueue.serviceGetSqe_cases s.ring with
    ⟨q, h, hq, hget⟩ | hget
  · refine .inl ⟨q, h, hq, ?_⟩
    simp only [next, hget]
    rfl
  · refine .inr ?_
    simp only [next, hget]

end Fields

/-! ## The slots belong to those who have taken them -/

section RingOk

variable {command : ο → Command} {s s' : State ο}

omit [DecidableEq ο] in
/-- A step after which the slots of operations and of the shutdown are the same
or fewer. -/
theorem RingOk.frame (h : RingOk command s) (hqueue : QueueOk s'.ring s'.status)
    (hkeep : ∀ v x, s.status v = .held x → s'.status v = .held x)
    (hop : ∀ o v w, s'.op o = .reserved v w → s.op o = .reserved v w)
    (hcloser : ∀ v, s'.closer = .holding v → s.closer = .holding v) :
    RingOk command s' where
  queue := hqueue
  op o v w hpc := by
    obtain ⟨hv, hw⟩ := h.op o v w (hop o v w hpc)
    exact ⟨hkeep v _ hv, fun u hu => hkeep u _ (hw u hu)⟩
  linked o v w hpc := h.linked o v w (hop o v w hpc)
  closer v hpc := hkeep v _ (h.closer v (hcloser v hpc))

theorem reserved_of_update {op : ο → OpPc} {o : ο} {p : OpPc}
    (hp : ∀ v w, p ≠ .reserved v w) (o' : ο) (v : ℕ) (w : Option ℕ)
    (h : Function.update op o p o' = .reserved v w) :
    op o' = .reserved v w := by
  by_cases ho : o' = o
  · subst ho
    rw [Function.update_self] at h
    exact absurd h (hp v w)
  · rwa [Function.update_of_ne ho] at h

omit [DecidableEq ο] in
theorem ringOk_initialState (sqe : ℕ → Sqe ο) :
    RingOk command (initialState sqe) where
  queue _ _ := ⟨fun _ _ => rfl, nofun⟩
  op _ _ _ := nofun
  linked _ _ _ := nofun
  closer _ := nofun

omit [DecidableEq ο] in
/-- A slot that is given out is not the one beyond the tail. -/
theorem RingOk.keep_tail (h : RingOk command s)
    {q : SubmissionQueue (Sqe ο)} (hq : s.ring = some q)
    (x : SlotStatus ο) (v : ℕ) (y : Option (Completion ο))
    (hv : s.status v = .held y) :
    Function.update s.status q.tail x v = .held y :=
  status_update hv ((h.queue q hq).1 q.tail le_rfl) nofun

omit [DecidableEq ο] in
theorem RingOk.queue_some (h : RingOk command s)
    {q : SubmissionQueue (Sqe ο)} (hq : s.ring = some q) :
    QueueOk (some q) s.status := by
  rw [← hq]
  exact h.queue

theorem RingOk.take (h : RingOk command s) {o : ο}
    {ring : Option (SubmissionQueue (Sqe ο))} {status : ℕ → SlotStatus ο}
    (hqueue : QueueOk ring status)
    (hkeep : ∀ v x, s.status v = .held x → status v = .held x) {v : ℕ}
    {w : Option ℕ} (hv : status v = .held (some (.main o)))
    (hw : ∀ u, w = some u → status u = .held (some (.timeout o)))
    (hlinked : w.isSome = (command o).linked) :
    RingOk command { s with
      ring := ring
      status := status
      op := Function.update s.op o (.reserved v w) } where
  queue := hqueue
  op o' v' w' hpc := by
    change Function.update s.op o _ o' = _ at hpc
    by_cases ho : o' = o
    · subst ho
      rw [Function.update_self] at hpc
      cases hpc
      exact ⟨hv, hw⟩
    · rw [Function.update_of_ne ho] at hpc
      obtain ⟨hv', hw'⟩ := h.op o' v' w' hpc
      exact ⟨hkeep v' _ hv', fun u hu => hkeep u _ (hw' u hu)⟩
  linked o' v' w' hpc := by
    change Function.update s.op o _ o' = _ at hpc
    by_cases ho : o' = o
    · subst ho
      rw [Function.update_self] at hpc
      cases hpc
      exact hlinked
    · rw [Function.update_of_ne ho] at hpc
      exact h.linked o' v' w' hpc
  closer v' hpc := hkeep v' _ (h.closer v' hpc)

theorem ringOk_refuse (h : RingOk command s) (o : ο) :
    RingOk command (s.refuse o) :=
  h.frame h.queue (fun _ _ hv => hv) (reserved_of_update nofun)
    fun _ hv => hv

theorem ringOk_getSqe (h : RingOk command s) (o : ο) :
    RingOk command (next command s (.getSqe o)) := by
  rcases next_getSqe_cases s command o with
    ⟨q, hfree, hq, hlinked, hnext⟩ | ⟨q, hfree, hfree', hq, hlinked, hnext⟩ |
      ⟨q, hfree, hq, -, -, hnext⟩ | hnext
  · rw [hnext]
    refine h.take ((h.queue_some hq).hold hfree _) (h.keep_tail hq _)
      (Function.update_self ..) nofun hlinked.symm
  · have hqueue := (h.queue_some hq).hold hfree (some (.main o))
    have hne : q.tail ≠ (q.advance hfree).tail :=
      Nat.ne_of_lt (Nat.lt_succ_self _)
    rw [hnext]
    refine h.take (hqueue.hold hfree' _) (fun v x hv => ?_) ?_ ?_ hlinked.symm
    · exact status_update (h.keep_tail hq _ v x hv)
        ((hqueue _ rfl).1 _ le_rfl) nofun
    · rw [Function.update_of_ne hne, Function.update_self]
    · rintro u ⟨⟩
      exact Function.update_self ..
  · rw [hnext]
    refine ringOk_refuse ?_ o
    exact h.frame ((h.queue_some hq).advance hfree) (fun _ _ hv => hv)
      (fun _ _ _ hpc => hpc) fun _ hv => hv
  · rw [hnext]
    exact ringOk_refuse h o

theorem ringOk_nopGetSqe (h : RingOk command s) :
    RingOk command (next command s .nopGetSqe) := by
  rcases next_nopGetSqe_cases s command with ⟨q, hfree, hq, hnext⟩ | hnext
  · rw [hnext]
    refine ⟨(h.queue_some hq).hold hfree _, fun o v w hpc => ?_, h.linked, ?_⟩
    · obtain ⟨hv, hw⟩ := h.op o v w hpc
      exact ⟨h.keep_tail hq _ v _ hv,
        fun u hu => h.keep_tail hq _ u _ (hw u hu)⟩
    · rintro v ⟨⟩
      exact Function.update_self ..
  · rw [hnext]
    exact h.frame h.queue (fun _ _ hv => hv) (fun _ _ _ hpc => hpc) nofun

omit [DecidableEq ο] in
theorem queueOk_submit (h : QueueOk s.ring s.status) {k : ℕ}
    (hready : ∀ q, s.ring = some q →
      ∀ v ∈ q.pending.take k, s.status v = .ready) :
    QueueOk (s.submit k).ring (s.submit k).status := by
  cases hq : s.ring with
  | none =>
      rw [State.submit, hq]
      exact h
  | some q =>
      rw [State.submit, hq]
      rw [hq] at h
      exact h.submit (hready q hq)

omit [DecidableEq ο] in
theorem ringOk_submit (h : RingOk command s) {k : ℕ}
    (hready : ∀ q, s.ring = some q →
      ∀ v ∈ q.pending.take k, s.status v = .ready) :
    RingOk command (s.submit k) := by
  have hqueue := queueOk_submit h.queue hready
  rw [submit_eq] at hqueue ⊢
  exact h.frame hqueue (fun _ _ hv => hv) (fun _ _ _ hpc => hpc)
    fun _ hv => hv

omit [DecidableEq ο] in
theorem status_prep {v u : ℕ} {x y : Option (Completion ο)}
    (hv : s.status v = .held x) (hu : s.status u = .held y) (hxy : y ≠ x)
    (e : Sqe ο) : (s.prep v e).status u = .held y := by
  refine status_update hu hv fun heq => ?_
  cases heq
  exact hxy rfl

theorem ringOk_nopPrep (h : RingOk command s) {v : ℕ}
    (ha : s.closer = .holding v) :
    RingOk command (next command s (.nopPrep v)) where
  queue := h.queue.prep (h.closer v ha) _
  op o u w hpc := by
    obtain ⟨hu, hw⟩ := h.op o u w hpc
    exact ⟨status_prep (h.closer v ha) hu nofun (nopSqe ο),
      fun u' hu' =>
        status_prep (h.closer v ha) (hw u' hu') nofun (nopSqe ο)⟩
  linked := h.linked
  closer _ := nofun

/-- The slots that others hold when an operation prepares its own. -/
theorem prep_next (h : RingOk command s) {o : ο} {v : ℕ} {w : Option ℕ}
    (ha : s.op o = .reserved v w) :
    QueueOk (next command s (.prep o v w)).ring
        (next command s (.prep o v w)).status ∧
      ∀ u y, s.status u = .held y → y ≠ some (.main o) →
        y ≠ some (.timeout o) →
          (next command s (.prep o v w)).status u = .held y := by
  obtain ⟨hv, hw⟩ := h.op o v w ha
  have hqueue := h.queue.prep hv ((command o).sqe o)
  cases w with
  | none =>
      exact ⟨hqueue, fun u y hu hmain _ =>
        status_prep hv hu hmain ((command o).sqe o)⟩
  | some w =>
      have hw' := status_prep hv (hw w rfl) nofun ((command o).sqe o)
      exact ⟨hqueue.prep hw' _, fun u y hu hmain htimeout =>
        status_prep hw' (status_prep hv hu hmain _) htimeout
          ((command o).timeoutSqe o)⟩

theorem ringOk_prep (h : RingOk command s) {o : ο} {v : ℕ} {w : Option ℕ}
    (ha : s.op o = .reserved v w) :
    RingOk command (next command s (.prep o v w)) := by
  obtain ⟨hqueue, hkeep⟩ := prep_next h ha
  have hop : (next command s (.prep o v w)).op =
      Function.update s.op o .prepared := by
    cases w <;> rfl
  have hcloser : (next command s (.prep o v w)).closer = s.closer := by
    cases w <;> rfl
  have hother : ∀ o' v' w',
      (next command s (.prep o v w)).op o' = .reserved v' w' →
        o' ≠ o ∧ s.op o' = .reserved v' w' := by
    intro o' v' w' hpc
    rw [hop] at hpc
    by_cases ho : o' = o
    · subst ho
      rw [Function.update_self] at hpc
      cases hpc
    · rw [Function.update_of_ne ho] at hpc
      exact ⟨ho, hpc⟩
  refine ⟨hqueue, fun o' v' w' hpc => ?_, fun o' v' w' hpc => ?_,
    fun u hpc => ?_⟩
  · obtain ⟨ho, hpc⟩ := hother o' v' w' hpc
    obtain ⟨hv', hw'⟩ := h.op o' v' w' hpc
    refine ⟨hkeep v' _ hv' (by simpa using ho) nofun, fun u hu => ?_⟩
    exact hkeep u _ (hw' u hu) nofun (by simpa using ho)
  · exact h.linked o' v' w' (hother o' v' w' hpc).2
  · rw [hcloser] at hpc
    exact hkeep u _ (h.closer u hpc) nofun nofun

theorem ringOk_next {a : Action ο} (h : RingOk command s)
    (ha : Enabled s a) (hs : SendsPrepared s a) :
    RingOk command (next command s a) := by
  have hsame : ∀ v x, s.status v = .held x → s.status v = .held x :=
    fun _ _ hv => hv
  cases a with
  | call o =>
      exact h.frame h.queue hsame (reserved_of_update nofun) fun _ hv => hv
  | getSqe o => exact ringOk_getSqe h o
  | prep o v w => exact ringOk_prep h ha
  | submit o k =>
      exact (ringOk_submit h hs).frame (ringOk_submit h hs).queue
        (fun _ _ hv => hv)
        (by rw [submit_eq]; exact reserved_of_update nofun) fun _ hv => hv
  | post i res flags =>
      change RingOk command (s.post i res flags)
      rw [post_eq]
      exact h.frame h.queue hsame (fun _ _ _ hpc => hpc) fun _ hv => hv
  | process e =>
      change RingOk command { s.process e with reaper := .processed }
      rw [process_eq]
      exact h.frame h.queue hsame (fun _ _ _ hpc => hpc) fun _ hv => hv
  | resume | loadRunning | interrupted | fatal | waitCqe | seen =>
      exact h.frame h.queue hsame (fun _ _ _ hpc => hpc) fun _ hv => hv
  | exchange =>
      refine h.frame h.queue hsame (fun _ _ _ hpc => hpc) fun v hv => ?_
      change (if s.running = true then CloserPc.exchanged else .returned) =
        .holding v at hv
      split at hv <;> cases hv
  | nopGetSqe => exact ringOk_nopGetSqe h
  | nopPrep v => exact ringOk_nopPrep h ha
  | nopSubmit k =>
      exact (ringOk_submit h hs).frame (ringOk_submit h hs).queue
        (fun _ _ hv => hv) (fun _ _ _ hpc => hpc) nofun
  | join => exact h.frame h.queue hsame (fun _ _ _ hpc => hpc) nofun
  | queueExit =>
      exact h.frame nofun hsame (fun _ _ _ hpc => hpc) nofun

end RingOk

/-! ## The accounts -/

section Accounts

variable {command : ο → Command} {s s' : State ο}

omit [DecidableEq ο] in
theorem sqe_userData (o : ο) (c : Command) :
    (c.sqe o).userData = some (.main o) := by
  cases c <;> rfl

omit [DecidableEq ο] in
theorem timeoutSqe_userData (o : ο) {c : Command} (hc : c.linked = true) :
    (c.timeoutSqe o).userData = some (.timeout o) := by
  cases c with
  | sendTimeout => rfl
  | accept | recv | send => cases hc

theorem Accounts.of_perm (h : Accounts command s)
    (hentries : (entries s').Perm (entries s))
    (hprocessed : s'.processed = s.processed)
    (hop : ∀ o, (s'.op o).issued = (s.op o).issued) :
    Accounts command s' := by
  intro c
  have hissued : issued command s' c = issued command s c := by
    cases c <;> simp only [issued, hop]
  rw [hentries.count_eq, hprocessed, hissued]
  exact h c

omit [DecidableEq ο] in
theorem issued_update [DecidableEq ο] {op : ο → OpPc} {o : ο} {p : OpPc}
    (hp : p.issued = (op o).issued) (o' : ο) :
    (Function.update op o p o').issued = (op o').issued := by
  by_cases ho : o' = o
  · subst ho
    rw [Function.update_self, hp]
  · rw [Function.update_of_ne ho]

theorem accounts_of_idle (hentries : entries s = [])
    (hprocessed : ∀ c, s.processed c = 0) (hop : ∀ o, s.op o = .idle) :
    Accounts command s := by
  intro c
  rw [hentries, hprocessed]
  cases c <;> simp [issued, hop, OpPc.issued]

theorem entries_congr (hready : s'.readyData = s.readyData)
    (hinflight : s'.inflight = s.inflight) (hcq : s'.cq = s.cq)
    (hreaper : s'.reaper.data = s.reaper.data) (hlost : s'.lost = s.lost) :
    entries s' = entries s := by
  unfold entries
  rw [hready, hinflight, hcq, hreaper, hlost]

theorem entries_getSqe (h : RingOk command s) (o : ο) :
    entries (next command s (.getSqe o)) = entries s := by
  rcases next_getSqe_cases s command o with
    ⟨q, hfree, hq, -, hnext⟩ | ⟨q, hfree, hfree', hq, -, hnext⟩ |
      ⟨q, hfree, hq, -, -, hnext⟩ | hnext
  · rw [hnext]
    refine entries_congr (readyData_advance hq hfree rfl ?_ ?_) rfl rfl rfl rfl
    · simp
    · exact fun v hv => Function.update_of_ne hv ..
  · rw [hnext]
    refine entries_congr ?_ rfl rfl rfl rfl
    have hfirst : State.readyData { s with
        ring := some (q.advance hfree)
        status := Function.update s.status q.tail (.held (some (.main o))) } =
        s.readyData := by
      refine readyData_advance hq hfree rfl ?_ ?_
      · simp
      · exact fun v hv => Function.update_of_ne hv ..
    rw [← hfirst]
    refine readyData_advance (q := q.advance hfree) rfl hfree' rfl ?_ ?_
    · simp
    · exact fun v hv => Function.update_of_ne hv ..
  · rw [hnext]
    refine entries_congr (readyData_advance hq hfree rfl ?_ fun _ _ => rfl)
      rfl rfl rfl rfl
    change s.status q.tail ≠ .ready
    rw [(h.queue q hq).1 q.tail le_rfl]
    simp
  · rw [hnext]
    exact entries_congr rfl rfl rfl rfl rfl

theorem entries_nopGetSqe :
    entries (next command s .nopGetSqe) = entries s := by
  rcases next_nopGetSqe_cases s command with ⟨q, hfree, hq, hnext⟩ | hnext
  · rw [hnext]
    refine entries_congr (readyData_advance hq hfree rfl ?_ ?_) rfl rfl rfl rfl
    · simp
    · exact fun v hv => Function.update_of_ne hv ..
  · rw [hnext]
    exact entries_congr rfl rfl rfl rfl rfl

theorem entries_post (i : ℕ) (res : ℤ) (flags : ℕ) :
    (entries (s.post i res flags)).Perm (entries s) := by
  cases hi : s.inflight[i]? with
  | none => rw [State.post, hi]
  | some e =>
      obtain ⟨hlt, rfl⟩ := List.getElem?_eq_some_iff.mp hi
      have hperm := (List.getElem_cons_eraseIdx_perm hlt).map Sqe.userData
      rw [List.perm_iff_count]
      intro x
      have hcount := hperm.count_eq x
      rw [List.map_cons, List.count_cons] at hcount
      have hpost : s.post i res flags = { s with
          inflight := s.inflight.eraseIdx i
          cq := s.cq ++ [⟨s.inflight[i].userData, res, flags⟩]
          posted := (s.post i res flags).posted } := by
        rw [State.post, hi]
      have hready : (s.post i res flags).readyData = s.readyData := by
        rw [hpost]
        exact readyData_congr rfl rfl
      unfold entries
      rw [hready, hpost]
      simp only [List.map_append, List.map_cons, List.map_nil,
        List.count_append, List.count_cons, List.count_nil]
      omega

theorem entries_waitCqe {e : Cqe ο} (ha : Enabled s (.waitCqe e)) :
    (entries (next command s (.waitCqe e))).Perm (entries s) := by
  obtain ⟨hreaper, hhead⟩ := ha
  obtain ⟨rest, hcq⟩ := List.head?_eq_some_iff.mp hhead
  have hready : (next command s (.waitCqe e)).readyData = s.readyData :=
    readyData_congr rfl rfl
  rw [List.perm_iff_count]
  intro x
  unfold entries
  rw [hready]
  simp only [next, hcq, hreaper, ReaperPc.data, List.tail_cons, List.map_cons,
    List.count_append, List.count_cons, List.count_nil]
  omega

theorem entries_queueExit :
    (entries (next command s .queueExit)).Perm (entries s) := by
  have hready : (next command s .queueExit).readyData = [] := rfl
  rw [List.perm_iff_count]
  intro x
  unfold entries
  rw [hready]
  simp only [next, List.map_nil, List.count_append, List.count_nil]
  omega

theorem processed_process (e : Cqe ο) (c : Completion ο) :
    (s.process e).processed c =
      s.processed c + if e.userData = some c then 1 else 0 := by
  cases he : e.userData with
  | none => simp [State.process, he]
  | some d =>
      by_cases hc : c = d
      · subst hc
        simp [State.process, he]
      · simp [State.process, he, hc, Ne.symm hc]

theorem entries_process (command : ο → Command) {e : Cqe ο}
    (ha : s.reaper = .taken e) :
    (entries s).Perm
      (e.userData :: entries (next command s (.process e))) := by
  have hnext : next command s (.process e) =
      { s.process e with reaper := .processed } := rfl
  rw [process_eq] at hnext
  have hready : (next command s (.process e)).readyData = s.readyData := by
    rw [hnext]
    exact readyData_congr rfl rfl
  rw [List.perm_iff_count]
  intro x
  unfold entries
  rw [hready, hnext]
  simp only [ha, ReaperPc.data, List.count_append, List.count_cons,
    List.count_nil]
  omega

theorem accounts_process (h : Accounts command s) {e : Cqe ο}
    (ha : s.reaper = .taken e) :
    Accounts command (next command s (.process e)) := by
  intro c
  have hc := h c
  have hprocessed : (next command s (.process e)).processed c = _ :=
    processed_process e c
  have hissued : issued command (next command s (.process e)) c =
      issued command s c := by
    have hop : (next command s (.process e)).op = s.op := by
      change (s.process e).op = s.op
      rw [process_eq]
    cases c <;> simp only [issued, hop]
  rw [(entries_process command ha).count_eq, List.count_cons]
    at hc
  rw [hprocessed, hissued, ← hc]
  simp only [beq_iff_eq]
  omega

/-- The entries that an operation prepares. -/
def newEntries (command : ο → Command) (o : ο) :
    List (Option (Completion ο)) :=
  if (command o).linked = true then [some (.timeout o), some (.main o)]
  else [some (.main o)]

theorem issued_prepared {o : ο} (ha : (s.op o).issued = 0)
    (hop : s'.op = Function.update s.op o .prepared) (c : Completion ο) :
    issued command s' c =
      issued command s c + (newEntries command o).count (some c) := by
  unfold newEntries
  cases c with
  | main o' =>
      by_cases ho : o' = o
      · subst ho
        simp only [issued, hop, ha, Function.update_self]
        split <;> simp [OpPc.issued]
      · simp only [issued, hop, Function.update_of_ne ho]
        split <;> simp [Ne.symm ho]
  | timeout o' =>
      by_cases ho : o' = o
      · subst ho
        simp only [issued, hop, ha, Function.update_self]
        split <;> simp [OpPc.issued]
      · simp only [issued, hop, Function.update_of_ne ho]
        split <;> split <;> simp [Ne.symm ho]

theorem entries_prep_next (hring : RingOk command s) {o : ο} {v : ℕ}
    {w : Option ℕ} (ha : s.op o = .reserved v w) :
    (entries (next command s (.prep o v w))).Perm
      (newEntries command o ++ entries s) := by
  obtain ⟨hv, hw⟩ := hring.op o v w ha
  have hlinked := (hring.linked o v w ha).symm
  have hmain := entries_prep hring.queue hv ((command o).sqe o)
  rw [sqe_userData] at hmain
  cases w with
  | none =>
      rw [newEntries, if_neg (by rw [hlinked]; exact nofun)]
      exact hmain
  | some w =>
      have hw' := status_prep hv (hw w rfl) nofun ((command o).sqe o)
      have htimeout := entries_prep (s := s.prep v ((command o).sqe o))
        (hring.queue.prep hv _) hw' ((command o).timeoutSqe o)
      rw [Option.isSome_some] at hlinked
      rw [timeoutSqe_userData o hlinked] at htimeout
      rw [newEntries, if_pos hlinked]
      exact htimeout.trans (hmain.cons _)

theorem accounts_prep (hring : RingOk command s) (h : Accounts command s)
    {o : ο} {v : ℕ} {w : Option ℕ} (ha : s.op o = .reserved v w) :
    Accounts command (next command s (.prep o v w)) := by
  intro c
  have hc := h c
  have hop : (next command s (.prep o v w)).op =
      Function.update s.op o .prepared := by
    cases w <;> rfl
  have hprocessed : (next command s (.prep o v w)).processed =
      s.processed := by
    cases w <;> rfl
  have hissued : issued command (next command s (.prep o v w)) c =
      issued command s c + (newEntries command o).count (some c) :=
    issued_prepared (by rw [ha]; rfl) hop c
  rw [(entries_prep_next hring ha).count_eq, List.count_append, hprocessed,
    hissued]
  omega

theorem accounts_next {a : Action ο} (hring : RingOk command s)
    (h : Accounts command s) (ha : Enabled s a) (hs : SendsPrepared s a) :
    Accounts command (next command s a) := by
  cases a with
  | call o =>
      exact h.of_perm .rfl rfl (issued_update (by rw [ha]; rfl))
  | getSqe o =>
      refine h.of_perm (.of_eq (entries_getSqe hring o)) ?_ fun o' => ?_
      · rcases next_getSqe_cases s command o with
          ⟨_, _, _, _, hnext⟩ | ⟨_, _, _, _, _, hnext⟩ |
            ⟨_, _, _, _, _, hnext⟩ | hnext <;> rw [hnext] <;> rfl
      · have hop : ∀ p : OpPc, p.issued = 0 →
            (Function.update s.op o p o').issued = (s.op o').issued :=
          fun p hp => issued_update (by rw [ha, hp]; rfl) o'
        rcases next_getSqe_cases s command o with
          ⟨_, _, _, _, hnext⟩ | ⟨_, _, _, _, _, hnext⟩ |
            ⟨_, _, _, _, _, hnext⟩ | hnext <;> rw [hnext] <;> exact hop _ rfl
  | prep o v w => exact accounts_prep hring h ha
  | submit o k =>
      refine h.of_perm (entries_submit hs) ?_ fun o' => ?_
      · change (s.submit k).processed = _
        rw [submit_eq]
      · change (Function.update s.op o .suspended o').issued = _
        exact issued_update (by rw [ha]; rfl) o'
  | post i res flags =>
      refine h.of_perm (entries_post i res flags) ?_ fun _ => ?_
      · change (s.post i res flags).processed = _
        rw [post_eq]
      · change ((s.post i res flags).op _).issued = _
        rw [post_eq]
  | resume | exchange | join => exact h.of_perm .rfl rfl fun _ => rfl
  | loadRunning =>
      refine h.of_perm (.of_eq ?_) rfl fun _ => rfl
      refine entries_congr rfl rfl rfl ?_ rfl
      change ReaperPc.data (if s.running = true then .waiting else .exited) = _
      rw [ha]
      split <;> rfl
  | interrupted | fatal | seen =>
      refine h.of_perm (.of_eq ?_) rfl fun _ => rfl
      refine entries_congr rfl rfl rfl ?_ rfl
      rw [ha]
      rfl
  | waitCqe e => exact h.of_perm (entries_waitCqe ha) rfl fun _ => rfl
  | process e => exact accounts_process h ha
  | nopGetSqe =>
      refine h.of_perm (.of_eq entries_nopGetSqe) ?_ fun _ => ?_ <;>
        rcases next_nopGetSqe_cases s command with ⟨_, _, _, hnext⟩ | hnext <;>
          rw [hnext]
  | nopPrep v =>
      intro c
      have hperm := entries_prep hring.queue (hring.closer v ha) (nopSqe ο)
      have hcount : (entries (next command s (.nopPrep v))).count (some c) =
          (entries s).count (some c) := by
        refine (hperm.count_eq _).trans ?_
        simp [nopSqe]
      have hissued : issued command (next command s (.nopPrep v)) c =
          issued command s c := by
        cases c <;> rfl
      rw [hcount, hissued]
      exact h c
  | nopSubmit k =>
      refine h.of_perm (entries_submit hs) ?_ fun _ => ?_
      · change (s.submit k).processed = _
        rw [submit_eq]
      · change ((s.submit k).op _).issued = _
        rw [submit_eq]
  | queueExit => exact h.of_perm entries_queueExit rfl fun _ => rfl

end Accounts

/-- In a run in which a submit sends only entries that are prepared, the slots
belong to those who have taken them, and every entry is accounted for. -/
theorem accounts_reachable {command : ο → Command} {s : State ο}
    (hs : (system command).ReachableWhere SendsPrepared s) :
    RingOk command s ∧ Accounts command s := by
  refine hs.invariant (fun s => RingOk command s ∧ Accounts command s) ?_
    fun s a h ha hP => ⟨ringOk_next h.1 ha hP,
      accounts_next h.1 h.2 ha hP⟩
  rintro s ⟨sqe, rfl | rfl⟩
  · exact ⟨ringOk_initialState sqe,
      accounts_of_idle rfl (fun _ => rfl) fun _ => rfl⟩
  · refine ⟨(ringOk_initialState sqe).frame nofun (fun _ _ hv => hv)
      (fun _ _ _ hpc => hpc) fun _ hv => hv, ?_⟩
    exact accounts_of_idle rfl (fun _ => rfl) fun _ => rfl

end IoUring
end Ethreads
