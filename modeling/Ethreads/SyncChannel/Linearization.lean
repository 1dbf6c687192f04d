import Ethreads.Support.Linearizability
import Ethreads.SyncChannel.Fifo

/-!
# The channel as a sequential queue

To its callers `sync_channel` is a queue that can be closed: each call takes
effect at once, at some moment between its call and its return.

A receive takes effect when it looks at the buffer, a refused or expired call
when it finds out, and `close` with its store to `closed_`.  A send takes
effect when it loads `closed_` and finds the channel open, not when it pushes:
a `close` in between is already too late to refuse the value.  From this load
to the push the sender holds the mutex, so that nobody can tell the
difference.
-/

namespace Ethreads
namespace SyncChannel

open SequentialObject (HistoryEvent Status AtomicState)

/-! ## The sequential queue -/

/-- The values of a channel, and whether it was closed. -/
structure Queue (T : Type*) where
  values : List T
  closed : Bool
  deriving DecidableEq, Repr

/-- There is room for one more value beside `n` others. -/
def BoundednessPolicy.hasRoom : BoundednessPolicy → ℕ → Bool
  | bounded m, n => decide (n < m)
  | unbounded, _ => true

/-- What an operation may return and what it leaves of the queue. -/
inductive QueueStep {T : Type*} (c : Config) :
    Op T → Queue T → Outcome T → Queue T → Prop
  | accept (k : SendKind) (v : T) (l : List T) :
      c.policy.hasRoom l.length = true → l.length < c.dequeMaxSize →
        QueueStep c (.send k v) ⟨l, false⟩ k.outcomeSent ⟨l ++ [v], false⟩
  | tooLong (k : SendKind) (v : T) (l : List T) :
      c.policy.hasRoom l.length = true → c.dequeMaxSize ≤ l.length →
        QueueStep c (.send k v) ⟨l, false⟩
          (.threw "cannot create std::deque larger than max_size()")
          ⟨l, false⟩
  | full (k : SendKind) (v : T) (l : List T) :
      k ≠ .send → c.policy.hasRoom l.length = false →
        QueueStep c (.send k v) ⟨l, false⟩ (.flag false) ⟨l, false⟩
  | refuse (k : SendKind) (v : T) (l : List T) :
      QueueStep c (.send k v) ⟨l, true⟩ k.outcomeClosed ⟨l, true⟩
  | deliver (k : ReceiveKind) (v : T) (l : List T) (closed : Bool) :
      QueueStep c (.receive k) ⟨v :: l, closed⟩ (k.outcomeReceived v)
        ⟨l, closed⟩
  | drained (k : ReceiveKind) :
      QueueStep c (.receive k) ⟨[], true⟩ k.outcomeEmpty ⟨[], true⟩
  | nothingYet :
      QueueStep c (.receive .tryReceive) ⟨[], false⟩ (.optional none)
        ⟨[], false⟩
  | notInTime :
      QueueStep c (.receive .receiveFor) ⟨[], false⟩ (.result .timeout none)
        ⟨[], false⟩
  | close (l : List T) (closed : Bool) :
      QueueStep c .close ⟨l, closed⟩ .returned ⟨l, true⟩

def queueObject (c : Config) (τ T : Type*) :
    SequentialObject τ (Queue T) (Op T) (Outcome T) where
  Step _ := QueueStep c

def Action.visible {τ T : Type*} :
    Action τ T → Option (HistoryEvent τ (Op T) (Outcome T))
  | call t op => some (.call t op)
  | unlock t op out => some (.ret t op out)
  | _ => none

/-! ## Reading the program points -/

section Reading

variable {τ T : Type*}

/-- How a push beside `n` values will end. -/
def pushOutcome (c : Config) (n : ℕ) (k : SendKind) : Outcome T :=
  if k = .trySend ∧ c.policy.hasRoom n = false then .flag false
  else if n < c.dequeMaxSize then k.outcomeSent
  else .threw "cannot create std::deque larger than max_size()"

/-- The value that a thread is about to push beside `n` others. -/
def Pc.pending (c : Config) (n : ℕ) : Pc T → List T
  | push k v =>
      if (k = .trySend ∧ c.policy.hasRoom n = false) ∨ c.dequeMaxSize ≤ n
      then [] else [v]
  | _ => []

def Pc.status (c : Config) (n : ℕ) : Pc T → Status (Op T) (Outcome T)
  | idle => .idle
  | storeClosed => .called .close
  | lock .close => .performed .close .returned
  | lock op | test op _ | block op | waiting op | notified op | woken op =>
      .called op
  | checkClosed k v => .called (.send k v)
  | push k v => .performed (.send k v) (pushOutcome c n k)
  | take k => .called (.receive k)
  | notifyOne _ op out | unlock op out => .performed op out
  | notifyAll _ => .performed .close .returned

/-- The value that the holder of the mutex is about to push. -/
def held (c : Config) (s : State τ T) : List T :=
  match s.mutex with
  | some t => (s.pc t).pending c s.buffer.length
  | none => []

/-- The queue that the callers see. -/
def queue (c : Config) (s : State τ T) : Queue T where
  values := s.buffer ++ held c s
  closed := s.closed

/-- The state of the atomic queue that a state of the channel stands for. -/
def reading (c : Config) (s : State τ T) :
    AtomicState τ (Queue T) (Op T) (Outcome T) where
  data := queue c s
  status t := (s.pc t).status c s.buffer.length

theorem hasRoom_length (c : Config) (s : State τ T) :
    c.policy.hasRoom s.buffer.length = canSend c s := by
  unfold BoundednessPolicy.hasRoom canSend
  cases c.policy <;> rfl

theorem held_of_free {c : Config} {s : State τ T} (h : s.mutex = none) :
    held c s = [] := by
  unfold held
  rw [h]

theorem held_of_holder {c : Config} {s : State τ T} {t : τ}
    (h : s.mutex = some t) :
    held c s = (s.pc t).pending c s.buffer.length := by
  unfold held
  rw [h]

theorem Pc.pending_of_ne_push {c : Config} {n : ℕ} {p : Pc T}
    (h : ∀ k v, p ≠ .push k v) : p.pending c n = [] := by
  cases p with
  | push k v => exact absurd rfl (h k v)
  | _ => rfl

theorem Pc.pending_of_arrivesBy {c : Config} {n : ℕ} {a : Action τ T}
    {p : Pc T} (h : p.ArrivesBy a) (ha : ∀ t k v, a ≠ .loadOpen t k v) :
    p.pending c n = [] := by
  refine Pc.pending_of_ne_push fun k v => ?_
  rintro rfl
  exact ha _ _ _ h

/-- Only a push depends on the length of the buffer. -/
theorem Pc.status_congr {c : Config} {n m : ℕ} {p : Pc T}
    (h : p.holdsMutex = true → n = m) : p.status c n = p.status c m := by
  cases p with
  | push k v => rw [h rfl]
  | lock op => cases op <;> rfl
  | _ => rfl

theorem status_afterCall (c : Config) (n : ℕ) (op : Op T) :
    (afterCall op).status c n = .called op := by
  cases op <;> rfl

theorem status_afterWait {c : Config} {n : ℕ} {op : Op T}
    (h : op ≠ .close) : (afterWait op).status c n = .called op := by
  cases op with
  | close => exact absurd rfl h
  | _ => rfl

theorem status_afterLock (c : Config) (n : ℕ) (op : Op T) :
    (afterLock c op).status c n = (Pc.lock op).status c n := by
  cases op with
  | send k v =>
      cases k <;> by_cases h : c.policy.isBounded = true <;>
        simp [afterLock, h, Pc.status]
  | receive k => cases k <;> rfl
  | close => rfl

theorem status_afterTake (c : Config) (n : ℕ) (k : ReceiveKind) (v : T) :
    (afterTake c k v).status c n =
      .performed (.receive k) (k.outcomeReceived v) := by
  by_cases h : c.policy.isBounded = true <;> simp [afterTake, h, Pc.status]

theorem status_afterNotifyAll (c : Config) (n : ℕ) (x : CondVar) :
    (afterNotifyAll x : Pc T).status c n = .performed .close .returned := by
  cases x <;> rfl

end Reading

/-! ## What a step does to the queue -/

section Steps

variable {τ T : Type*} [DecidableEq τ] {c : Config} {s : State τ T}
  {a : Action τ T}

theorem mutex_next (c : Config) (s : State τ T) (a : Action τ T) :
    (next c s a).mutex = s.mutex ∨ (next c s a).mutex = none ∨
      (next c s a).mutex = some a.thread := by
  cases a with
  | lock t op => exact Or.inr (Or.inr rfl)
  | relock t op e => exact Or.inr (Or.inr rfl)
  | wait t op => exact Or.inr (Or.inl rfl)
  | unlock t op out => exact Or.inr (Or.inl rfl)
  | _ => exact Or.inl rfl

theorem mutex_next_of_outside (ha : Enabled c s a)
    (hout : (s.pc a.thread).holdsMutex = false) :
    (next c s a).mutex = s.mutex ∨ s.mutex = none := by
  cases a with
  | lock t op => exact Or.inr ha.2
  | relock t op e => exact Or.inr ha.2.1
  | wait t op =>
      rw [show s.pc (Action.wait t op).thread = .block op from ha] at hout
      cases hout
  | unlock t op out =>
      rw [show s.pc (Action.unlock t op out).thread = .unlock op out from ha]
        at hout
      cases hout
  | _ => exact Or.inl rfl

/-- The thread that takes a step is not about to push after it, unless it has
just found the channel open. -/
theorem held_next_self (ha : ∀ t k v, a ≠ .loadOpen t k v)
    (hmutex : (next c s a).mutex = none ∨
      (next c s a).mutex = some a.thread) : held c (next c s a) = [] := by
  rcases hmutex with hfree | hholder
  · exact held_of_free hfree
  · rw [held_of_holder hholder]
    exact Pc.pending_of_arrivesBy (arrivesBy_next c s a) ha

/-- The value about to be pushed does not change in the steps of others. -/
theorem held_next_of_outside (hwf : WellFormed c s) (ha : Enabled c s a)
    (hout : (s.pc a.thread).holdsMutex = false)
    (hmutex : (next c s a).mutex = s.mutex) :
    held c (next c s a) = held c s := by
  cases hm : s.mutex with
  | none =>
      rw [held_of_free hm]
      exact held_of_free (hmutex.trans hm)
  | some u =>
      have hin : (s.pc u).holdsMutex = true := (hwf.exclusive u).mpr hm
      have hu : u ≠ a.thread := by
        rintro rfl
        rw [hin] at hout
        cases hout
      have hpc : (next c s a).pc u = s.pc u := by
        rcases next_pc_of_ne ha hu with hpc | ⟨op, hold, -⟩
        · exact hpc
        · rw [hold] at hin
          cases hin
      rw [held_of_holder hm, held_of_holder (hmutex.trans hm), hpc,
        next_buffer ha hout]

theorem held_next (hwf : WellFormed c s) (ha : Enabled c s a)
    (hopen : ∀ t k v, a ≠ .loadOpen t k v)
    (hpush : ∀ k v, s.pc a.thread ≠ .push k v) :
    held c (next c s a) = held c s := by
  by_cases hin : (s.pc a.thread).holdsMutex = true
  · have hm := (hwf.exclusive a.thread).mp hin
    rw [held_of_holder hm, Pc.pending_of_ne_push hpush]
    apply held_next_self hopen
    rcases mutex_next c s a with hmutex | hmutex
    · exact Or.inr (hmutex.trans hm)
    · exact hmutex
  · have hout := Bool.eq_false_iff.mpr hin
    rcases mutex_next_of_outside ha hout with hmutex | hfree
    · exact held_next_of_outside hwf ha hout hmutex
    · rw [held_of_free hfree]
      apply held_next_self hopen
      rcases mutex_next c s a with hmutex | hmutex
      · exact Or.inl (hmutex.trans hfree)
      · exact hmutex

theorem status_next_of_ne (hwf : WellFormed c s) (ha : Enabled c s a) {u : τ}
    (hu : u ≠ a.thread) :
    ((next c s a).pc u).status c (next c s a).buffer.length =
      (s.pc u).status c s.buffer.length := by
  have hbuffer : (s.pc u).holdsMutex = true →
      (next c s a).buffer.length = s.buffer.length := by
    intro hin
    rw [next_buffer ha (hwf.exclusive.outside_of_ne hin (Ne.symm hu))]
  rcases next_pc_of_ne ha hu with hpc | ⟨op, hold, hnew⟩
  · rw [hpc]
    exact Pc.status_congr hbuffer
  · rw [hold, hnew]
    rfl

/-- The state of the atomic queue after a step differs in the queue and in
where the thread of the step stands. -/
theorem reading_next (hwf : WellFormed c s) (ha : Enabled c s a)
    {q : Queue T} {p : Status (Op T) (Outcome T)}
    (hqueue : queue c (next c s a) = q)
    (hstatus : ((next c s a).pc a.thread).status c
      (next c s a).buffer.length = p) :
    reading c (next c s a) =
      { data := q
        status := Function.update (reading c s).status a.thread p } := by
  unfold reading
  rw [hqueue]
  congr 1
  funext u
  by_cases hu : u = a.thread
  · subst hu
    rw [Function.update_self]
    exact hstatus
  · rw [Function.update_of_ne hu]
    exact status_next_of_ne hwf ha hu

theorem reading_same (hwf : WellFormed c s) (ha : Enabled c s a)
    (hqueue : queue c (next c s a) = queue c s)
    (hstatus : ((next c s a).pc a.thread).status c
      (next c s a).buffer.length =
        (s.pc a.thread).status c s.buffer.length) :
    reading c (next c s a) = reading c s := by
  rw [reading_next hwf ha hqueue hstatus]
  have hself : Function.update (reading c s).status a.thread
      ((s.pc a.thread).status c s.buffer.length) = (reading c s).status :=
    Function.update_eq_self _ _
  rw [hself]
  rfl

theorem queue_next (hwf : WellFormed c s) (ha : Enabled c s a)
    (hopen : ∀ t k v, a ≠ .loadOpen t k v)
    (hpush : ∀ k v, s.pc a.thread ≠ .push k v)
    (hbuffer : (next c s a).buffer = s.buffer) :
    queue c (next c s a) =
      { values := s.buffer ++ held c s, closed := (next c s a).closed } := by
  unfold queue
  rw [held_next hwf ha hopen hpush, hbuffer]

omit [DecidableEq τ] in
/-- What the holder of the mutex sees of the queue, unless it pushes. -/
theorem queue_of_inside (hwf : WellFormed c s) {t : τ} {p : Pc T}
    (hpc : s.pc t = p) (hin : p.holdsMutex = true)
    (hpush : ∀ k v, p ≠ .push k v) :
    queue c s = { values := s.buffer, closed := s.closed } := by
  have hm : s.mutex = some t := by
    apply (hwf.exclusive t).mp
    rw [hpc]
    exact hin
  unfold queue
  rw [held_of_holder hm, hpc, Pc.pending_of_ne_push hpush, List.append_nil]

/-! ## Every step is a step of the atomic queue -/

/-- A step that can be read as a step of the atomic queue, or as none. -/
def Reads (c : Config) (s : State τ T) (a : Action τ T) : Prop :=
  (queueObject c τ T).Moves ⟨[], false⟩ (reading c s) (reading c (next c s a))
    a.visible

theorem reads_hidden (hwf : WellFormed c s) (ha : Enabled c s a)
    (hvisible : a.visible = none)
    (hqueue : queue c (next c s a) = queue c s)
    (hstatus : ((next c s a).pc a.thread).status c
      (next c s a).buffer.length =
        (s.pc a.thread).status c s.buffer.length) : Reads c s a := by
  unfold Reads
  rw [hvisible]
  exact .refl (reading_same hwf ha hqueue hstatus)

theorem reads_perform (hwf : WellFormed c s) (ha : Enabled c s a)
    (hvisible : a.visible = none) {op : Op T} {r : Outcome T} {q : Queue T}
    (hcalled : (s.pc a.thread).status c s.buffer.length = .called op)
    (hstep : QueueStep c op (queue c s) r q)
    (hqueue : queue c (next c s a) = q)
    (hstatus : ((next c s a).pc a.thread).status c
      (next c s a).buffer.length = .performed op r) : Reads c s a := by
  unfold Reads
  rw [hvisible]
  exact SequentialObject.Moves.of_step (b := .perform a.thread op r q)
    ⟨hcalled, hstep⟩ (reading_next hwf ha hqueue hstatus)

omit [DecidableEq τ] in
/-- The result of a push is known before it. -/
theorem queueStep_loadOpen {k : SendKind} {v : T}
    (hok : (Pc.push k v).Ok c s) :
    QueueStep c (.send k v) ⟨s.buffer, false⟩
      (pushOutcome c s.buffer.length k)
      ⟨s.buffer ++ (Pc.push k v).pending c s.buffer.length, false⟩ := by
  unfold pushOutcome Pc.pending
  by_cases hroom : c.policy.hasRoom s.buffer.length = true
  · by_cases hlt : s.buffer.length < c.dequeMaxSize
    · have haccept := QueueStep.accept k v s.buffer hroom hlt
      simpa [hroom, hlt, not_le.mpr hlt] using haccept
    · have hlong := QueueStep.tooLong k v s.buffer hroom (not_lt.mp hlt)
      simpa [hroom, hlt, not_lt.mp hlt] using hlong
  · have hfull := Bool.eq_false_iff.mpr hroom
    obtain rfl : k = .trySend := by
      refine hok.resolve_right fun hsend => ?_
      rw [hasRoom_length] at hroom
      exact hroom hsend
    have hrefused := QueueStep.full .trySend v s.buffer (by simp) hfull
    simpa [hfull] using hrefused

theorem reads_loadOpen (hwf : WellFormed c s) {t : τ} {k : SendKind} {v : T}
    (ha : Enabled c s (.loadOpen t k v)) : Reads c s (.loadOpen t k v) := by
  have hpc : s.pc t = .checkClosed k v := ha.1
  have hnext : (next c s (.loadOpen t k v)).pc t = .push k v :=
    Function.update_self _ _ _
  have hok := (wellFormed_next hwf ha).ok t
  rw [hnext] at hok
  have hm : s.mutex = some t := by
    apply (hwf.exclusive t).mp
    rw [hpc]
    rfl
  have hqueue : queue c s = ⟨s.buffer, false⟩ := by
    rw [queue_of_inside hwf hpc rfl (by simp), ha.2]
  have hcalled : (s.pc t).status c s.buffer.length = .called (.send k v) := by
    rw [hpc]
    rfl
  have hstep : QueueStep c (.send k v) (queue c s)
      (pushOutcome c s.buffer.length k)
      ⟨s.buffer ++ (Pc.push k v).pending c s.buffer.length, false⟩ := by
    rw [hqueue]
    exact queueStep_loadOpen hok
  refine reads_perform hwf ha rfl hcalled hstep ?_ ?_
  · have hholder : (next c s (.loadOpen t k v)).mutex = some t := hm
    have hclosed : (next c s (.loadOpen t k v)).closed = false := ha.2
    unfold queue
    rw [held_of_holder hholder, hnext, hclosed]
    rfl
  · rw [show (next c s (.loadOpen t k v)).pc (Action.loadOpen t k v).thread =
      _ from hnext]
    rfl

/-- The queue already holds the value that is pushed. -/
theorem reads_pushBack (hwf : WellFormed c s) {t : τ} {k : SendKind} {v : T}
    (ha : Enabled c s (.pushBack t k v)) : Reads c s (.pushBack t k v) := by
  obtain ⟨hpc, hroom, hlt⟩ := ha
  have hm : s.mutex = some t := by
    apply (hwf.exclusive t).mp
    rw [hpc]
    rfl
  have hroom' : ¬(k = .trySend ∧ c.policy.hasRoom s.buffer.length = false) := by
    rintro ⟨hk, hfull⟩
    rw [hasRoom_length, hroom hk] at hfull
    cases hfull
  refine reads_hidden hwf ⟨hpc, hroom, hlt⟩ rfl ?_ ?_
  · have hheld : held c (next c s (.pushBack t k v)) = [] :=
      held_next_self (by simp) (Or.inr hm)
    have hpending : held c s = [v] := by
      rw [held_of_holder hm, hpc]
      exact if_neg (not_or.mpr ⟨hroom', not_le.mpr hlt⟩)
    unfold queue
    rw [hheld, hpending, List.append_nil]
    rfl
  · have hnext : (next c s (.pushBack t k v)).pc t =
        .notifyOne .cv (.send k v) k.outcomeSent := Function.update_self _ _ _
    have hout :
        pushOutcome c s.buffer.length k = (k.outcomeSent : Outcome T) := by
      unfold pushOutcome
      rw [if_neg hroom', if_pos hlt]
    rw [show (next c s (.pushBack t k v)).pc (Action.pushBack t k v).thread =
      _ from hnext, show s.pc (Action.pushBack t k v).thread = _ from hpc]
    exact congrArg (Status.performed (Op.send k v)) hout.symm

/-- A push that fails leaves the queue as it is. -/
theorem reads_refusedPush (hwf : WellFormed c s) (ha : Enabled c s a)
    {k : SendKind} {v : T} {out : Outcome T}
    (hpc : s.pc a.thread = .push k v)
    (hnext : (next c s a).pc a.thread = .unlock (.send k v) out)
    (hbuffer : (next c s a).buffer = s.buffer)
    (hclosed : (next c s a).closed = s.closed)
    (hmutex : (next c s a).mutex = s.mutex) (hvisible : a.visible = none)
    (hpending : (Pc.push k v).pending c s.buffer.length = [])
    (hout : pushOutcome c s.buffer.length k = out) : Reads c s a := by
  have hm : s.mutex = some a.thread := by
    apply (hwf.exclusive a.thread).mp
    rw [hpc]
    rfl
  refine reads_hidden hwf ha hvisible ?_ ?_
  · unfold queue
    rw [held_of_holder hm, held_of_holder (hmutex.trans hm), hpc, hnext,
      hbuffer, hclosed, hpending]
    rfl
  · rw [hnext, hpc]
    exact congrArg (Status.performed (Op.send k v)) hout.symm

theorem reads_pushFull (hwf : WellFormed c s) {t : τ} {v : T}
    (ha : Enabled c s (.pushFull t v)) : Reads c s (.pushFull t v) := by
  have hfull : c.policy.hasRoom s.buffer.length = false := by
    rw [hasRoom_length]
    exact ha.2
  refine reads_refusedPush hwf ha ha.1 (Function.update_self _ _ _) rfl rfl
    rfl rfl ?_ ?_
  · exact if_pos (Or.inl ⟨rfl, hfull⟩)
  · unfold pushOutcome
    rw [if_pos ⟨rfl, hfull⟩]

theorem reads_pushThrow (hwf : WellFormed c s) {t : τ} {k : SendKind} {v : T}
    (ha : Enabled c s (.pushThrow t k v)) : Reads c s (.pushThrow t k v) := by
  have hroom : ¬(k = .trySend ∧ c.policy.hasRoom s.buffer.length = false) := by
    rintro ⟨hk, hfull⟩
    rw [hasRoom_length, ha.2.1 hk] at hfull
    cases hfull
  refine reads_refusedPush hwf ha ha.1 (Function.update_self _ _ _) rfl rfl
    rfl rfl ?_ ?_
  · exact if_pos (Or.inr ha.2.2)
  · unfold pushOutcome
    rw [if_neg hroom, if_neg (not_lt.mpr ha.2.2)]

theorem reads_popFront (hwf : WellFormed c s) {t : τ} {k : ReceiveKind}
    {v : T} (ha : Enabled c s (.popFront t k v)) :
    Reads c s (.popFront t k v) := by
  obtain ⟨hpc, hhead⟩ := ha
  obtain ⟨l, hl⟩ := List.head?_eq_some_iff.mp hhead
  have hm : s.mutex = some t := by
    apply (hwf.exclusive t).mp
    rw [hpc]
    rfl
  have hcalled : (s.pc t).status c s.buffer.length = .called (.receive k) := by
    rw [hpc]
    rfl
  have hstep : QueueStep c (.receive k) (queue c s) (k.outcomeReceived v)
      ⟨l, s.closed⟩ := by
    rw [queue_of_inside hwf hpc rfl (by simp), hl]
    exact .deliver k v l s.closed
  refine reads_perform hwf ⟨hpc, hhead⟩ rfl hcalled hstep ?_ ?_
  · have hheld : held c (next c s (.popFront t k v)) = [] :=
      held_next_self (by simp) (Or.inr hm)
    have hbuffer : (next c s (.popFront t k v)).buffer = l := by
      change s.buffer.tail = l
      rw [hl]
      rfl
    unfold queue
    rw [hheld, hbuffer, List.append_nil]
    rfl
  · have hnext : (next c s (.popFront t k v)).pc t = afterTake c k v :=
      Function.update_self _ _ _
    rw [show (next c s (.popFront t k v)).pc (Action.popFront t k v).thread =
      _ from hnext]
    exact status_afterTake c _ k v

theorem reads_popEmpty (hwf : WellFormed c s) {t : τ} {k : ReceiveKind}
    (ha : Enabled c s (.popEmpty t k)) : Reads c s (.popEmpty t k) := by
  have hpc : s.pc t = .take k := ha.1
  have hok := hwf.ok t
  rw [hpc] at hok
  have hqueue : queue c s = ⟨[], s.closed⟩ := by
    rw [queue_of_inside hwf hpc rfl (by simp), ha.2]
  have hcalled : (s.pc t).status c s.buffer.length = .called (.receive k) := by
    rw [hpc]
    rfl
  have hstep : QueueStep c (.receive k) (queue c s) k.outcomeEmpty
      (queue c s) := by
    rw [hqueue]
    cases hclosed : s.closed with
    | true => exact .drained k
    | false =>
        obtain rfl : k = .tryReceive := by
          rcases hok with hk | hne | hc
          · exact hk
          · exact absurd ha.2 hne
          · rw [hclosed] at hc
            cases hc
        exact .nothingYet
  refine reads_perform hwf ha rfl hcalled hstep ?_ ?_
  · refine queue_next hwf ha (by simp) ?_ rfl
    intro k' v' hpush
    cases hpc.symm.trans hpush
  · rw [show (next c s (.popEmpty t k)).pc (Action.popEmpty t k).thread =
      .unlock (.receive k) k.outcomeEmpty from Function.update_self _ _ _]
    rfl

def TimesOut (s : State τ T) : Prop :=
  ∀ t op, s.pc t = .test op true → op.timed = true

omit [DecidableEq τ] in
theorem afterLock_ne_expired (c : Config) (op op' : Op T) :
    afterLock c op ≠ .test op' true := by
  cases op with
  | send k v =>
      cases k <;> by_cases h : c.policy.isBounded = true <;>
        simp [afterLock, h]
  | receive k => cases k <;> simp [afterLock]
  | close => simp [afterLock]

theorem timesOut_next (h : TimesOut s) (ha : Enabled c s a) :
    TimesOut (next c s a) := by
  intro u op hu
  by_cases hself : u = a.thread
  swap
  · rcases next_pc_of_ne ha hself with hpc | ⟨op', -, hnew⟩
    · exact h u op (hpc ▸ hu)
    · cases hnew.symm.trans hu
  subst hself
  have hset : ∀ {f : τ → Pc T} {t : τ} {q : Pc T},
      Function.update f t q t = .test op true → q = .test op true := by
    intro f t q hq
    rwa [Function.update_self] at hq
  cases a with
  | relock t op' e =>
      have hq : Pc.test op' e = .test op true := hset hu
      cases hq
      exact ha.2.2 rfl
  | lock t op' => exact absurd (hset hu) (afterLock_ne_expired c op' op)
  | call t op' => cases op' <;> cases hset hu
  | testTrue t op' e => cases op' <;> cases hset hu
  | popFront t k v =>
      have hq := hset hu
      by_cases hb : c.policy.isBounded = true <;>
        simp [afterTake, hb] at hq
  | notifyAll t x => cases x <;> cases hset hu
  | _ => cases hset hu

theorem timesOut_reachable (hs : (system c τ T).Reachable s) :
    TimesOut s := by
  refine hs.invariant TimesOut ?_ fun s a h ha => timesOut_next h ha
  rintro s rfl t op h
  cases h

omit [DecidableEq τ] in
/-- A wait that expires has found the channel open, and full or empty. -/
theorem queueStep_expired {op : Op T} (htimed : op.timed = true)
    (hw : waitPredicate c s op = false) :
    QueueStep c op ⟨s.buffer, s.closed⟩ op.outcomeTimeout
      ⟨s.buffer, s.closed⟩ := by
  cases op with
  | send k v =>
      obtain ⟨hclosed, hfull⟩ := Bool.or_eq_false_iff.mp hw
      have hk : k ≠ .send := by
        rintro rfl
        cases htimed
      rw [hclosed]
      apply QueueStep.full k v s.buffer hk
      rw [hasRoom_length]
      exact hfull
  | receive k =>
      obtain ⟨hempty, hclosed⟩ := Bool.or_eq_false_iff.mp hw
      have hnil : s.buffer = [] := by simpa using hempty
      cases k with
      | receiveFor =>
          rw [hclosed, hnil]
          exact .notInTime
      | receive => cases htimed
      | tryReceive => cases htimed
  | close => cases hw

theorem reads_testExpired (hwf : WellFormed c s) (htimes : TimesOut s) {t : τ}
    {op : Op T} (ha : Enabled c s (.testExpired t op)) :
    Reads c s (.testExpired t op) := by
  have hpc : s.pc t = .test op true := ha.1
  have hcalled : (s.pc t).status c s.buffer.length = .called op := by
    rw [hpc]
    rfl
  have hstep : QueueStep c op (queue c s) op.outcomeTimeout (queue c s) := by
    rw [queue_of_inside hwf hpc rfl (by simp)]
    exact queueStep_expired (htimes t op hpc) ha.2
  refine reads_perform hwf ha rfl hcalled hstep ?_ ?_
  · refine queue_next hwf ha (by simp) ?_ rfl
    intro k v hpush
    cases hpc.symm.trans hpush
  · have hnext : (next c s (.testExpired t op)).pc t =
        .unlock op op.outcomeTimeout := Function.update_self _ _ _
    exact congrArg (Pc.status c _) hnext

theorem reads_loadClosed (hwf : WellFormed c s) {t : τ} {k : SendKind} {v : T}
    (ha : Enabled c s (.loadClosed t k v)) :
    Reads c s (.loadClosed t k v) := by
  have hpc : s.pc t = .checkClosed k v := ha.1
  have hcalled : (s.pc t).status c s.buffer.length = .called (.send k v) := by
    rw [hpc]
    rfl
  have hstep : QueueStep c (.send k v) (queue c s) k.outcomeClosed
      (queue c s) := by
    rw [queue_of_inside hwf hpc rfl (by simp), ha.2]
    exact .refuse k v s.buffer
  refine reads_perform hwf ha rfl hcalled hstep ?_ ?_
  · refine queue_next hwf ha (by simp) ?_ rfl
    intro k' v' hpush
    cases hpc.symm.trans hpush
  · have hnext : (next c s (.loadClosed t k v)).pc t =
        .unlock (.send k v) k.outcomeClosed := Function.update_self _ _ _
    exact congrArg (Pc.status c _) hnext

theorem reads_storeClosed (hwf : WellFormed c s) {t : τ}
    (ha : Enabled c s (.storeClosed t)) : Reads c s (.storeClosed t) := by
  have hpc : s.pc t = .storeClosed := ha
  have hcalled : (s.pc t).status c s.buffer.length = .called .close := by
    rw [hpc]
    rfl
  have hstep : QueueStep c .close (queue c s) .returned
      ⟨s.buffer ++ held c s, true⟩ := .close _ _
  refine reads_perform hwf ha rfl hcalled hstep ?_ ?_
  · refine queue_next hwf ha (by simp) ?_ rfl
    intro k v hpush
    cases hpc.symm.trans hpush
  · rw [show (next c s (.storeClosed t)).pc (Action.storeClosed t).thread =
      .lock .close from Function.update_self _ _ _]
    rfl

/-- A step between the program points `p` and `q` that takes no effect. -/
theorem reads_of_pc (hwf : WellFormed c s) (ha : Enabled c s a) {p q : Pc T}
    (hp : s.pc a.thread = p) (hq : (next c s a).pc a.thread = q)
    (hopen : ∀ t k v, a ≠ .loadOpen t k v) (hpush : ∀ k v, p ≠ .push k v)
    (hbuffer : (next c s a).buffer = s.buffer)
    (hclosed : (next c s a).closed = s.closed) (hvisible : a.visible = none)
    (hstatus : q.status c s.buffer.length = p.status c s.buffer.length) :
    Reads c s a := by
  refine reads_hidden hwf ha hvisible ?_ ?_
  · rw [queue_next hwf ha hopen (by rw [hp]; exact hpush) hbuffer, hclosed]
    rfl
  · rw [hq, hp, hbuffer]
    exact hstatus

theorem reads_call (hwf : WellFormed c s) {t : τ} {op : Op T}
    (ha : Enabled c s (.call t op)) : Reads c s (.call t op) := by
  have hpc : s.pc t = .idle := ha
  have hidle : (reading c s).status t = .idle :=
    congrArg (Pc.status c s.buffer.length) hpc
  refine SequentialObject.Moves.of_step (b := .call t op) hidle ?_
  refine reading_next hwf ha ?_ ?_
  · refine queue_next hwf ha (by simp) ?_ rfl
    intro k v hpush
    cases hpc.symm.trans hpush
  · rw [show (next c s (.call t op)).pc (Action.call t op).thread =
      afterCall op from Function.update_self _ _ _]
    exact status_afterCall c _ op

theorem reads_unlock (hwf : WellFormed c s) {t : τ} {op : Op T}
    {out : Outcome T} (ha : Enabled c s (.unlock t op out)) :
    Reads c s (.unlock t op out) := by
  have hpc : s.pc t = .unlock op out := ha
  have hperformed : (reading c s).status t = .performed op out :=
    congrArg (Pc.status c s.buffer.length) hpc
  refine SequentialObject.Moves.of_step (b := .ret t op out) hperformed ?_
  refine reading_next hwf ha ?_ ?_
  · refine queue_next hwf ha (by simp) ?_ rfl
    intro k v hpush
    cases hpc.symm.trans hpush
  · rw [show (next c s (.unlock t op out)).pc (Action.unlock t op out).thread =
      .idle from Function.update_self _ _ _]
    rfl

theorem reads_next (hwf : WellFormed c s) (htimes : TimesOut s)
    (ha : Enabled c s a) : Reads c s a := by
  cases a with
  | call t op => exact reads_call hwf ha
  | storeClosed t => exact reads_storeClosed hwf ha
  | lock t op =>
      exact reads_of_pc hwf ha ha.1 (Function.update_self _ _ _) (by simp)
        (by simp) rfl rfl rfl (status_afterLock c _ op)
  | testTrue t op e =>
      have hok := hwf.ok t
      rw [ha.1] at hok
      exact reads_of_pc hwf ha ha.1 (Function.update_self _ _ _) (by simp)
        (by simp) rfl rfl rfl (status_afterWait hok)
  | testFalse t op =>
      exact reads_of_pc hwf ha ha.1 (Function.update_self _ _ _) (by simp)
        (by simp) rfl rfl rfl rfl
  | testExpired t op => exact reads_testExpired hwf htimes ha
  | wait t op =>
      exact reads_of_pc hwf ha ha (Function.update_self _ _ _) (by simp)
        (by simp) rfl rfl rfl rfl
  | wake t op =>
      exact reads_of_pc hwf ha ha (Function.update_self _ _ _) (by simp)
        (by simp) rfl rfl rfl rfl
  | relock t op e =>
      rcases ha.1 with hpc | hpc
      · exact reads_of_pc hwf ha hpc (Function.update_self _ _ _) (by simp)
          (by simp) rfl rfl rfl rfl
      · exact reads_of_pc hwf ha hpc (Function.update_self _ _ _) (by simp)
          (by simp) rfl rfl rfl rfl
  | loadClosed t k v => exact reads_loadClosed hwf ha
  | loadOpen t k v => exact reads_loadOpen hwf ha
  | pushBack t k v => exact reads_pushBack hwf ha
  | pushFull t v => exact reads_pushFull hwf ha
  | pushThrow t k v => exact reads_pushThrow hwf ha
  | popFront t k v => exact reads_popFront hwf ha
  | popEmpty t k => exact reads_popEmpty hwf ha
  | notifyOne t x op out u op' =>
      exact reads_of_pc hwf ha ha.1 (Function.update_self _ _ _) (by simp)
        (by simp) rfl rfl rfl rfl
  | notifyNobody t x op out =>
      exact reads_of_pc hwf ha ha.1 (Function.update_self _ _ _) (by simp)
        (by simp) rfl rfl rfl rfl
  | notifyAll t x =>
      exact reads_of_pc hwf ha ha (Function.update_self _ _ _) (by simp)
        (by simp) rfl rfl rfl (status_afterNotifyAll c _ x)
  | unlock t op out => exact reads_unlock hwf ha

end Steps

/-! ## Linearizability -/

/-- The steps of the channel are steps of the atomic queue. -/
theorem readsAs_queue (c : Config) (τ T : Type*) [DecidableEq τ] :
    SequentialObject.ReadsAs (system c τ T) (fun _ => Action.visible)
      (queueObject c τ T) ⟨[], false⟩ (reading c) where
  initial := by
    rintro s rfl
    rfl
  step _ _ hs ha :=
    reads_next (wellFormed_reachable hs) (timesOut_reachable hs) ha

/-- `sync_channel` is linearizable: in every run, for every policy and any
number of threads, the calls that have returned, in a suitable order that
respects real time, form a run of the sequential queue. -/
theorem linearizable_history {τ T : Type*} [DecidableEq τ] {c : Config}
    {l : List (Action τ T)}
    (hl : (system c τ T).Executes (initialState τ T) l) :
    (queueObject c τ T).Linearizable ⟨[], false⟩
      (l.filterMap Action.visible) :=
  (readsAs_queue c τ T).linearizable rfl hl

theorem linearizable_closeDuringSend :
    (queueObject singleSlot (Fin 2) ℕ).Linearizable ⟨[], false⟩
      (closeDuringSend.filterMap Action.visible) :=
  linearizable_history (by decide)

end SyncChannel
end Ethreads
