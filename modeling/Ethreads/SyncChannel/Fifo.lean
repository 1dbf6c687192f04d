import Ethreads.SyncChannel.Invariant

/-!
# The channel is a bounded queue with a draining close

Every run of the channel is compared with a plain queue.  The order in which
the mutex is held is the order of the queue operations; the buffer is what the
queue holds.  After `close` has returned nothing is accepted any more, and once
a receiver has been told that the channel is closed and empty, every accepted
value has been received.
-/

namespace Ethreads
namespace SyncChannel

variable {τ T : Type*}

/-! ## The logs of a run -/

/-- The values of a log, in the order in which the mutex was held. -/
def values (log : List (τ × T)) : List T :=
  log.map Prod.snd

/-- The value that a finished step of a call accounts for but that the call
has not yet reported. -/
def Pc.inFlight (f : Op T → Outcome T → Option T) : Pc T → List T
  | .notifyOne _ op out => (f op out).toList
  | .unlock op out => (f op out).toList
  | _ => []

variable [DecidableEq τ]

/-- The part of a log that belongs to the calls of thread `t`. -/
def valuesOf (t : τ) (log : List (τ × T)) : List T :=
  values (log.filter fun entry => entry.1 = t)

/-- What the finished calls of thread `t` report, read with `f`. -/
def reported (f : Op T → Outcome T → Option T) (t : τ) (s : State τ T) :
    List T :=
  (s.history.filter fun entry => entry.1 = t).filterMap
    fun entry => f entry.2.1 entry.2.2

theorem valuesOf_append (t u : τ) (log : List (τ × T)) (v : T) :
    valuesOf t (log ++ [(u, v)]) =
      valuesOf t log ++ if u = t then [v] else [] := by
  by_cases h : u = t <;> simp [valuesOf, values, h]

/-! ## The buffer is the queue -/

/-- What went in is what came out followed by what the buffer holds. -/
def Queued (s : State τ T) : Prop :=
  values s.accepted = values s.received ++ s.buffer

theorem queued_next {c : Config} {s : State τ T} {a : Action τ T}
    (h : Queued s) (ha : Enabled c s a) : Queued (next c s a) := by
  cases a with
  | pushBack t k v =>
      unfold Queued at h ⊢
      simp only [values] at h
      simp [next, values, h]
  | popFront t k v =>
      have hb : s.buffer = v :: s.buffer.tail :=
        (List.cons_head?_tail ha.2).symm
      unfold Queued at h ⊢
      rw [hb] at h
      simp only [values] at h
      simp [next, values, h]
  | _ => exact h

/-- The number of buffered values respects the policy. -/
def Bounded (c : Config) (s : State τ T) : Prop :=
  s.buffer.length ≤ c.policy.maxSize ∧ s.buffer.length ≤ c.dequeMaxSize

theorem bounded_next {c : Config} {s : State τ T} {a : Action τ T}
    (hwf : WellFormed c s) (h : Bounded c s) (ha : Enabled c s a) :
    Bounded c (next c s a) := by
  cases a with
  | pushBack t k v =>
      obtain ⟨hpc, htry, hmax⟩ := ha
      have hok := hwf.ok t
      rw [hpc] at hok
      have hcan : canSend c s = true := hok.elim htry id
      have hlen : (next c s (.pushBack t k v)).buffer.length =
          s.buffer.length + 1 := by
        simp [next]
      refine ⟨?_, by omega⟩
      rw [hlen]
      unfold canSend at hcan
      cases hp : c.policy with
      | bounded n =>
          simp only [hp, decide_eq_true_eq] at hcan
          exact hcan
      | unbounded =>
          have := c.dequeMaxSize_lt
          simp only [BoundednessPolicy.maxSize]
          omega
  | popFront t k v =>
      have hlen : (next c s (.popFront t k v)).buffer.length ≤
          s.buffer.length := by
        simp [next]
      exact ⟨hlen.trans h.1, hlen.trans h.2⟩
  | _ => exact h

/-! ## Calls report what they did -/

theorem acceptedOf_outcomeSent (k : SendKind) (v : T) :
    acceptedOf (.send k v) k.outcomeSent = some v := by
  cases k <;> rfl

theorem receivedOf_outcomeReceived (k : ReceiveKind) (v : T) :
    receivedOf (.receive k) (k.outcomeReceived v) = some v := by
  cases k <;> rfl

/-- A way of reading reports that ignores the calls which moved no value. -/
structure Reading (f : Op T → Outcome T → Option T) : Prop where
  timeout : ∀ op, f op op.outcomeTimeout = none
  closed : ∀ k v, f (.send k v) k.outcomeClosed = none
  full : ∀ v, f (.send .trySend v) (.flag false) = none
  threw : ∀ op what, f op (.threw what) = none
  empty : ∀ k, f (.receive k) k.outcomeEmpty = none
  close : f .close .returned = none

omit [DecidableEq τ] in
theorem reading_acceptedOf : Reading (@acceptedOf T) where
  timeout op := by cases op <;> rfl
  closed k v := by cases k <;> rfl
  full v := rfl
  threw op what := by cases op <;> rfl
  empty k := rfl
  close := rfl

omit [DecidableEq τ] in
theorem reading_receivedOf : Reading (@receivedOf T) where
  timeout op := by cases op <;> rfl
  closed k v := rfl
  full v := rfl
  threw op what := by cases op <;> rfl
  empty k := by cases k <;> rfl
  close := rfl

/-- The value moved by a step, read with `f` from the report it leads to. -/
def Action.gain (f : Op T → Outcome T → Option T) : Action τ T → List T
  | .pushBack _ k v => (f (.send k v) k.outcomeSent).toList
  | .popFront _ k v => (f (.receive k) (k.outcomeReceived v)).toList
  | _ => []

section Reports

variable {f : Op T → Outcome T → Option T} {c : Config} {s : State τ T}
  {a : Action τ T}

theorem inFlight_of_ne (ha : Enabled c s a) {u : τ} (hu : u ≠ a.thread) :
    ((next c s a).pc u).inFlight f = (s.pc u).inFlight f := by
  rcases next_pc_of_ne ha hu with h | ⟨op, hold, hnew⟩
  · rw [h]
  · rw [hold, hnew]
    rfl

theorem reported_of_ne {u : τ} (hu : u ≠ a.thread) :
    reported f u (next c s a) = reported f u s := by
  cases a with
  | unlock t op out =>
      have htu : t ≠ u := fun h => hu h.symm
      simp [reported, next, htu]
  | _ => rfl

theorem reported_of_internal (hi : a.internal = true) (u : τ) :
    reported f u (next c s a) = reported f u s := by
  cases a with
  | unlock t op out => cases hi
  | _ => rfl

theorem reported_unlock (c : Config) (t : τ) (op : Op T) (out : Outcome T) :
    reported f t (next c s (.unlock t op out)) =
      reported f t s ++ (f op out).toList := by
  cases h : f op out <;> simp [reported, next, h]

/-- A step of `a.thread` that is not the end of its call. -/
theorem inFlight_thread (hf : Reading f) (ha : Enabled c s a)
    (hun : ∀ t op out, a ≠ .unlock t op out) :
    ((next c s a).pc a.thread).inFlight f =
      (s.pc a.thread).inFlight f ++ a.gain f := by
  have hset : ∀ (pc : τ → Pc T) (t : τ) (q : Pc T),
      (Function.update pc t q t).inFlight f = q.inFlight f := by
    intro pc t q
    rw [Function.update_self]
  cases a with
  | call t op =>
      have hpc : s.pc t = .idle := ha
      simp only [next, goto_pc, Action.thread, hset, hpc]
      cases op <;> rfl
  | storeClosed t =>
      have hpc : s.pc t = .storeClosed := ha
      simp only [next, goto_pc, Action.thread, hset, hpc]
      rfl
  | lock t op =>
      simp only [next, goto_pc, Action.thread, hset, ha.1]
      cases op with
      | send k v =>
          cases k <;> by_cases hb : c.policy.isBounded = true <;>
            simp [afterLock, hb, Pc.inFlight, Action.gain]
      | receive k => cases k <;> rfl
      | close => rfl
  | testTrue t op e =>
      simp only [next, goto_pc, Action.thread, hset, ha.1]
      cases op <;> rfl
  | testFalse t op =>
      simp only [next, goto_pc, Action.thread, hset, ha.1]
      rfl
  | testExpired t op =>
      simp [next, Action.thread, ha.1, Pc.inFlight, Action.gain, hf.timeout]
  | wait t op =>
      have hpc : s.pc t = .block op := ha
      simp only [next, goto_pc, Action.thread, hset, hpc]
      rfl
  | wake t op =>
      have hpc : s.pc t = .waiting op := ha
      simp only [next, goto_pc, Action.thread, hset, hpc]
      rfl
  | relock t op e =>
      simp only [next, goto_pc, Action.thread, hset]
      rcases ha.1 with hpc | hpc <;> (rw [hpc]; rfl)
  | loadClosed t k v =>
      simp [next, Action.thread, ha.1, Pc.inFlight, Action.gain, hf.closed]
  | loadOpen t k v =>
      simp [next, Action.thread, ha.1, Pc.inFlight, Action.gain]
  | pushBack t k v =>
      simp [next, Action.thread, ha.1, Pc.inFlight, Action.gain]
  | pushFull t v =>
      simp [next, Action.thread, ha.1, Pc.inFlight, Action.gain, hf.full]
  | pushThrow t k v =>
      simp [next, Action.thread, ha.1, Pc.inFlight, Action.gain, hf.threw]
  | popFront t k v =>
      simp only [next, goto_pc, Action.thread, hset, ha.1]
      by_cases hb : c.policy.isBounded = true <;>
        simp [afterTake, hb, Pc.inFlight, Action.gain]
  | popEmpty t k =>
      simp [next, Action.thread, ha.1, Pc.inFlight, Action.gain, hf.empty]
  | notifyOne t x op out u op' =>
      simp [next, Action.thread, ha.1, Pc.inFlight, Action.gain]
  | notifyNobody t x op out =>
      simp [next, Action.thread, ha.1, Pc.inFlight, Action.gain]
  | notifyAll t x =>
      have hpc : s.pc t = .notifyAll x := ha
      simp only [next, goto_pc, Action.thread, hset, hpc]
      cases x <;> simp [afterNotifyAll, Pc.inFlight, Action.gain, hf.close]
  | unlock t op out => exact absurd rfl (hun t op out)

/-- What the calls of a thread report, together with what its current call
has done, grows by exactly the values its steps move. -/
theorem report_next (hf : Reading f) (ha : Enabled c s a) (t : τ) :
    reported f t (next c s a) ++ ((next c s a).pc t).inFlight f =
      reported f t s ++ (s.pc t).inFlight f ++
        if a.thread = t then a.gain f else [] := by
  by_cases ht : a.thread = t
  · rw [if_pos ht]
    subst ht
    by_cases hun : ∃ t op out, a = .unlock t op out
    · obtain ⟨t, op, out, rfl⟩ := hun
      have hpc : s.pc t = .unlock op out := ha
      cases h : f op out <;>
        simp [next, Action.thread, hpc, reported, Pc.inFlight, Action.gain, h]
    · push Not at hun
      have hrep : reported f a.thread (next c s a) =
          reported f a.thread s := by
        cases a with
        | unlock t op out => exact absurd rfl (hun t op out)
        | _ => rfl
      rw [inFlight_thread hf ha hun, hrep, List.append_assoc]
  · rw [if_neg ht, reported_of_ne (Ne.symm ht), inFlight_of_ne ha (Ne.symm ht),
      List.append_nil]

end Reports

/-- The accepted values of each thread are those of its successful sends, the
received values of each thread those its receives return. -/
structure Reported (s : State τ T) : Prop where
  accepted : ∀ t, valuesOf t s.accepted =
    reported acceptedOf t s ++ (s.pc t).inFlight acceptedOf
  received : ∀ t, valuesOf t s.received =
    reported receivedOf t s ++ (s.pc t).inFlight receivedOf

theorem valuesOf_accepted_next {c : Config} {s : State τ T}
    {a : Action τ T} (t : τ) :
    valuesOf t (next c s a).accepted = valuesOf t s.accepted ++
      if a.thread = t then a.gain acceptedOf else [] := by
  cases a with
  | pushBack u k v =>
      simp [next, valuesOf_append, Action.thread, Action.gain,
        acceptedOf_outcomeSent]
  | popFront u k v => simp [next, Action.gain, acceptedOf]
  | _ => simp [next, Action.gain]

theorem valuesOf_received_next {c : Config} {s : State τ T}
    {a : Action τ T} (t : τ) :
    valuesOf t (next c s a).received = valuesOf t s.received ++
      if a.thread = t then a.gain receivedOf else [] := by
  cases a with
  | pushBack u k v => simp [next, Action.gain, receivedOf]
  | popFront u k v =>
      simp [next, valuesOf_append, Action.thread, Action.gain,
        receivedOf_outcomeReceived]
  | _ => simp [next, Action.gain]

theorem reported_next {c : Config} {s : State τ T} {a : Action τ T}
    (h : Reported s) (ha : Enabled c s a) : Reported (next c s a) := by
  constructor
  · intro t
    rw [valuesOf_accepted_next, h.accepted, report_next reading_acceptedOf ha]
  · intro t
    rw [valuesOf_received_next, h.received, report_next reading_receivedOf ha]

/-! ## Closing -/

/-- The channel is closed and no section can still add a value. -/
def Sealed (s : State τ T) : Prop :=
  s.closed = true ∧ ∀ t k v, s.pc t ≠ .push k v

/-- The channel is sealed and its buffer is empty. -/
def Drained (s : State τ T) : Prop :=
  Sealed s ∧ s.buffer = []

theorem sealed_next {c : Config} {s : State τ T} {a : Action τ T}
    (h : Sealed s) (ha : Enabled c s a) : Sealed (next c s a) := by
  refine ⟨next_closed h.1, fun u k v hu => ?_⟩
  by_cases hua : u = a.thread
  · subst hua
    have harrives := arrivesBy_next c s a
    rw [hu] at harrives
    rw [harrives] at ha
    have hopen : s.closed = false := ha.2
    rw [h.1] at hopen
    cases hopen
  · rcases next_pc_of_ne ha hua with hpc | ⟨op, -, hnew⟩
    · exact h.2 u k v (hpc ▸ hu)
    · rw [hnew] at hu
      cases hu

theorem accepted_of_sealed {c : Config} {s : State τ T} {a : Action τ T}
    (h : Sealed s) (ha : Enabled c s a) :
    (next c s a).accepted = s.accepted := by
  cases a with
  | pushBack t k v => exact absurd ha.1 (h.2 t k v)
  | _ => rfl

theorem buffer_of_drained {c : Config} {s : State τ T} {a : Action τ T}
    (h : Drained s) (ha : Enabled c s a) : (next c s a).buffer = [] := by
  cases a with
  | pushBack t k v => exact absurd ha.1 (h.1.2 t k v)
  | popFront t k v =>
      have := ha.2
      rw [h.2] at this
      cases this
  | _ => exact h.2

theorem drained_next {c : Config} {s : State τ T} {a : Action τ T}
    (h : Drained s) (ha : Enabled c s a) : Drained (next c s a) :=
  ⟨sealed_next h.1 ha, buffer_of_drained h ha⟩

omit [DecidableEq τ] in
/-- A thread inside a section keeps all others from pushing. -/
theorem sealed_of_holder {c : Config} {s : State τ T} (hwf : WellFormed c s)
    (hc : s.closed = true) {t : τ} (ht : (s.pc t).holdsMutex = true)
    (hpush : ∀ k v, s.pc t ≠ .push k v) : Sealed s := by
  refine ⟨hc, fun u k v hu => ?_⟩
  have hut : u = t := hwf.exclusive.unique (by rw [hu]; rfl) ht
  subst hut
  exact hpush k v hu

structure EndKnown (s : State τ T) : Prop where
  closed : ∀ t out, (t, Op.close, out) ∈ s.history → Sealed s
  drained : ∀ t op out, (t, op, out) ∈ s.history →
    reportsEnd op out = true → Drained s

theorem endKnown_next {c : Config} {s : State τ T} {a : Action τ T}
    (hwf : WellFormed c s) (h : EndKnown s) (ha : Enabled c s a) :
    EndKnown (next c s a) := by
  by_cases hun : ∃ t op out, a = .unlock t op out
  · obtain ⟨t, op, out, rfl⟩ := hun
    have hpc : s.pc t = .unlock op out := ha
    have hok := hwf.ok t
    rw [hpc] at hok
    have hsealed : s.closed = true → Sealed s := fun hc =>
      sealed_of_holder hwf hc (t := t) (by rw [hpc]; rfl)
        fun k v => by rw [hpc]; simp
    constructor
    · intro u out' hmem
      simp only [next, List.mem_append, List.mem_singleton] at hmem
      rcases hmem with hmem | heq
      · exact sealed_next (h.closed u out' hmem) ha
      · cases heq
        exact sealed_next (hsealed (hok.1 rfl)) ha
    · intro u op' out' hmem hend
      simp only [next, List.mem_append, List.mem_singleton] at hmem
      rcases hmem with hmem | heq
      · exact drained_next (h.drained u op' out' hmem hend) ha
      · cases heq
        have hclosed := hok.2 hend
        exact drained_next ⟨hsealed hclosed.1, hclosed.2⟩ ha
  · push Not at hun
    have hhist : (next c s a).history = s.history := by
      cases a with
      | unlock t op out => exact absurd rfl (hun t op out)
      | _ => rfl
    constructor
    · intro u out hmem
      rw [hhist] at hmem
      exact sealed_next (h.closed u out hmem) ha
    · intro u op out hmem hend
      rw [hhist] at hmem
      exact drained_next (h.drained u op out hmem hend) ha

/-! ## The channel as a queue -/

/-- The channel is a bounded queue that drains after it was closed. -/
structure IsDrainingQueue (c : Config) (s : State τ T) : Prop where
  /-- The received values are a prefix of the accepted ones, and the buffer
  is the rest. -/
  fifo : values s.accepted = values s.received ++ s.buffer
  /-- The buffer never outgrows the policy. -/
  bounded : s.buffer.length ≤ c.policy.maxSize
  /-- A thread's accepted values are those of its successful sends. -/
  sends : ∀ t, valuesOf t s.accepted =
    reported acceptedOf t s ++ (s.pc t).inFlight acceptedOf
  /-- A thread's received values are those its receives return. -/
  receives : ∀ t, valuesOf t s.received =
    reported receivedOf t s ++ (s.pc t).inFlight receivedOf
  /-- After a report of the end, all accepted values have been received and
  none is accepted any more. -/
  drained : ∀ t op out, (t, op, out) ∈ s.history →
    reportsEnd op out = true → ∀ s', (system c τ T).Leads s s' →
      s'.accepted = s.accepted ∧ values s'.received = values s'.accepted
  /-- After `close` has returned, no value is accepted any more. -/
  closed : ∀ t out, (t, .close, out) ∈ s.history →
    ∀ s', (system c τ T).Leads s s' → s'.accepted = s.accepted

theorem queued_reachable {c : Config} {s : State τ T}
    (hs : (system c τ T).Reachable s) : Queued s := by
  refine TransitionSystem.Reachable.invariant hs Queued ?_
    fun s a h ha => queued_next h ha
  rintro s rfl
  rfl

theorem bounded_reachable {c : Config} {s : State τ T}
    (hs : (system c τ T).Reachable s) : Bounded c s := by
  refine TransitionSystem.Reachable.invariant_of hs (Bounded c)
    (fun s hs => wellFormed_reachable hs) ?_
    fun s a hwf h ha => bounded_next hwf h ha
  rintro s rfl
  exact ⟨Nat.zero_le _, Nat.zero_le _⟩

theorem reported_reachable {c : Config} {s : State τ T}
    (hs : (system c τ T).Reachable s) : Reported s := by
  refine TransitionSystem.Reachable.invariant hs Reported ?_
    fun s a h ha => reported_next h ha
  rintro s rfl
  exact ⟨fun t => rfl, fun t => rfl⟩

theorem endKnown_reachable {c : Config} {s : State τ T}
    (hs : (system c τ T).Reachable s) : EndKnown s := by
  refine TransitionSystem.Reachable.invariant_of hs EndKnown
    (fun s hs => wellFormed_reachable hs) ?_
    fun s a hwf h ha => endKnown_next hwf h ha
  rintro s rfl
  exact ⟨fun t out h => (by cases h), fun t op out h => (by cases h)⟩

theorem sealed_leads {c : Config} {s s' : State τ T} (h : Sealed s)
    (hss : (system c τ T).Leads s s') :
    Sealed s' ∧ s'.accepted = s.accepted := by
  refine hss.invariant (fun s' => Sealed s' ∧ s'.accepted = s.accepted)
    (fun r a hr ha => ?_) ⟨h, rfl⟩
  exact ⟨sealed_next hr.1 ha, (accepted_of_sealed hr.1 ha).trans hr.2⟩

theorem drained_leads {c : Config} {s s' : State τ T} (h : Drained s)
    (hss : (system c τ T).Leads s s') : Drained s' :=
  hss.invariant Drained (fun _ _ hr ha => drained_next hr ha) h

/-- `sync_channel` is a linearizable bounded queue with a draining close, for
every policy, any number of threads and every interleaving. -/
theorem isDrainingQueue_of_reachable {c : Config} {s : State τ T}
    (hs : (system c τ T).Reachable s) : IsDrainingQueue c s where
  fifo := queued_reachable hs
  bounded := (bounded_reachable hs).1
  sends := (reported_reachable hs).accepted
  receives := (reported_reachable hs).received
  drained := by
    intro t op out hmem hend s' hss
    have hdrained := (endKnown_reachable hs).drained t op out hmem hend
    have hqueued := queued_reachable (hs.leads hss)
    unfold Queued at hqueued
    rw [(drained_leads hdrained hss).2, List.append_nil] at hqueued
    exact ⟨(sealed_leads hdrained.1 hss).2, hqueued.symm⟩
  closed := by
    intro t out hmem s' hss
    exact (sealed_leads ((endKnown_reachable hs).closed t out hmem) hss).2

def singleSlot : Config where
  policy := .bounded 1
  dequeMaxSize := 4
  dequeMaxSize_lt := by decide

/-- A send passes its test of `closed_`, a `close` stores the flag, and the
value is still accepted; it is received before the end is reported. -/
def closeDuringSend : List (Action (Fin 2) ℕ) :=
  [.call 0 (.send .send 7), .lock 0 (.send .send 7),
    .testTrue 0 (.send .send 7) false, .loadOpen 0 .send 7,
    .call 1 .close, .storeClosed 1, .pushBack 0 .send 7,
    .notifyNobody 0 .cv (.send .send 7) .returned,
    .unlock 0 (.send .send 7) .returned,
    .lock 1 .close, .notifyAll 1 .cv, .notifyAll 1 .sendCv,
    .unlock 1 .close .returned,
    .call 0 (.receive .receive), .lock 0 (.receive .receive),
    .testTrue 0 (.receive .receive) false, .popFront 0 .receive 7,
    .notifyNobody 0 .sendCv (.receive .receive) (.value 7),
    .unlock 0 (.receive .receive) (.value 7),
    .call 1 (.receive .receive), .lock 1 (.receive .receive),
    .testTrue 1 (.receive .receive) false, .popEmpty 1 .receive,
    .unlock 1 (.receive .receive) (.threw "receive on closed empty channel")]

theorem isDrainingQueue_closeDuringSend :
    IsDrainingQueue singleSlot
      ((system singleSlot (Fin 2) ℕ).after (initialState (Fin 2) ℕ)
        closeDuringSend) :=
  isDrainingQueue_of_reachable
    (TransitionSystem.Executes.reachable (.init rfl) (by decide))

end SyncChannel
end Ethreads
