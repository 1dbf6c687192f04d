import Ethreads.SyncChannel.Model
import Ethreads.Support.Mutex

/-!
# What every step of the channel preserves

The first part says what a step does to threads that do not take it, the
second part states the invariant of the program points: inside a section the
holder of the mutex knows what it has tested, because nobody else can touch
the buffer and `closed_` is never reset.
-/

namespace Ethreads
namespace SyncChannel

variable {τ T : Type*}

def Action.thread : Action τ T → τ
  | .call t _ | .storeClosed t | .lock t _ | .testTrue t _ _
  | .testFalse t _ | .testExpired t _ | .wait t _ | .wake t _
  | .relock t _ _ | .loadClosed t _ _ | .loadOpen t _ _ | .pushBack t _ _
  | .pushFull t _ | .pushThrow t _ _ | .popFront t _ _ | .popEmpty t _
  | .notifyOne t _ _ _ _ _ | .notifyNobody t _ _ _ | .notifyAll t _
  | .unlock t _ _ => t

/-- The steps of an operation between its call and its return. -/
def Action.internal : Action τ T → Bool
  | .call _ _ => false
  | .unlock _ _ _ => false
  | _ => true

def Pc.op : Pc T → Option (Op T)
  | idle => none
  | storeClosed => some .close
  | lock op | test op _ | block op | waiting op | notified op | woken op
  | notifyOne _ op _ | unlock op _ => some op
  | checkClosed k v | push k v => some (.send k v)
  | take k => some (.receive k)
  | notifyAll _ => some .close

/-- How the operation of a thread will end, once that is decided. -/
def Pc.outcome : Pc T → Option (Outcome T)
  | notifyOne _ _ out | unlock _ out => some out
  | _ => none

/-- Whether a step is the one kind of step that leads to a program point, for
the points that only one kind of step leads to. -/
def Pc.ArrivesBy (a : Action τ T) : Pc T → Prop
  | storeClosed => a.internal = false
  | block op => a = .testFalse a.thread op
  | waiting op => a = .wait a.thread op
  | push k v => a = .loadOpen a.thread k v
  | _ => True

theorem canSend_congr {c : Config} {s s' : State τ T}
    (h : s'.buffer = s.buffer) : canSend c s' = canSend c s := by
  simp [canSend, h]

@[simp] theorem Pc.holdsMutex_mark (x : CondVar) (p : Pc T) :
    (p.mark x).holdsMutex = p.holdsMutex := by
  cases p with
  | waiting op =>
      by_cases h : op.waitsOn x = true <;> simp [mark, h, holdsMutex]
  | _ => rfl

theorem Pc.mark_cases (x : CondVar) (p : Pc T) :
    p.mark x = p ∨ ∃ op, p = .waiting op ∧ p.mark x = .notified op := by
  cases p with
  | waiting op =>
      by_cases h : op.waitsOn x = true
      · exact Or.inr ⟨op, rfl, by simp [mark, h]⟩
      · exact Or.inl (by simp [mark, h])
  | _ => exact Or.inl rfl

theorem holdsMutex_afterLock (c : Config) (op : Op T) :
    (afterLock c op).holdsMutex = true := by
  cases op with
  | send k v => cases k <;> by_cases h : c.policy.isBounded = true <;>
      simp [afterLock, h, Pc.holdsMutex]
  | receive k => cases k <;> rfl
  | close => rfl

theorem holdsMutex_afterWait (op : Op T) :
    (afterWait op).holdsMutex = true := by
  cases op <;> rfl

theorem holdsMutex_afterCall (op : Op T) :
    (afterCall op).holdsMutex = false := by
  cases op <;> rfl

theorem holdsMutex_afterTake (c : Config) (k : ReceiveKind) (v : T) :
    (afterTake c k v).holdsMutex = true := by
  by_cases h : c.policy.isBounded = true <;>
    simp [afterTake, h, Pc.holdsMutex]

theorem holdsMutex_afterNotifyAll (x : CondVar) :
    (afterNotifyAll x : Pc T).holdsMutex = true := by
  cases x <;> rfl

@[simp] theorem op_afterLock (c : Config) (op : Op T) :
    (afterLock c op).op = some op := by
  cases op with
  | send k v =>
      cases k <;> by_cases h : c.policy.isBounded = true <;>
        simp [afterLock, h, Pc.op]
  | receive k => cases k <;> rfl
  | close => rfl

@[simp] theorem outcome_afterLock (c : Config) (op : Op T) :
    (afterLock c op).outcome = none := by
  cases op with
  | send k v =>
      cases k <;> by_cases h : c.policy.isBounded = true <;>
        simp [afterLock, h, Pc.outcome]
  | receive k => cases k <;> rfl
  | close => rfl

@[simp] theorem outcome_afterWait (op : Op T) :
    (afterWait op).outcome = none := by
  cases op <;> rfl

@[simp] theorem op_afterTake (c : Config) (k : ReceiveKind) (v : T) :
    (afterTake c k v).op = some (.receive k) := by
  by_cases h : c.policy.isBounded = true <;> simp [afterTake, h, Pc.op]

@[simp] theorem outcome_afterTake (c : Config) (k : ReceiveKind) (v : T) :
    (afterTake c k v).outcome = some (k.outcomeReceived v) := by
  by_cases h : c.policy.isBounded = true <;> simp [afterTake, h, Pc.outcome]

variable [DecidableEq τ]

section Frame

variable {c : Config} {s : State τ T} {a : Action τ T}

@[simp] theorem goto_buffer (s : State τ T) (t : τ) (q : Pc T) :
    (s.goto t q).buffer = s.buffer := rfl

@[simp] theorem goto_closed (s : State τ T) (t : τ) (q : Pc T) :
    (s.goto t q).closed = s.closed := rfl

@[simp] theorem goto_mutex (s : State τ T) (t : τ) (q : Pc T) :
    (s.goto t q).mutex = s.mutex := rfl

@[simp] theorem goto_accepted (s : State τ T) (t : τ) (q : Pc T) :
    (s.goto t q).accepted = s.accepted := rfl

@[simp] theorem goto_received (s : State τ T) (t : τ) (q : Pc T) :
    (s.goto t q).received = s.received := rfl

@[simp] theorem goto_history (s : State τ T) (t : τ) (q : Pc T) :
    (s.goto t q).history = s.history := rfl

@[simp] theorem goto_pc (s : State τ T) (t : τ) (q : Pc T) :
    (s.goto t q).pc = Function.update s.pc t q := rfl

/-- A step moves no other thread, except that a notification marks threads
of a wait set. -/
theorem next_pc_of_ne (ha : Enabled c s a) {u : τ} (hu : u ≠ a.thread) :
    (next c s a).pc u = s.pc u ∨
      ∃ op, s.pc u = .waiting op ∧ (next c s a).pc u = .notified op := by
  cases a with
  | notifyOne t x op out w op' =>
      obtain ⟨-, hw, -⟩ := ha
      have hut : u ≠ t := hu
      by_cases huw : u = w
      · subst huw
        exact Or.inr ⟨op', hw, by simp [next, hut]⟩
      · exact Or.inl (by simp [next, hut, huw])
  | notifyAll t x =>
      have hut : u ≠ t := hu
      rcases (s.pc u).mark_cases x with hm | ⟨op, hw, hm⟩
      · exact Or.inl (by simp [next, hut, hm])
      · exact Or.inr ⟨op, hw, by simp [next, hut, hm]⟩
  | _ => exact Or.inl (Function.update_of_ne hu _ _)

theorem op_call_self (c : Config) (s : State τ T) (t : τ) (op : Op T) :
    ((next c s (.call t op)).pc t).op = some op := by
  simp only [next, goto_pc, Function.update_self]
  cases op <;> rfl

theorem op_unlock_self (c : Config) (s : State τ T) (t : τ) (op : Op T)
    (out : Outcome T) : ((next c s (.unlock t op out)).pc t).op = none := by
  simp only [next, goto_pc, Function.update_self]
  rfl

theorem outcome_call_self (c : Config) (s : State τ T) (t : τ) (op : Op T) :
    ((next c s (.call t op)).pc t).outcome = none := by
  simp only [next, goto_pc, Function.update_self]
  cases op <;> rfl

theorem op_next_of_ne (ha : Enabled c s a) {u : τ} (hu : u ≠ a.thread) :
    ((next c s a).pc u).op = (s.pc u).op := by
  rcases next_pc_of_ne ha hu with hpc | ⟨op, hold, hnew⟩
  · rw [hpc]
  · rw [hold, hnew]
    rfl

theorem outcome_next_of_ne (ha : Enabled c s a) {u : τ}
    (hu : u ≠ a.thread) :
    ((next c s a).pc u).outcome = (s.pc u).outcome := by
  rcases next_pc_of_ne ha hu with hpc | ⟨op, hold, hnew⟩
  · rw [hpc]
  · rw [hold, hnew]
    rfl

/-- A thread runs one operation from its call to its return. -/
theorem op_next_of_internal (ha : Enabled c s a) (hi : a.internal = true)
    (u : τ) : ((next c s a).pc u).op = (s.pc u).op := by
  by_cases hu : u = a.thread
  swap
  · exact op_next_of_ne ha hu
  subst hu
  have hset : ∀ {f : τ → Pc T} {p q : Pc T} {t : τ}, s.pc t = p →
      q.op = p.op → (Function.update f t q t).op = (s.pc t).op := by
    intro f p q t hp hq
    rw [Function.update_self, hp, hq]
  cases a with
  | call t op => cases hi
  | unlock t op out => cases hi
  | storeClosed t => exact hset ha rfl
  | wait t op => exact hset ha rfl
  | wake t op => exact hset ha rfl
  | lock t op => exact hset ha.1 (op_afterLock c op)
  | testTrue t op e =>
      refine hset ha.1 ?_
      cases op <;> rfl
  | relock t op e =>
      rcases ha.1 with hpc | hpc
      · exact hset hpc rfl
      · exact hset hpc rfl
  | popFront t k v => exact hset ha.1 (op_afterTake c k v)
  | notifyAll t x =>
      refine hset ha ?_
      cases x <;> rfl
  | _ => exact hset ha.1 rfl

/-- A call that is decided stays so. -/
theorem outcome_of_next (ha : Enabled c s a) (hi : a.internal = true)
    (h : ((next c s a).pc a.thread).outcome = none) :
    (s.pc a.thread).outcome = none := by
  have hset : ∀ {t : τ} {p : Pc T}, s.pc t = p → p.outcome = none →
      (s.pc t).outcome = none := by
    intro t p hp hout
    rw [hp, hout]
  cases a with
  | call t op => cases hi
  | unlock t op out => cases hi
  | storeClosed t => exact hset ha rfl
  | wait t op => exact hset ha rfl
  | wake t op => exact hset ha rfl
  | notifyAll t x => exact hset ha rfl
  | relock t op e =>
      rcases ha.1 with hpc | hpc
      · exact hset hpc rfl
      · exact hset hpc rfl
  | notifyOne t x op out u op' =>
      have hnew : (next c s (.notifyOne t x op out u op')).pc t =
          .unlock op out := Function.update_self _ _ _
      cases (congrArg Pc.outcome hnew).symm.trans h
  | notifyNobody t x op out =>
      have hnew : (next c s (.notifyNobody t x op out)).pc t =
          .unlock op out := Function.update_self _ _ _
      cases (congrArg Pc.outcome hnew).symm.trans h
  | _ => exact hset ha.1 rfl

omit [DecidableEq τ] in
theorem arrivesBy_afterLock (op : Op T) : (afterLock c op).ArrivesBy a := by
  cases op with
  | send k v =>
      cases k <;> by_cases hb : c.policy.isBounded = true <;>
        simp [afterLock, hb, Pc.ArrivesBy]
  | receive k => cases k <;> trivial
  | close => trivial

omit [DecidableEq τ] in
theorem arrivesBy_afterTake (k : ReceiveKind) (v : T) :
    (afterTake c k v).ArrivesBy a := by
  by_cases hb : c.policy.isBounded = true <;>
    simp [afterTake, hb, Pc.ArrivesBy]

/-- A thread decides to wait, waits, and is about to push, by one kind of
step each, and only a call of `close` leads to the store to `closed_`. -/
theorem arrivesBy_next (c : Config) (s : State τ T) (a : Action τ T) :
    ((next c s a).pc a.thread).ArrivesBy a := by
  have hset : ∀ {f : τ → Pc T} {t : τ} {q : Pc T}, q.ArrivesBy a →
      (Function.update f t q t).ArrivesBy a := by
    intro f t q hq
    rwa [Function.update_self]
  cases a with
  | call t op =>
      refine hset ?_
      cases op with
      | close => exact rfl
      | _ => trivial
  | lock t op => exact hset (arrivesBy_afterLock op)
  | testTrue t op e =>
      refine hset ?_
      cases op <;> trivial
  | testFalse t op => exact hset rfl
  | wait t op => exact hset rfl
  | loadOpen t k v => exact hset rfl
  | popFront t k v => exact hset (arrivesBy_afterTake k v)
  | notifyAll t x =>
      refine hset ?_
      cases x <;> trivial
  | _ => exact hset trivial

theorem next_pc_ne_storeClosed (hi : a.internal = true) :
    (next c s a).pc a.thread ≠ .storeClosed := by
  intro hpc
  have harrives := arrivesBy_next c s a
  rw [hpc] at harrives
  exact Bool.false_ne_true (harrives.symm.trans hi)

theorem next_closed (hc : s.closed = true) : (next c s a).closed = true := by
  cases a <;> first | exact hc | rfl

/-- Only a thread inside a section changes the buffer. -/
theorem next_buffer (ha : Enabled c s a)
    (hout : (s.pc a.thread).holdsMutex = false) :
    (next c s a).buffer = s.buffer := by
  cases a with
  | pushBack t k v =>
      change (s.pc t).holdsMutex = false at hout
      rw [ha.1] at hout
      cases hout
  | popFront t k v =>
      change (s.pc t).holdsMutex = false at hout
      rw [ha.1] at hout
      cases hout
  | _ => rfl

end Frame

/-! ## Mutual exclusion -/

/-- The owner of `mutex_` is the thread inside a section. -/
abbrev Exclusive (s : State τ T) : Prop :=
  Guards Pc.holdsMutex s.mutex s.pc

theorem exclusive_next {c : Config} {s : State τ T} {a : Action τ T}
    (h : Exclusive s) (ha : Enabled c s a) : Exclusive (next c s a) := by
  cases a with
  | call t op =>
      exact h.stay (by rw [show s.pc t = .idle from ha,
        holdsMutex_afterCall]; rfl)
  | storeClosed t =>
      exact h.stay (by rw [show s.pc t = .storeClosed from ha]; rfl)
  | lock t op => exact h.enter ha.2 (holdsMutex_afterLock c op)
  | testTrue t op e =>
      exact h.stay (by rw [ha.1, holdsMutex_afterWait]; rfl)
  | testFalse t op => exact h.stay (by rw [ha.1]; rfl)
  | testExpired t op => exact h.stay (by rw [ha.1]; rfl)
  | wait t op =>
      exact h.leave (by rw [show s.pc t = .block op from ha]; rfl) rfl
  | wake t op =>
      exact h.stay (by rw [show s.pc t = .waiting op from ha]; rfl)
  | relock t op e => exact h.enter ha.2.1 rfl
  | loadClosed t k v => exact h.stay (by rw [ha.1]; rfl)
  | loadOpen t k v => exact h.stay (by rw [ha.1]; rfl)
  | pushBack t k v => exact h.stay (by rw [ha.1]; rfl)
  | pushFull t v => exact h.stay (by rw [ha.1]; rfl)
  | pushThrow t k v => exact h.stay (by rw [ha.1]; rfl)
  | popFront t k v =>
      exact h.stay (by rw [ha.1, holdsMutex_afterTake]; rfl)
  | popEmpty t k => exact h.stay (by rw [ha.1]; rfl)
  | notifyOne t x op out u op' =>
      obtain ⟨ht, hu, -⟩ := ha
      have htu : t ≠ u := by
        rintro rfl
        rw [ht] at hu
        cases hu
      have h' : Guards Pc.holdsMutex s.mutex
          (Function.update s.pc u (.notified op')) :=
        h.stay (by rw [hu]; rfl)
      exact h'.stay (by rw [Function.update_of_ne htu, ht]; rfl)
  | notifyNobody t x op out => exact h.stay (by rw [ha.1]; rfl)
  | notifyAll t x =>
      have h' := h.map (Pc.holdsMutex_mark x)
      refine h'.stay ?_
      rw [holdsMutex_afterNotifyAll, Pc.holdsMutex_mark,
        show s.pc t = .notifyAll x from ha]
      rfl
  | unlock t op out =>
      exact h.leave (by rw [show s.pc t = .unlock op out from ha]; rfl) rfl

/-! ## What the program points know -/

/-- What a thread standing at a program point may rely on. -/
def Pc.Ok (c : Config) (s : State τ T) : Pc T → Prop
  | .lock op => op = .close → s.closed = true
  | .test op _ | .waiting op | .notified op | .woken op => op ≠ .close
  | .block op =>
      op ≠ .close ∧ waitPredicate c { s with closed := false } op = false
  | .checkClosed k _ =>
      k = .trySend ∨ s.closed = true ∨ canSend c s = true
  | .push k _ => k = .trySend ∨ canSend c s = true
  | .take k => k = .tryReceive ∨ s.buffer ≠ [] ∨ s.closed = true
  | .notifyOne _ op out => op ≠ .close ∧ reportsEnd op out = false
  | .notifyAll _ => s.closed = true
  | .unlock op out =>
      (op = .close → s.closed = true) ∧
        (reportsEnd op out = true → s.closed = true ∧ s.buffer = [])
  | .idle | .storeClosed => True

omit [DecidableEq τ] in
/-- What a thread knows survives the steps of others: `closed_` stays set,
and the buffer stays unchanged while the thread holds the mutex. -/
theorem Pc.Ok.transfer {c : Config} {s s' : State τ T} {p : Pc T}
    (h : p.Ok c s) (hclosed : s.closed = true → s'.closed = true)
    (hbuffer : p.holdsMutex = true → s'.buffer = s.buffer) :
    p.Ok c s' := by
  cases p with
  | lock op => exact fun hop => hclosed (h hop)
  | block op =>
      have hb := hbuffer rfl
      refine ⟨h.1, ?_⟩
      rw [← h.2]
      cases op <;> simp [waitPredicate, canSend, hb]
  | checkClosed k v =>
      rcases h with h | h | h
      · exact Or.inl h
      · exact Or.inr (Or.inl (hclosed h))
      · exact Or.inr (Or.inr ((canSend_congr (hbuffer rfl)).trans h))
  | push k v =>
      exact h.imp_right fun h => (canSend_congr (hbuffer rfl)).trans h
  | take k =>
      rcases h with h | h | h
      · exact Or.inl h
      · exact Or.inr (Or.inl (by rwa [hbuffer rfl]))
      · exact Or.inr (Or.inr (hclosed h))
  | notifyAll x => exact hclosed h
  | unlock op out =>
      refine ⟨fun hop => hclosed (h.1 hop), fun hend => ?_⟩
      exact ⟨hclosed (h.2 hend).1, by rw [hbuffer rfl]; exact (h.2 hend).2⟩
  | _ => exact h

omit [DecidableEq τ] in
theorem waitPredicate_open {c : Config} {s : State τ T} {op : Op T}
    (h : waitPredicate c s op = false) :
    waitPredicate c { s with closed := false } op = false := by
  cases op <;> simp_all [waitPredicate, canSend]

omit [DecidableEq τ] in
theorem canSend_of_not_isBounded {c : Config} {s : State τ T}
    (h : ¬c.policy.isBounded = true) : canSend c s = true := by
  unfold canSend
  cases hp : c.policy with
  | bounded n => simp [hp, BoundednessPolicy.isBounded] at h
  | unbounded => rfl

omit [DecidableEq τ] in
theorem ok_afterLock {c : Config} {s : State τ T} {op : Op T}
    (h : op = .close → s.closed = true) : (afterLock c op).Ok c s := by
  cases op with
  | send k v =>
      by_cases hb : c.policy.isBounded = true
      · cases k <;> simp [afterLock, hb, Pc.Ok]
      · cases k <;>
          simp [afterLock, hb, Pc.Ok, canSend_of_not_isBounded hb]
  | receive k => cases k <;> simp [afterLock, Pc.Ok]
  | close => exact h rfl

omit [DecidableEq τ] in
theorem ok_afterWait {c : Config} {s : State τ T} {op : Op T}
    (hop : op ≠ .close) (hw : waitPredicate c s op = true) :
    (afterWait op).Ok c s := by
  cases op with
  | send k v =>
      simp only [waitPredicate, Bool.or_eq_true] at hw
      exact Or.inr hw
  | receive k =>
      simp only [waitPredicate, Bool.or_eq_true, Bool.not_eq_true',
        List.isEmpty_eq_false_iff] at hw
      exact Or.inr hw
  | close => exact absurd rfl hop

omit [DecidableEq τ] in
theorem ok_afterTake {c : Config} {s : State τ T} {k : ReceiveKind} {v : T} :
    (afterTake c k v).Ok c s := by
  by_cases hb : c.policy.isBounded = true <;> cases k <;>
    simp [afterTake, hb, Pc.Ok, reportsEnd, ReceiveKind.outcomeReceived]

omit [DecidableEq τ] in
theorem ok_of_update {c : Config} {s' : State τ T} {pc : τ → Pc T} {t : τ}
    {q : Pc T} [DecidableEq τ] (hpc : s'.pc = Function.update pc t q)
    (h : q.Ok c s') : (s'.pc t).Ok c s' := by
  rw [hpc, Function.update_self]
  exact h

theorem ok_thread {c : Config} {s : State τ T} {a : Action τ T}
    (h : (s.pc a.thread).Ok c s) (ha : Enabled c s a) :
    ((next c s a).pc a.thread).Ok c (next c s a) := by
  cases a with
  | call t op =>
      refine ok_of_update rfl ?_
      cases op <;> simp [afterCall, Pc.Ok]
  | storeClosed t => exact ok_of_update rfl fun _ => rfl
  | lock t op =>
      change (s.pc t).Ok c s at h
      rw [ha.1] at h
      exact ok_of_update rfl (ok_afterLock h)
  | testTrue t op e =>
      change (s.pc t).Ok c s at h
      rw [ha.1] at h
      exact ok_of_update rfl (ok_afterWait h ha.2)
  | testFalse t op =>
      change (s.pc t).Ok c s at h
      rw [ha.1] at h
      exact ok_of_update rfl ⟨h, waitPredicate_open ha.2⟩
  | testExpired t op =>
      change (s.pc t).Ok c s at h
      rw [ha.1] at h
      refine ok_of_update rfl ⟨fun hop => absurd hop h, ?_⟩
      cases op with
      | send k v => simp [reportsEnd]
      | receive k => cases k <;> simp [reportsEnd, Op.outcomeTimeout]
      | close => simp [reportsEnd]
  | wait t op =>
      change (s.pc t).Ok c s at h
      rw [show s.pc t = .block op from ha] at h
      exact ok_of_update rfl h.1
  | wake t op =>
      change (s.pc t).Ok c s at h
      rw [show s.pc t = .waiting op from ha] at h
      exact ok_of_update rfl h
  | relock t op e =>
      change (s.pc t).Ok c s at h
      have hop : op ≠ .close := by
        rcases ha.1 with hpc | hpc <;> (rw [hpc] at h; exact h)
      exact ok_of_update rfl hop
  | loadClosed t k v =>
      refine ok_of_update rfl ⟨fun hop => (by cases hop), ?_⟩
      simp [reportsEnd]
  | loadOpen t k v =>
      change (s.pc t).Ok c s at h
      rw [ha.1] at h
      refine ok_of_update rfl (h.imp_right fun h => ?_)
      exact h.resolve_left (by simp [ha.2])
  | pushBack t k v =>
      exact ok_of_update rfl ⟨by simp, by cases k <;> rfl⟩
  | pushFull t v =>
      exact ok_of_update rfl ⟨fun hop => (by cases hop), by simp [reportsEnd]⟩
  | pushThrow t k v =>
      exact ok_of_update rfl ⟨fun hop => (by cases hop), by simp [reportsEnd]⟩
  | popFront t k v => exact ok_of_update rfl ok_afterTake
  | popEmpty t k =>
      change (s.pc t).Ok c s at h
      rw [ha.1] at h
      refine ok_of_update rfl ⟨fun hop => (by cases hop), fun hend => ?_⟩
      have hk : k ≠ .tryReceive := by
        rintro rfl
        simp [reportsEnd] at hend
      rcases h with h | h | h
      · exact absurd h hk
      · exact absurd ha.2 h
      · exact ⟨h, ha.2⟩
  | notifyOne t x op out u op' =>
      change (s.pc t).Ok c s at h
      rw [ha.1] at h
      exact ok_of_update rfl ⟨fun hop => absurd hop h.1, by simp [h.2]⟩
  | notifyNobody t x op out =>
      change (s.pc t).Ok c s at h
      rw [ha.1] at h
      exact ok_of_update rfl ⟨fun hop => absurd hop h.1, by simp [h.2]⟩
  | notifyAll t x =>
      change (s.pc t).Ok c s at h
      rw [show s.pc t = .notifyAll x from ha] at h
      refine ok_of_update rfl ?_
      cases x with
      | cv => exact h
      | sendCv => exact ⟨fun _ => h, by simp [reportsEnd]⟩
  | unlock t op out => exact ok_of_update rfl trivial

structure WellFormed (c : Config) (s : State τ T) : Prop where
  exclusive : Exclusive s
  ok : ∀ t, (s.pc t).Ok c s

theorem wellFormed_next {c : Config} {s : State τ T} {a : Action τ T}
    (h : WellFormed c s) (ha : Enabled c s a) :
    WellFormed c (next c s a) := by
  refine ⟨exclusive_next h.exclusive ha, fun u => ?_⟩
  by_cases hu : u = a.thread
  · subst hu
    exact ok_thread (h.ok _) ha
  have hbuffer : (s.pc u).holdsMutex = true →
      (next c s a).buffer = s.buffer := by
    intro hin
    apply next_buffer ha
    exact h.exclusive.outside_of_ne hin (Ne.symm hu)
  have hkept := (h.ok u).transfer next_closed hbuffer
  rcases next_pc_of_ne ha hu with hpc | ⟨op, hold, hnew⟩
  · rw [hpc]
    exact hkept
  · rw [hold] at hkept
    rw [hnew]
    exact hkept

theorem wellFormed_reachable {c : Config} {s : State τ T}
    (hs : (system c τ T).Reachable s) : WellFormed c s := by
  refine TransitionSystem.Reachable.invariant hs (WellFormed c) ?_
    fun s a h ha => wellFormed_next h ha
  rintro s rfl
  exact ⟨fun t => by simp [initialState, Pc.holdsMutex], fun t => trivial⟩

/-! ## The operations that never wait -/

/-- The operation of a thread that tests its wait predicate or waits. -/
def Pc.waitOp : Pc T → Option (Op T)
  | test op _ | block op | waiting op | notified op | woken op => some op
  | _ => none

/-- `try_send` and `try_receive`. -/
def Op.tries : Op T → Bool
  | send .trySend _ => true
  | receive .tryReceive => true
  | _ => false

/-- Nobody waits in a `try_send` or a `try_receive`. -/
def TriesDoNotWait (s : State τ T) : Prop :=
  ∀ t op, (s.pc t).waitOp = some op → op.tries = false

omit [DecidableEq τ] in
theorem tries_of_waitOp_afterLock {c : Config} {op op' : Op T}
    (h : (afterLock c op).waitOp = some op') : op'.tries = false := by
  cases op with
  | send k v =>
      cases k <;> by_cases hb : c.policy.isBounded = true <;>
        simp [afterLock, hb, Pc.waitOp] at h <;> subst h <;> rfl
  | receive k =>
      cases k <;> simp [afterLock, Pc.waitOp] at h <;> subst h <;> rfl
  | close => cases h

theorem triesDoNotWait_next {c : Config} {s : State τ T} {a : Action τ T}
    (h : TriesDoNotWait s) (ha : Enabled c s a) :
    TriesDoNotWait (next c s a) := by
  have hkeep : ∀ {t : τ} {p : Pc T} {op : Op T}, s.pc t = p →
      p.waitOp = some op → op.tries = false := by
    intro t p op hp hop
    exact h t op (by rw [hp, hop])
  intro u op hop
  by_cases hu : u = a.thread
  swap
  · rcases next_pc_of_ne ha hu with hpc | ⟨op', hold, hnew⟩
    · exact h u op (hpc ▸ hop)
    · rw [hnew] at hop
      exact hkeep hold hop
  subst hu
  have hset : ∀ {f : τ → Pc T} {t : τ} {q : Pc T},
      (Function.update f t q t).waitOp = some op → q.waitOp = some op := by
    intro f t q hq
    rwa [Function.update_self] at hq
  cases a with
  | lock t op' => exact tries_of_waitOp_afterLock (hset hop)
  | testFalse t op' =>
      have hop' : some op' = some op := hset hop
      exact hkeep ha.1 hop'
  | wait t op' =>
      have hop' : some op' = some op := hset hop
      exact hkeep ha hop'
  | wake t op' =>
      have hop' : some op' = some op := hset hop
      exact hkeep ha hop'
  | relock t op' e =>
      have hop' : some op' = some op := hset hop
      rcases ha.1 with hpc | hpc
      · exact hkeep hpc hop'
      · exact hkeep hpc hop'
  | call t op' =>
      have := hset hop
      cases op' <;> cases this
  | testTrue t op' e =>
      have := hset hop
      cases op' <;> cases this
  | popFront t k v =>
      have := hset hop
      by_cases hb : c.policy.isBounded = true <;>
        simp [afterTake, hb, Pc.waitOp] at this
  | notifyAll t x =>
      have := hset hop
      cases x <;> cases this
  | _ => cases hset hop

theorem triesDoNotWait_reachable {c : Config} {s : State τ T}
    (hs : (system c τ T).Reachable s) : TriesDoNotWait s := by
  refine TransitionSystem.Reachable.invariant hs TriesDoNotWait ?_
    fun s a h ha => triesDoNotWait_next h ha
  rintro s rfl t op hop
  cases hop

end SyncChannel
end Ethreads
