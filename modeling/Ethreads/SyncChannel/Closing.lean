import Ethreads.SyncChannel.Progress
import Ethreads.Support.Variant

/-!
# Closing the channel ends every call

On a closed channel nobody decides to wait any more, so each call has only a
few steps left, whatever it is doing.  Whoever still waits is going to be
notified, and whoever holds the mutex can go on.  So all calls return, without
the help of other calls, time-outs or spurious wake-ups.
-/

namespace Ethreads
namespace SyncChannel

variable {τ T : Type*}

def Pc.stepsLeft : Pc T → ℕ
  | idle => 0
  | unlock _ _ => 1
  | notifyOne _ _ _ | checkClosed _ _ | notifyAll .sendCv => 2
  | push _ _ | take _ | notifyAll .cv => 3
  | test _ _ => 4
  | lock _ | notified _ | woken _ => 5
  | storeClosed | waiting _ => 6
  | block _ => 7

theorem stepsLeft_le (p : Pc T) : p.stepsLeft ≤ 7 := by
  cases p with
  | notifyAll x => cases x <;> simp [Pc.stepsLeft]
  | _ => simp [Pc.stepsLeft]

theorem stepsLeft_afterLock_lt (c : Config) (op : Op T) :
    (afterLock c op).stepsLeft < 5 := by
  cases op with
  | send k v =>
      by_cases hb : c.policy.isBounded = true <;>
        cases k <;> simp [afterLock, hb, Pc.stepsLeft]
  | receive k => cases k <;> simp [afterLock, Pc.stepsLeft]
  | close => simp [afterLock, Pc.stepsLeft]

theorem stepsLeft_afterWait_lt (op : Op T) :
    (afterWait op).stepsLeft < 4 := by
  cases op <;> simp [afterWait, Pc.stepsLeft]

theorem stepsLeft_afterTake_lt (c : Config) (k : ReceiveKind) (v : T) :
    (afterTake c k v).stepsLeft < 3 := by
  by_cases hb : c.policy.isBounded = true <;>
    simp [afterTake, hb, Pc.stepsLeft]

theorem stepsLeft_afterNotifyAll_lt (x : CondVar) :
    (afterNotifyAll x : Pc T).stepsLeft <
      (Pc.notifyAll x : Pc T).stepsLeft := by
  cases x <;> simp [afterNotifyAll, Pc.stepsLeft]

variable [DecidableEq τ]

/-- A step other than a call brings its thread nearer to the end. -/
theorem stepsLeft_thread_lt {c : Config} {s : State τ T} {a : Action τ T}
    (hclosed : s.closed = true) (ha : Enabled c s a)
    (hcall : ∀ t op, a ≠ .call t op) :
    ((next c s a).pc a.thread).stepsLeft < (s.pc a.thread).stepsLeft := by
  have hset : ∀ {f : τ → Pc T} {t : τ} {p q : Pc T}, s.pc t = p →
      q.stepsLeft < p.stepsLeft →
        (Function.update f t q t).stepsLeft < (s.pc t).stepsLeft := by
    intro f t p q hp hq
    rwa [Function.update_self, hp]
  have htest : ∀ op, waitPredicate c s op ≠ false := by
    intro op hw
    cases hclosed.symm.trans (closed_of_waitPredicate hw)
  cases a with
  | call t op => exact absurd rfl (hcall t op)
  | storeClosed t => exact hset ha (Nat.lt_succ_self 5)
  | lock t op => exact hset ha.1 (stepsLeft_afterLock_lt c op)
  | testTrue t op e => exact hset ha.1 (stepsLeft_afterWait_lt op)
  | testFalse t op => exact absurd ha.2 (htest op)
  | testExpired t op => exact absurd ha.2 (htest op)
  | wait t op => exact hset ha (Nat.lt_succ_self 6)
  | wake t op => exact hset ha (Nat.lt_succ_self 5)
  | relock t op e =>
      rcases ha.1 with hp | hp
      · exact hset hp (Nat.lt_succ_self 4)
      · exact hset hp (Nat.lt_succ_self 4)
  | loadClosed t k v => exact hset ha.1 (Nat.lt_succ_self 1)
  | loadOpen t k v => cases hclosed.symm.trans ha.2
  | pushBack t k v => exact hset ha.1 (Nat.lt_succ_self 2)
  | pushFull t v => exact hset ha.1 (by decide : 1 < 3)
  | pushThrow t k v => exact hset ha.1 (by decide : 1 < 3)
  | popFront t k v => exact hset ha.1 (stepsLeft_afterTake_lt c k v)
  | popEmpty t k => exact hset ha.1 (by decide : 1 < 3)
  | notifyOne t x op out u op' => exact hset ha.1 (Nat.lt_succ_self 1)
  | notifyNobody t x op out => exact hset ha.1 (Nat.lt_succ_self 1)
  | notifyAll t x => exact hset ha (stepsLeft_afterNotifyAll_lt x)
  | unlock t op out => exact hset ha Nat.zero_lt_one

variable [Fintype τ]

def State.stepsLeft (s : State τ T) : ℕ :=
  tally Pc.stepsLeft s.pc

omit [DecidableEq τ] in
theorem State.stepsLeft_le (s : State τ T) :
    s.stepsLeft ≤ 7 * Fintype.card τ := by
  have hle : s.stepsLeft ≤ ∑ _t : τ, 7 :=
    Finset.sum_le_sum fun t _ => SyncChannel.stepsLeft_le (s.pc t)
  rwa [Finset.sum_const_nat fun _ _ => rfl, Finset.card_univ,
    Nat.mul_comm] at hle

theorem stepsLeft_next {c : Config} {s : State τ T} {a : Action τ T}
    (hclosed : s.closed = true) (ha : Enabled c s a)
    (hcall : ∀ t op, a ≠ .call t op) :
    (next c s a).stepsLeft < s.stepsLeft := by
  refine Finset.sum_lt_sum (fun u _ => ?_)
    ⟨a.thread, Finset.mem_univ _, stepsLeft_thread_lt hclosed ha hcall⟩
  by_cases hu : u = a.thread
  · subst hu
    exact (stepsLeft_thread_lt hclosed ha hcall).le
  · rcases next_pc_of_ne ha hu with hpc | ⟨op, hold, hnew⟩
    · rw [hpc]
    · rw [hold, hnew]
      exact Nat.le_succ 5

/-! ## Somebody can go on -/

/-- The steps of the calls that are under way: no new call, and no wake-up
without a notification. -/
def Action.goesOn : Action τ T → Bool
  | call _ _ | wake _ _ => false
  | _ => true

omit [DecidableEq τ] [Fintype τ] in
/-- The holder of the mutex is never blocked. -/
theorem exists_goesOn_of_holdsMutex {c : Config} {s : State τ T} {t : τ}
    (hclosed : s.closed = true) (ht : (s.pc t).holdsMutex = true) :
    ∃ a, Enabled c s a ∧ a.goesOn = true := by
  cases hp : s.pc t with
  | test op e =>
      refine ⟨.testTrue t op e, ⟨hp, ?_⟩, rfl⟩
      by_contra hw
      rw [Bool.not_eq_true] at hw
      cases hclosed.symm.trans (closed_of_waitPredicate hw)
  | block op => exact ⟨.wait t op, hp, rfl⟩
  | checkClosed k v => exact ⟨.loadClosed t k v, ⟨hp, hclosed⟩, rfl⟩
  | push k v =>
      by_cases hfull : k = .trySend ∧ canSend c s = false
      · obtain ⟨rfl, hfull⟩ := hfull
        exact ⟨.pushFull t v, ⟨hp, hfull⟩, rfl⟩
      · have hroom : k = .trySend → canSend c s = true := by
          intro hk
          by_contra hne
          exact hfull ⟨hk, Bool.eq_false_iff.mpr hne⟩
        rcases Nat.lt_or_ge s.buffer.length c.dequeMaxSize with hlt | hge
        · exact ⟨.pushBack t k v, ⟨hp, hroom, hlt⟩, rfl⟩
        · exact ⟨.pushThrow t k v, ⟨hp, hroom, hge⟩, rfl⟩
  | take k =>
      cases hb : s.buffer with
      | nil => exact ⟨.popEmpty t k, ⟨hp, hb⟩, rfl⟩
      | cons v b =>
          refine ⟨.popFront t k v, ⟨hp, ?_⟩, rfl⟩
          rw [hb]
          rfl
  | notifyOne x op out =>
      by_cases hwaits : ∃ u, (s.pc u).waitsOn x = true
      · obtain ⟨u, hu⟩ := hwaits
        cases hpu : s.pc u with
        | waiting op' =>
            rw [hpu] at hu
            exact ⟨.notifyOne t x op out u op', ⟨hp, hpu, hu⟩, rfl⟩
        | _ =>
            rw [hpu] at hu
            cases hu
      · refine ⟨.notifyNobody t x op out, ⟨hp, fun u => ?_⟩, rfl⟩
        exact Bool.eq_false_iff.mpr fun hu => hwaits ⟨u, hu⟩
  | notifyAll x => exact ⟨.notifyAll t x, hp, rfl⟩
  | unlock op out => exact ⟨.unlock t op out, hp, rfl⟩
  | _ =>
      rw [hp] at ht
      cases ht

omit [Fintype τ] in
/-- Somebody is about to notify those who wait. -/
theorem exists_lock_close {c : Config} {s : State τ T}
    (hs : (system c τ T).Reachable s) (hclosed : s.closed = true)
    (hfree : s.mutex = none) {t : τ} {op : Op T} (ht : s.pc t = .waiting op) :
    ∃ w, s.pc w = .lock .close := by
  have hwf := wellFormed_reachable hs
  have hx : ∃ x, op.waitsOn x = true := by
    have hok := hwf.ok t
    rw [ht] at hok
    cases op with
    | send k v => exact ⟨.sendCv, rfl⟩
    | receive k => exact ⟨.cv, rfl⟩
    | close => exact absurd rfl hok
  obtain ⟨x, hx⟩ := hx
  obtain ⟨w, hw⟩ := announced_reachable hs hclosed x t (by rw [ht]; exact hx)
  have hout := hwf.exclusive.outside_of_free hfree w
  refine ⟨w, ?_⟩
  cases hp : s.pc w <;> rw [hp] at hw hout
  case lock op' => cases op' <;> first | rfl | cases hw
  case notifyAll => cases hout
  all_goals cases hw

/-- While a call is under way on a closed channel, one of the calls can take a
step. -/
theorem exists_goesOn {c : Config} {s : State τ T}
    (hs : (system c τ T).Reachable s) (hclosed : s.closed = true) {t : τ}
    (ht : s.pc t ≠ .idle) : ∃ a, Enabled c s a ∧ a.goesOn = true := by
  by_cases hholds : ∃ u, (s.pc u).holdsMutex = true
  · obtain ⟨u, hu⟩ := hholds
    exact exists_goesOn_of_holdsMutex hclosed hu
  have hfree : s.mutex = none := by
    by_contra hm
    obtain ⟨u, hu⟩ := Option.ne_none_iff_exists'.mp hm
    exact hholds ⟨u, ((wellFormed_reachable hs).exclusive u).mpr hu⟩
  cases hp : s.pc t with
  | idle => exact absurd hp ht
  | storeClosed => exact ⟨.storeClosed t, hp, rfl⟩
  | lock op => exact ⟨.lock t op, ⟨hp, hfree⟩, rfl⟩
  | waiting op =>
      obtain ⟨w, hw⟩ := exists_lock_close hs hclosed hfree hp
      exact ⟨.lock w .close, ⟨hw, hfree⟩, rfl⟩
  | notified op => exact ⟨.relock t op false, ⟨Or.inl hp, hfree, nofun⟩, rfl⟩
  | woken op => exact ⟨.relock t op false, ⟨Or.inr hp, hfree, nofun⟩, rfl⟩
  | _ => exact absurd ⟨t, by rw [hp]; rfl⟩ hholds

/-! ## All calls return -/

def withoutCalls (c : Config) (τ T : Type*) [DecidableEq τ] :
    TransitionSystem (State τ T) (Action τ T) :=
  (system c τ T).restrict fun _ a => ∀ t op, a ≠ .call t op

/-- A run without new calls takes a bounded number of steps, and one that
cannot go on without new calls and spurious wake-ups has ended all calls. -/
structure EndsCalls (c : Config) (s : State τ T) : Prop where
  bounded : ∀ l, (withoutCalls c τ T).Executes s l →
    l.length ≤ 7 * Fintype.card τ
  ended : ∀ l, (withoutCalls c τ T).Executes s l →
    (∀ a, Enabled c ((withoutCalls c τ T).after s l) a → a.goesOn = false) →
      ∀ t, ((withoutCalls c τ T).after s l).pc t = .idle

/-- Once a `close` has stored `closed_` all calls return. -/
theorem endsCalls_of_reachable {c : Config} {s : State τ T}
    (hs : (system c τ T).Reachable s) (hclosed : s.closed = true) :
    EndsCalls c s where
  bounded := by
    intro l hl
    have hstep : ∀ s a, s.closed = true → (withoutCalls c τ T).Enabled s a →
        ((withoutCalls c τ T).next s a).stepsLeft < s.stepsLeft :=
      fun s a h ha => stepsLeft_next h ha.1 ha.2
    have hlength := hl.length_add_le State.stepsLeft
      (fun s a h _ => next_closed h) hstep hclosed
    exact (Nat.le_add_right _ _).trans (hlength.trans s.stepsLeft_le)
  ended := by
    intro l hl hstuck t
    by_contra ht
    have hclosed' : ((withoutCalls c τ T).after s l).closed = true :=
      hl.leads.invariant (fun s => s.closed = true)
        (fun _ _ h _ => next_closed h) hclosed
    obtain ⟨a, ha, hgoes⟩ := exists_goesOn (hs.leads hl.leads.of_restrict)
      hclosed' ht
    cases hgoes.symm.trans (hstuck a ha)

theorem endsCalls_closeDuringWait :
    EndsCalls singleSlot
      ((system singleSlot (Fin 2) ℕ).after (initialState (Fin 2) ℕ)
        closeDuringWait) :=
  endsCalls_of_reachable
    (TransitionSystem.Executes.reachable (.init rfl) (by decide)) rfl

end SyncChannel
end Ethreads
