import Ethreads.SyncChannel.Fifo
import Ethreads.Support.Tally

/-!
# No thread blocked in the channel is stranded

A notification is a token: it is issued after the buffer has changed, carried
by the notified thread until it has the mutex again, and spent when that thread
takes or adds a value or finds that there is nothing to do.  The invariant says
that as long as somebody waits, there are at least as many tokens under way as
there are values to take, respectively free slots to fill.
-/

namespace Ethreads
namespace SyncChannel

variable {τ T : Type*}

/-- How many waits on a condition variable could succeed right now. -/
def available (c : Config) (s : State τ T) : CondVar → ℕ
  | .cv => s.buffer.length
  | .sendCv =>
      match c.policy with
      | .bounded n => if s.closed then 0 else n - s.buffer.length
      | .unbounded => 0

/-- The tokens carried by a thread: a notification that it still has to
issue, that it has received, or that it is about to spend. -/
def Pc.token (x : CondVar) : Pc T → ℕ
  | .notified op => if op.waitsOn x then 1 else 0
  | .test op _ => if op.waitsOn x then 1 else 0
  | .take _ => if x = .cv then 1 else 0
  | .checkClosed _ _ => if x = .sendCv then 1 else 0
  | .push _ _ => if x = .sendCv then 1 else 0
  | .notifyOne y _ _ => if x = y then 1 else 0
  | _ => 0

/-- A notified thread of the condition variable that has not yet re-checked
its predicate. -/
def Pc.notifiedOn (x : CondVar) : Pc T → ℕ
  | .notified op => if op.waitsOn x then 1 else 0
  | _ => 0

variable [DecidableEq τ]

/-- A thread that waits after a step was waiting before, unless the step is
its own wait. -/
theorem waitsOn_of_next {c : Config} {s : State τ T} {a : Action τ T}
    (ha : Enabled c s a) {x : CondVar} {u : τ}
    (hu : ((next c s a).pc u).waitsOn x = true) :
    (s.pc u).waitsOn x = true ∨
      ∃ op, a = .wait u op ∧ op.waitsOn x = true := by
  by_cases hua : u = a.thread
  · subst hua
    have harrives := arrivesBy_next c s a
    cases hpc : (next c s a).pc a.thread with
    | waiting op =>
        rw [hpc] at harrives hu
        exact Or.inr ⟨op, harrives, hu⟩
    | _ =>
        rw [hpc] at hu
        cases hu
  · rcases next_pc_of_ne ha hua with hpc | ⟨op, -, hnew⟩
    · exact Or.inl (hpc ▸ hu)
    · rw [hnew] at hu
      cases hu

omit [DecidableEq τ] in
/-- A full channel has no room for a sender. -/
theorem available_of_full {c : Config} {s : State τ T}
    (h : canSend c s = false) : available c s .sendCv = 0 := by
  unfold canSend at h
  unfold available
  cases hp : c.policy with
  | unbounded => rfl
  | bounded n =>
      simp only [hp, decide_eq_false_iff_not, not_lt] at h
      simp only [Nat.sub_eq_zero_of_le h, ite_self]

omit [DecidableEq τ] in
/-- A thread about to wait has seen that its wait cannot succeed. -/
theorem available_eq_zero_of_waitPredicate {c : Config} {s : State τ T}
    {op : Op T} {x : CondVar}
    (hw : waitPredicate c { s with closed := false } op = false)
    (hx : op.waitsOn x = true) : available c s x = 0 := by
  cases op with
  | send k v =>
      cases x with
      | cv => cases hx
      | sendCv =>
          have hfull : canSend c s = false := by
            simpa [waitPredicate, canSend] using hw
          exact available_of_full hfull
  | receive k =>
      cases x with
      | cv =>
          simp only [waitPredicate, Bool.or_false, Bool.not_eq_false',
            List.isEmpty_iff] at hw
          simp [available, hw]
      | sendCv => cases hx
  | close => cases x <;> cases hx

/-! ## Tokens cover what is available -/

/-- Senders only ever wait on a channel whose bound the deque can reach. -/
def BoundFits (c : Config) (s : State τ T) : Prop :=
  ∀ t, (s.pc t).waitsOn .sendCv = true →
    ∀ n, c.policy = .bounded n → n ≤ c.dequeMaxSize

theorem boundFits_next {c : Config} {s : State τ T} {a : Action τ T}
    (hwf : WellFormed c s) (hb : Bounded c s) (h : BoundFits c s)
    (ha : Enabled c s a) : BoundFits c (next c s a) := by
  intro u hu n hn
  rcases waitsOn_of_next ha hu with hold | ⟨op, rfl, hop⟩
  · exact h u hold n hn
  · have hok := hwf.ok u
    rw [show s.pc u = .block op from ha] at hok
    have hzero : canSend c s = false := by
      cases op with
      | send k v => simpa [waitPredicate, canSend] using hok.2
      | receive k => cases hop
      | close => cases hop
    simp only [canSend, hn, decide_eq_false_iff_not, not_lt] at hzero
    exact hzero.trans hb.2

omit [DecidableEq τ] in
theorem Pc.token_mark {x y : CondVar} (hxy : x ≠ y) (p : Pc T) :
    (p.mark y).token x = p.token x := by
  cases p with
  | waiting op =>
      by_cases hop : op.waitsOn y = true
      · have hopx : op.waitsOn x = false := by
          cases op <;> cases x <;> cases y <;> simp_all [Op.waitsOn]
        simp [mark, hop, token, hopx]
      · simp [mark, hop]
  | _ => rfl

/-- After `notify_all` nobody waits on the condition variable. -/
theorem not_waitsOn_of_notifyAll {c : Config} {s : State τ T} {t u : τ}
    {x : CondVar} (ha : Enabled c s (.notifyAll t x)) :
    ¬((next c s (.notifyAll t x)).pc u).waitsOn x = true := by
  by_cases hu : u = t
  · subst hu
    cases x <;> simp [next, afterNotifyAll, Pc.waitsOn]
  · simp only [next, goto_pc, Function.update_of_ne hu]
    cases hp : s.pc u with
    | waiting op =>
        by_cases hop : op.waitsOn x = true <;>
          simp [Pc.mark, hop, Pc.waitsOn]
    | _ => simp [Pc.mark, Pc.waitsOn]

variable [Fintype τ]

/-- If a thread waits, the tokens under way cover what is available. -/
def Covered (c : Config) (s : State τ T) : Prop :=
  ∀ x u, (s.pc u).waitsOn x = true →
    available c s x ≤ tally (Pc.token x) s.pc

omit [Fintype τ] in
theorem available_pushBack_cv {c : Config} {s : State τ T} {t : τ}
    {k : SendKind} {v : T} :
    available c (next c s (.pushBack t k v)) .cv = available c s .cv + 1 := by
  simp [available, next]

omit [Fintype τ] in
theorem available_pushBack_sendCv {c : Config} {s : State τ T} {t : τ}
    {k : SendKind} {v : T} :
    available c (next c s (.pushBack t k v)) .sendCv =
      available c s .sendCv - 1 := by
  cases hp : c.policy with
  | unbounded => simp [available, hp]
  | bounded n =>
      by_cases hc : s.closed = true
      · simp [available, next, hp, hc]
      · simp [available, next, hp, hc, Nat.sub_sub]

omit [Fintype τ] in
/-- Taking a value spends a token of the receivers and, on a bounded channel,
issues one to the senders. -/
theorem available_popFront {c : Config} {s : State τ T} {t : τ}
    {k : ReceiveKind} {v : T} (hv : s.buffer.head? = some v) (x : CondVar) :
    available c (next c s (.popFront t k v)) x +
        (Pc.take k : Pc T).token x ≤
      available c s x + (afterTake c k v).token x := by
  have hlen : s.buffer.length = s.buffer.tail.length + 1 := by
    rw [← List.cons_head?_tail hv]
    rfl
  have hbuf : (next c s (.popFront t k v)).buffer.length + 1 =
      s.buffer.length := hlen.symm
  cases x with
  | cv => exact (le_of_eq hbuf).trans (Nat.le_add_right _ _)
  | sendCv =>
      cases hp : c.policy with
      | unbounded => simp [available, hp, Pc.token]
      | bounded n =>
          have htok : (afterTake c k v).token .sendCv = 1 := by
            simp [afterTake, hp, BoundednessPolicy.isBounded, Pc.token]
          have hzero : (Pc.take k : Pc T).token .sendCv = 0 := rfl
          by_cases hc : s.closed = true
          · have hc' : (next c s (.popFront t k v)).closed = true := hc
            simp [available, hp, hc', hzero]
          · have hc' : ¬(next c s (.popFront t k v)).closed = true := hc
            simp only [available, hp, hc, hc', htok, hzero,
              Bool.false_eq_true, if_false]
            omega

/-- The tokens after a step that moves only its own thread. -/
theorem token_update {s s' : State τ T} {t : τ} {p q : Pc T}
    (hpc : s.pc t = p) (hs' : s'.pc = Function.update s.pc t q)
    (x : CondVar) :
    tally (Pc.token x) s'.pc + p.token x =
      tally (Pc.token x) s.pc + q.token x := by
  rw [hs', ← hpc]
  exact tally_update _ _ _ _

omit [Fintype τ] [DecidableEq τ] in
theorem available_le_of_closed {c : Config} {s s' : State τ T}
    (hb : s'.buffer = s.buffer) (hc : s'.closed = true) (x : CondVar) :
    available c s' x ≤ available c s x := by
  cases x with
  | cv => simp [available, hb]
  | sendCv => cases hp : c.policy <;> simp [available, hc, hp]

/-- A step that moves its thread from `p` to `q` keeps the tokens sufficient
if it spends no more tokens than it uses up. -/
theorem available_le_of_update {c : Config} {s s' : State τ T} {t : τ}
    {p q : Pc T} {x : CondVar} (hpc : s.pc t = p)
    (hs' : s'.pc = Function.update s.pc t q)
    (hle : available c s x ≤ tally (Pc.token x) s.pc)
    (hbal : available c s' x + p.token x ≤ available c s x + q.token x) :
    available c s' x ≤ tally (Pc.token x) s'.pc := by
  have := token_update hpc hs' x
  omega

omit [DecidableEq τ] in
/-- Nothing needs to be covered when nothing is available. -/
theorem available_le_of_eq_zero {c : Config} {s : State τ T} {x : CondVar}
    (h : available c s x = 0) :
    available c s x ≤ tally (Pc.token x) s.pc :=
  h ▸ Nat.zero_le _

/-- A thread that has found its predicate false has no use for what is
available. -/
theorem available_le_of_testFalse {c : Config} {s s' : State τ T} {t : τ}
    {op : Op T} {e : Bool} {q : Pc T} {x : CondVar}
    (hpc : s.pc t = .test op e) (hw : waitPredicate c s op = false)
    (hs' : s'.pc = Function.update s.pc t q)
    (hsame : available c s' x = available c s x)
    (hle : available c s x ≤ tally (Pc.token x) s.pc) :
    available c s' x ≤ tally (Pc.token x) s'.pc := by
  by_cases hop : op.waitsOn x = true
  · have hzero := available_eq_zero_of_waitPredicate
      (waitPredicate_open hw) hop
    exact available_le_of_eq_zero (hsame.trans hzero)
  · refine available_le_of_update hpc hs' hle ?_
    rw [hsame]
    exact Nat.add_le_add le_rfl (by simp [Pc.token, hop])

/-- A new value comes with a token for a receiver. -/
theorem available_le_pushBack {c : Config} {s : State τ T} {t : τ}
    {k : SendKind} {v : T} {x : CondVar} (hpc : s.pc t = .push k v)
    (hle : available c s x ≤ tally (Pc.token x) s.pc) :
    available c (next c s (.pushBack t k v)) x ≤
      tally (Pc.token x) (next c s (.pushBack t k v)).pc := by
  cases x with
  | cv =>
      exact available_le_of_update hpc rfl hle
        (le_of_eq (congrArg (· + 0) available_pushBack_cv))
  | sendCv =>
      have hpc' : (next c s (.pushBack t k v)).pc =
          Function.update s.pc t
            (.notifyOne .cv (.send k v) k.outcomeSent) := rfl
      have htok := token_update hpc hpc' .sendCv
      rw [available_pushBack_sendCv]
      simp only [Pc.token] at htok
      simp only [reduceCtorEq, if_true, if_false] at htok
      omega

/-- The token of `notify_one` goes to the thread that it wakes. -/
theorem available_le_notifyOne {c : Config} {s : State τ T} {t w : τ}
    {y x : CondVar} {op op' : Op T} {out : Outcome T}
    (ha : Enabled c s (.notifyOne t y op out w op'))
    (hle : available c s x ≤ tally (Pc.token x) s.pc) :
    available c (next c s (.notifyOne t y op out w op')) x ≤
      tally (Pc.token x) (next c s (.notifyOne t y op out w op')).pc := by
  obtain ⟨ht, hw, hop⟩ := ha
  have htw : t ≠ w := by
    rintro rfl
    rw [ht] at hw
    cases hw
  have ht' : (s.goto w (.notified op')).pc t = .notifyOne y op out := by
    rw [goto_pc, Function.update_of_ne htw, ht]
  have hmid := token_update hw (goto_pc s w (.notified op')) x
  have hend := token_update ht'
    (goto_pc (s.goto w (.notified op')) t (.unlock op out)) x
  have hnext : (next c s (.notifyOne t y op out w op')).pc =
    ((s.goto w (.notified op')).goto t (.unlock op out)).pc := rfl
  have hbal : (if x = y then 1 else 0) ≤
      Pc.token x (.notified op' : Pc T) := by
    by_cases hxy : x = y
    · subst hxy
      simp [Pc.token, hop]
    · simp [hxy]
  have hsame : available c (next c s (.notifyOne t y op out w op')) x =
    available c s x := rfl
  rw [hsame, hnext]
  simp only [Pc.token] at hmid hend hbal
  omega

/-- `notify_all` leaves those alone who wait on the other condition
variable. -/
theorem available_le_notifyAll {c : Config} {s : State τ T} {t u : τ}
    {y x : CondVar} (ha : Enabled c s (.notifyAll t y))
    (hu : ((next c s (.notifyAll t y)).pc u).waitsOn x = true)
    (hle : available c s x ≤ tally (Pc.token x) s.pc) :
    available c (next c s (.notifyAll t y)) x ≤
      tally (Pc.token x) (next c s (.notifyAll t y)).pc := by
  have hpc : s.pc t = .notifyAll y := ha
  have hxy : x ≠ y := by
    rintro rfl
    exact not_waitsOn_of_notifyAll ha hu
  have hmark : tally (Pc.token x) (fun w => (s.pc w).mark y) =
      tally (Pc.token x) s.pc :=
    tally_congr fun w => Pc.token_mark hxy (s.pc w)
  have hpc' : (s.pc t).mark y = .notifyAll y := by
    rw [hpc]
    rfl
  have htok : tally (Pc.token x) (next c s (.notifyAll t y)).pc +
        (Pc.notifyAll y : Pc T).token x =
      tally (Pc.token x) (fun w => (s.pc w).mark y) +
        (afterNotifyAll y : Pc T).token x := by
    rw [← hpc']
    exact tally_update _ _ _ _
  have hq : (afterNotifyAll y : Pc T).token x = 0 := by
    cases y <;> rfl
  rw [hq, hmark] at htok
  exact hle.trans (le_of_eq htok.symm)

theorem covered_next {c : Config} {s : State τ T} {a : Action τ T}
    (hwf : WellFormed c s) (hfits : BoundFits c s) (h : Covered c s)
    (ha : Enabled c s a) : Covered c (next c s a) := by
  intro x u hu
  have hwait := waitsOn_of_next ha hu
  by_cases hown : ∃ t op, a = .wait t op
  · obtain ⟨t, op, rfl⟩ := hown
    have hpc : s.pc t = .block op := ha
    rcases hwait with hold | ⟨op', heq, hop⟩
    · exact available_le_of_update hpc rfl (h x u hold) le_rfl
    · cases heq
      have hok := hwf.ok u
      rw [hpc] at hok
      exact available_le_of_eq_zero
        (available_eq_zero_of_waitPredicate hok.2 hop)
  have hold : (s.pc u).waitsOn x = true := by
    rcases hwait with hold | ⟨op, rfl, -⟩
    · exact hold
    · exact absurd ⟨u, op, rfl⟩ hown
  have hle := h x u hold
  cases a with
  | call t op =>
      exact available_le_of_update (show s.pc t = .idle from ha) rfl hle
        (Nat.le_add_right _ _)
  | storeClosed t =>
      have hb : (next c s (.storeClosed t)).buffer = s.buffer := rfl
      have hc : (next c s (.storeClosed t)).closed = true := rfl
      exact available_le_of_update (show s.pc t = .storeClosed from ha) rfl
        hle (available_le_of_closed hb hc x)
  | lock t op =>
      exact available_le_of_update ha.1 rfl hle (Nat.le_add_right _ _)
  | testTrue t op e =>
      refine available_le_of_update ha.1 rfl hle
        (Nat.add_le_add le_rfl ?_)
      cases op <;> cases x <;> simp [Pc.token, afterWait, Op.waitsOn]
  | testFalse t op =>
      exact available_le_of_testFalse ha.1 ha.2 rfl rfl hle
  | testExpired t op =>
      exact available_le_of_testFalse ha.1 ha.2 rfl rfl hle
  | wait t op => exact absurd ⟨t, op, rfl⟩ hown
  | wake t op =>
      exact available_le_of_update (show s.pc t = .waiting op from ha) rfl
        hle le_rfl
  | relock t op e =>
      rcases ha.1 with hpc | hpc
      · exact available_le_of_update hpc rfl hle le_rfl
      · exact available_le_of_update hpc rfl hle (Nat.le_add_right _ _)
  | loadClosed t k v =>
      cases x with
      | cv => exact available_le_of_update ha.1 rfl hle le_rfl
      | sendCv =>
          refine available_le_of_eq_zero ?_
          cases hp : c.policy <;> simp [available, next, ha.2, hp]
  | loadOpen t k v => exact available_le_of_update ha.1 rfl hle le_rfl
  | pushBack t k v => exact available_le_pushBack ha.1 hle
  | pushFull t v =>
      cases x with
      | cv => exact available_le_of_update ha.1 rfl hle le_rfl
      | sendCv =>
          have hzero : available c (next c s (.pushFull t v)) .sendCv = 0 :=
            available_of_full ha.2
          exact available_le_of_eq_zero hzero
  | pushThrow t k v =>
      cases x with
      | cv => exact available_le_of_update ha.1 rfl hle le_rfl
      | sendCv =>
          refine available_le_of_eq_zero ?_
          cases hp : c.policy with
          | unbounded => simp [available, hp]
          | bounded n =>
              have hn := (hfits u hold n hp).trans ha.2.2
              simp [available, next, hp, Nat.sub_eq_zero_of_le hn]
  | popFront t k v =>
      exact available_le_of_update ha.1 rfl hle (available_popFront ha.2 x)
  | popEmpty t k =>
      cases x with
      | cv =>
          refine available_le_of_eq_zero ?_
          simp [available, next, ha.2]
      | sendCv => exact available_le_of_update ha.1 rfl hle le_rfl
  | notifyOne t y op out w op' => exact available_le_notifyOne ha hle
  | notifyNobody t y op out =>
      by_cases hxy : x = y
      · subst hxy
        have := ha.2 u
        rw [hold] at this
        cases this
      · refine available_le_of_update ha.1 rfl hle (Nat.add_le_add le_rfl ?_)
        simp [Pc.token, hxy]
  | notifyAll t y => exact available_le_notifyAll ha hu hle
  | unlock t op out =>
      exact available_le_of_update (show s.pc t = .unlock op out from ha) rfl
        hle le_rfl

/-! ## Closing reaches everybody who waits -/

/-- The calls of `close` that still have to notify a condition variable. -/
def Pc.announces (x : CondVar) : Pc T → Bool
  | .lock .close => true
  | .notifyAll .cv => true
  | .notifyAll .sendCv => decide (x = .sendCv)
  | _ => false

/-- The threads that wait, or will do so without testing again. -/
def Pc.commitsTo (x : CondVar) : Pc T → Bool
  | .block op => op.waitsOn x
  | .waiting op => op.waitsOn x
  | _ => false

/-- On a closed channel somebody is going to notify those who wait. -/
def Announced (s : State τ T) : Prop :=
  s.closed = true → ∀ x u, (s.pc u).commitsTo x = true →
    ∃ w, (s.pc w).announces x = true

omit [DecidableEq τ] [Fintype τ] in
theorem closed_of_waitPredicate {c : Config} {s : State τ T} {op : Op T}
    (h : waitPredicate c s op = false) : s.closed = false := by
  cases op with
  | send k v => exact (Bool.or_eq_false_iff.mp h).1
  | receive k => exact (Bool.or_eq_false_iff.mp h).2
  | close => cases h

omit [Fintype τ] in
/-- A thread decides to wait only while the channel is open. -/
theorem commitsTo_of_next {c : Config} {s : State τ T} {a : Action τ T}
    (ha : Enabled c s a) {x : CondVar} {u : τ}
    (hu : ((next c s a).pc u).commitsTo x = true) :
    (s.pc u).commitsTo x = true ∨
      s.closed = false ∧ (next c s a).closed = false := by
  by_cases hua : u = a.thread
  · subst hua
    have harrives := arrivesBy_next c s a
    cases hpc : (next c s a).pc a.thread with
    | block op =>
        rw [hpc] at harrives
        rw [harrives] at ha ⊢
        have hopen := closed_of_waitPredicate ha.2
        exact Or.inr ⟨hopen, hopen⟩
    | waiting op =>
        rw [hpc] at harrives hu
        rw [harrives] at ha
        have hblock : s.pc a.thread = .block op := ha
        refine Or.inl ?_
        rw [hblock]
        exact hu
    | _ =>
        rw [hpc] at hu
        cases hu
  · rcases next_pc_of_ne ha hua with hpc | ⟨op, -, hnew⟩
    · exact Or.inl (hpc ▸ hu)
    · rw [hnew] at hu
      cases hu

omit [Fintype τ] in
/-- A call of `close` stops announcing to a condition variable only by
notifying it. -/
theorem announces_next {c : Config} {s : State τ T} {a : Action τ T}
    (ha : Enabled c s a) {x : CondVar} {w : τ}
    (hw : (s.pc w).announces x = true) :
    ((next c s a).pc w).announces x = true ∨ a = .notifyAll w x := by
  by_cases hwa : w = a.thread
  · subst hwa
    have hfrom : ∀ p : Pc T, s.pc a.thread = p → p.announces x = true :=
      fun p hp => hp ▸ hw
    have hto : ∀ (pc : τ → Pc T) (t : τ) (q : Pc T),
        q.announces x = true →
          (Function.update pc t q t).announces x = true := by
      intro pc t q hq
      rwa [Function.update_self]
    cases a with
    | lock t op =>
        have := hfrom _ ha.1
        cases op with
        | close => exact Or.inl (hto _ _ _ rfl)
        | _ => cases this
    | notifyAll t y =>
        have := hfrom _ ha
        cases y with
        | cv =>
            cases x with
            | cv => exact Or.inr rfl
            | sendCv => exact Or.inl (hto _ _ _ rfl)
        | sendCv =>
            cases x with
            | cv => cases this
            | sendCv => exact Or.inr rfl
    | call t op => cases hfrom _ ha
    | storeClosed t => cases hfrom _ ha
    | wait t op => cases hfrom _ ha
    | wake t op => cases hfrom _ ha
    | unlock t op out => cases hfrom _ ha
    | relock t op e => rcases ha.1 with hpc | hpc <;> cases hfrom _ hpc
    | _ => cases hfrom _ ha.1
  · rcases next_pc_of_ne ha hwa with hpc | ⟨op, hold, -⟩
    · exact Or.inl (by rw [hpc]; exact hw)
    · rw [hold] at hw
      cases hw

omit [Fintype τ] in
theorem announced_next {c : Config} {s : State τ T} {a : Action τ T}
    (hwf : WellFormed c s) (h : Announced s) (ha : Enabled c s a) :
    Announced (next c s a) := by
  intro hclosed x u hu
  by_cases hstore : ∃ t, a = .storeClosed t
  · obtain ⟨t, rfl⟩ := hstore
    exact ⟨t, by simp [next, Pc.announces]⟩
  have hclosed' : s.closed = true := by
    cases a with
    | storeClosed t => exact absurd ⟨t, rfl⟩ hstore
    | _ => exact hclosed
  rcases commitsTo_of_next ha hu with hold | ⟨hopen, -⟩
  · obtain ⟨w, hw⟩ := h hclosed' x u hold
    rcases announces_next ha hw with hw' | rfl
    · exact ⟨w, hw'⟩
    · exfalso
      have hpc : s.pc w = .notifyAll x := ha
      have huw : u ≠ w := by
        rintro rfl
        rw [hpc] at hold
        cases hold
      have hout := hwf.exclusive.outside_of_ne (by rw [hpc]; rfl) huw
      have hwait : (s.pc u).waitsOn x = true := by
        cases hp : s.pc u with
        | waiting op => rwa [hp] at hold
        | block op => rw [hp] at hout; cases hout
        | _ => rw [hp] at hold; cases hold
      apply not_waitsOn_of_notifyAll ha (u := u)
      rcases next_pc_of_ne ha huw with hsame | ⟨op, -, hnew⟩
      · rw [hsame]
        exact hwait
      · rw [hnew] at hu
        cases hu
  · rw [hopen] at hclosed'
    cases hclosed'

/-! ## Nobody is stranded -/

theorem covered_reachable {c : Config} {s : State τ T}
    (hs : (system c τ T).Reachable s) : BoundFits c s ∧ Covered c s := by
  refine TransitionSystem.Reachable.invariant_of hs
    (fun s => BoundFits c s ∧ Covered c s)
    (fun s hs => And.intro (wellFormed_reachable hs) (bounded_reachable hs))
    ?_ fun s a hJ h ha =>
      ⟨boundFits_next hJ.1 hJ.2 h.1 ha, covered_next hJ.1 h.1 h.2 ha⟩
  rintro s rfl
  exact ⟨fun t h => (by cases h), fun x u h => (by cases h)⟩

omit [Fintype τ] in
theorem announced_reachable {c : Config} {s : State τ T}
    (hs : (system c τ T).Reachable s) : Announced s := by
  refine TransitionSystem.Reachable.invariant_of hs Announced
    (fun s hs => wellFormed_reachable hs) ?_
    fun s a hwf h ha => announced_next hwf h ha
  rintro s rfl
  intro hc
  cases hc

omit [DecidableEq τ] [Fintype τ] in
/-- While nobody holds the mutex, the only tokens are notifications that have
been received and not yet acted upon. -/
theorem token_eq_notifiedOn {p : Pc T} (hp : p.holdsMutex = false)
    (x : CondVar) : p.token x = p.notifiedOn x := by
  cases p <;> first | rfl | cases hp

omit [DecidableEq τ] in
theorem tally_token_of_free {s : State τ T} (h : Exclusive s)
    (hfree : s.mutex = none) (x : CondVar) :
    tally (Pc.token x) s.pc = tally (Pc.notifiedOn x) s.pc :=
  tally_congr fun t => token_eq_notifiedOn (h.outside_of_free hfree t) x

/-- No thread blocked in the channel is left behind. -/
structure NobodyStranded (c : Config) (s : State τ T) : Prop where
  /-- There is a notified receiver for every value in the buffer. -/
  receivers : ∀ u op, s.pc u = .waiting op → op.waitsOn .cv = true →
    s.buffer.length ≤ tally (Pc.notifiedOn .cv) s.pc
  /-- There is a notified sender for every free slot. -/
  senders : ∀ n u op, c.policy = .bounded n → s.closed = false →
    s.pc u = .waiting op → op.waitsOn .sendCv = true →
      n - s.buffer.length ≤ tally (Pc.notifiedOn .sendCv) s.pc
  /-- Some `close` has stored `closed_` but not yet notified. -/
  closing : ∀ u op, s.pc u = .waiting op → s.closed = true →
    ∃ w, s.pc w = .lock .close

/-- Whenever the mutex is free, every thread still waiting in the channel
either has nothing to do or is about to be relieved. -/
theorem nobodyStranded_of_reachable {c : Config} {s : State τ T}
    (hs : (system c τ T).Reachable s) (hfree : s.mutex = none) :
    NobodyStranded c s := by
  have hwf := wellFormed_reachable hs
  have hcov := (covered_reachable hs).2
  have htally := tally_token_of_free hwf.exclusive hfree
  constructor
  · intro u op hu hop
    rw [← htally .cv]
    exact hcov .cv u (by rw [hu]; exact hop)
  · intro n u op hn hopen hu hop
    rw [← htally .sendCv]
    have hle := hcov .sendCv u (by rw [hu]; exact hop)
    simpa [available, hn, hopen] using hle
  · intro u op hu hclosed
    have hop : op ≠ .close := by
      have hok := hwf.ok u
      rwa [hu] at hok
    obtain ⟨x, hx⟩ : ∃ x, op.waitsOn x = true := by
      cases op with
      | send k v => exact ⟨.sendCv, rfl⟩
      | receive k => exact ⟨.cv, rfl⟩
      | close => exact absurd rfl hop
    obtain ⟨w, hw⟩ :=
      announced_reachable hs hclosed x u (by rw [hu]; exact hx)
    have hout := hwf.exclusive.outside_of_free hfree w
    refine ⟨w, ?_⟩
    cases hp : s.pc w with
    | lock op' =>
        cases op' with
        | close => rfl
        | _ => rw [hp] at hw; cases hw
    | notifyAll y => rw [hp] at hout; cases hout
    | _ => rw [hp] at hw; cases hw

/-- A receiver waits on a channel whose `close` has stored the flag but has
not notified anybody. -/
def closeDuringWait : List (Action (Fin 2) ℕ) :=
  [.call 0 (.receive .receive), .lock 0 (.receive .receive),
    .testFalse 0 (.receive .receive), .wait 0 (.receive .receive),
    .call 1 .close, .storeClosed 1]

theorem nobodyStranded_closeDuringWait :
    NobodyStranded singleSlot
      ((system singleSlot (Fin 2) ℕ).after (initialState (Fin 2) ℕ)
        closeDuringWait) :=
  nobodyStranded_of_reachable
    (TransitionSystem.Executes.reachable (.init rfl) (by decide)) rfl

end SyncChannel
end Ethreads
