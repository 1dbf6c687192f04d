import Ethreads.AsyncChannel.EndOfStream
import Ethreads.AsyncChannel.Waiting
import Ethreads.SyncChannel.Progress

/-!
# No coroutine suspended in the channel is stranded

A wake-up is a token: it is issued when `send` or `receive` has changed the
buffer, carried through `wake_one` and the scheduler, and spent when the woken
coroutine has made its attempt.  In runs whose steps leave nobody behind there
are, as long as somebody is in a waiter list, at least as many tokens under way
as there are values to take, respectively slots to fill.
-/

namespace Ethreads
namespace AsyncChannel

variable {τ T : Type*}

/-! ## Tokens -/

/-- What the coroutines of a side wait for. -/
def Side.condVar : Side → SyncChannel.CondVar
  | receive => .cv
  | send => .sendCv

/-- The side that a public operation wakes after a call of `sync_channel`. -/
def wakes : SyncChannel.Op T → SyncChannel.Outcome T → Option Side
  | .send .send _, .returned => some .receive
  | .receive .receive, .value _ => some .send
  | _, _ => none

/-- The tokens an agent carries, given how its call of `sync_channel` ends
once that is decided. -/
def Pc.token (side : Side) (out : Option (SyncChannel.Outcome T)) : Pc T → ℕ
  | wake false d => if d = side then 1 else 0
  | waking false d => if d = side then 1 else 0
  | call op => if out.bind (wakes op) = some side then 1 else 0
  | resuming w _ => if w.side = side ∧ out.isNone then 1 else 0
  | _ => 0

def State.token (s : State τ T) (side : Side) (t : τ) : ℕ :=
  (s.pc t).token side (s.sync.pc t).outcome

/-- How many attempts of waiting coroutines could succeed right now. -/
def State.available (c : Config T) (s : State τ T) (side : Side) : ℕ :=
  SyncChannel.available c.channel s.sync side.condVar

theorem token_le_one (side : Side) (out : Option (SyncChannel.Outcome T))
    (p : Pc T) : p.token side out ≤ 1 := by
  unfold Pc.token
  split <;> first | omega | (split <;> omega)

/-- An agent whose call is not decided carries a token only for the attempt of
its awaiter. -/
theorem token_eq_zero {c : Config T} {side : Side} {p : Pc T}
    {op : SyncChannel.Op T} (hop : p.syncOp c = some op)
    (hne : ∀ w : Awaiter T, w.side = side → op ≠ w.resumeOp c) :
    p.token side none = 0 := by
  cases p with
  | call op' => rfl
  | ready w => rfl
  | resuming w woken =>
      have hside : w.side ≠ side := by
        intro hside
        exact hne w hside (Option.some.inj hop).symm
      simp [Pc.token, hside]
  | _ => cases hop

theorem token_afterList {p : Pc T} {d side : Side} (hp : p.inList d = true)
    (hd : d ≠ side) (out : Option (SyncChannel.Outcome T)) :
    p.token side out = 0 ∧ p.afterList.token side out = 0 := by
  cases p with
  | adding w => exact ⟨rfl, rfl⟩
  | waking all d' =>
      obtain rfl : d' = d := of_decide_eq_true hp
      cases all with
      | false => simp [Pc.token, hd, Pc.afterList]
      | true => cases d' <;> exact ⟨rfl, rfl⟩
  | _ => cases hp

section Available

variable {c : SyncChannel.Config} {s s' : SyncChannel.State τ T}

theorem available_congr (hbuffer : s'.buffer = s.buffer)
    (hclosed : s'.closed = s.closed) (x : SyncChannel.CondVar) :
    SyncChannel.available c s' x = SyncChannel.available c s x := by
  cases x <;> simp [SyncChannel.available, hbuffer, hclosed]

theorem available_popFront_le [DecidableEq τ] {t : τ}
    {k : SyncChannel.ReceiveKind} {v : T} (hv : s.buffer.head? = some v) :
    SyncChannel.available c (SyncChannel.next c s (.popFront t k v)) .sendCv ≤
      SyncChannel.available c s .sendCv + 1 := by
  have htoken : (SyncChannel.afterTake c k v).token .sendCv ≤ 1 := by
    by_cases hb : c.policy.isBounded = true <;>
      simp [SyncChannel.afterTake, hb, SyncChannel.Pc.token]
  have hzero : (SyncChannel.Pc.take k : SyncChannel.Pc T).token .sendCv = 0 :=
    rfl
  have h := SyncChannel.available_popFront (c := c) (t := t) (k := k) hv .sendCv
  omega

end Available

theorem available_of_mustWait {c : Config T} {s : State τ T} {side : Side}
    (h : MustWait c s side) : s.available c side = 0 := by
  cases side with
  | receive => simp [State.available, Side.condVar, SyncChannel.available, h.2]
  | send => exact SyncChannel.available_of_full h.2

/-! ## What a step spends -/

/-- Senders wait only in a channel whose bound the deque can reach. -/
def SendersFit (c : Config T) (s : State τ T) : Prop :=
  s.HasWaiters .send → ∃ n, c.channel.policy = .bounded n ∧
    n ≤ c.channel.dequeMaxSize

/-- The agent brings in enough tokens for what its step makes available, or
nothing is available any more. -/
def Pays (c : Config T) (s s' : State τ T) (side : Side) (t : τ) : Prop :=
  s'.available c side = 0 ∨
    s'.available c side + s.token side t +
        (s.waiters side).scheduled.length ≤
      s.available c side + s'.token side t +
        (s'.waiters side).scheduled.length

variable [DecidableEq τ] {c : Config T} {s s' : State τ T} {a : Action τ T}
  {t : τ} {side : Side}

theorem sendersFit_next (hbounded : SyncChannel.Bounded c.channel s.sync)
    (h : SendersFit c s) (ha : Enabled c s a) (hP : RegistersInTime c s a) :
    SendersFit c (next c s a) := by
  intro hwait
  rcases hasWaiters_of_next ha hP hwait with hold | ⟨hmust, -⟩
  · exact h hold
  · have hfull := hmust.2
    unfold SyncChannel.canSend at hfull
    cases hp : c.channel.policy with
    | unbounded => simp [hp] at hfull
    | bounded n =>
        simp only [hp, decide_eq_false_iff_not, not_lt] at hfull
        exact ⟨n, rfl, hfull.trans hbounded.2⟩

omit [DecidableEq τ] in
theorem Pays.of_token_le (havailable : s'.available c side = s.available c side)
    (hscheduled : (s.waiters side).scheduled.length ≤
      (s'.waiters side).scheduled.length)
    (htoken : s.token side t ≤ s'.token side t) : Pays c s s' side t :=
  Or.inr (by omega)

omit [DecidableEq τ] in
theorem Pays.of_token_eq_zero
    (havailable : s'.available c side = s.available c side)
    (hscheduled : (s.waiters side).scheduled.length ≤
      (s'.waiters side).scheduled.length)
    (htoken : s.token side t = 0) : Pays c s s' side t :=
  Or.inr (by omega)

theorem pays_syncReturn {op : SyncChannel.Op T}
    {out : SyncChannel.Outcome T} (hal : SyncAligned c s)
    (ha : Enabled c s (.syncReturn t op out)) :
    Pays c s (next c s (.syncReturn t op out)) side t := by
  have hpc : s.sync.pc t = .unlock op out := ha
  have hout : (s.sync.pc t).outcome = some out := by rw [hpc]; rfl
  have hafter : (next c s (.syncReturn t op out)).pc t =
      (s.pc t).afterSync c out := Function.update_self _ _ _
  by_cases hunbounded : side = .send ∧ c.channel.policy.isBounded = false
  · obtain ⟨rfl, hpolicy⟩ := hunbounded
    refine Or.inl ?_
    unfold State.available Side.condVar SyncChannel.available
    cases hp : c.channel.policy with
    | unbounded => rfl
    | bounded n => simp [hp, SyncChannel.BoundednessPolicy.isBounded] at hpolicy
  refine Pays.of_token_le rfl le_rfl ?_
  unfold State.token
  rw [hafter, hout]
  have hop := hal t
  rw [hpc] at hop
  cases hp : s.pc t with
  | call op' =>
      simp only [Pc.token, Option.bind_some]
      split
      · rename_i hwakes
        unfold wakes at hwakes
        split at hwakes
        · cases hwakes
          simp [Pc.afterSync, afterCall]
        · cases hwakes
          simp only [true_and, Bool.not_eq_false] at hunbounded
          simp [Pc.afterSync, afterCall, hunbounded]
        · cases hwakes
      · exact Nat.zero_le _
  | ready w => exact Nat.zero_le _
  | resuming w woken => simp [Pc.token]
  | _ => rw [hp] at hop; cases hop

theorem pays_list {d : Side} {b : AsyncPrimitive.Action τ τ Empty}
    (hal : Aligned c s) (ha : Enabled c s (.list t d b))
    (hP : RegistersInTime c s (.list t d b))
    (hwait : (next c s (.list t d b)).HasWaiters side) :
    Pays c s (next c s (.list t d b)) side t := by
  have hin := hal.list.inList_of_runner ha.1 ha.2
  have hsync : (next c s (.list t d b)).sync = s.sync := by
    dsimp only [next]
    split <;> rfl
  have havailable : (next c s (.list t d b)).available c side =
      s.available c side := by
    unfold State.available
    rw [hsync]
  have hwaiters : (next c s (.list t d b)).waiters side =
      (s.listNext d b).waiters side := by
    dsimp only [next]
    split <;> rfl
  have hscheduled : (s.waiters side).scheduled.length ≤
      ((next c s (.list t d b)).waiters side).scheduled.length := by
    rw [hwaiters, listNext_waiters]
    split
    · rename_i hd
      subst hd
      exact AsyncPrimitive.length_scheduled_le ha.1
    · exact le_rfl
  by_cases hd : d = side
  swap
  · exact Pays.of_token_eq_zero havailable hscheduled
      (token_afterList hin hd _).1
  subst hd
  have hself : (s.listNext d b).waiters d = AsyncPrimitive.next
      AsyncPrimitive.ungated (s.waiters d) b :=
    (listNext_waiters d d b).trans (if_pos rfl)
  by_cases hidle : ((s.listNext d b).waiters d).pc t = .idle
  · have hne : ((s.listNext d b).waiters d).waiters ≠ none := by
      unfold State.HasWaiters at hwait
      rwa [hwaiters] at hwait
    rw [hself] at hidle hne
    rcases AsyncPrimitive.added_or_scheduled ha.1 hidle hne with
      ⟨n, o, rfl⟩ | ⟨h, r, g, rfl⟩ | hmore
    · exact Or.inl (havailable.trans (available_of_mustWait hP))
    · cases g
    · have hone := token_le_one d (s.sync.pc t).outcome (s.pc t)
      refine Or.inr ?_
      unfold State.token
      rw [hwaiters, hself, hmore, havailable]
      omega
  · refine Pays.of_token_le havailable hscheduled (le_of_eq ?_)
    have hpc : (next c s (.list t d b)).pc t = s.pc t := by
      simp only [next, if_neg hidle]
      rfl
    unfold State.token
    rw [hpc, hsync]

/-! ## Steps of `sync_channel` -/

omit [DecidableEq τ] in
/-- The agent's operation and its tokens before its call is decided. -/
theorem token_of_undecided (hal : SyncAligned c s) {p : SyncChannel.Pc T}
    {op : SyncChannel.Op T} (hpc : s.sync.pc t = p) (hop : p.op = some op)
    (hout : p.outcome = none)
    (hne : ∀ w : Awaiter T, w.side = side → op ≠ w.resumeOp c) :
    s.token side t = 0 := by
  unfold State.token
  rw [hpc, hout]
  refine token_eq_zero ?_ hne
  rw [← hal t, hpc, hop]

omit [DecidableEq τ] in
theorem token_of_sending (hal : SyncAligned c s) {p : SyncChannel.Pc T}
    {k : SyncChannel.SendKind} {v : T} (hpc : s.sync.pc t = p)
    (hop : p.op = some (.send k v)) (hout : p.outcome = none) :
    s.token .receive t = 0 := by
  refine token_of_undecided hal hpc hop hout fun w hw => ?_
  cases w with
  | receive => simp [Awaiter.resumeOp]
  | send v' => cases hw

omit [DecidableEq τ] in
theorem token_of_receiving (hal : SyncAligned c s) {p : SyncChannel.Pc T}
    {k : SyncChannel.ReceiveKind} (hpc : s.sync.pc t = p)
    (hop : p.op = some (.receive k)) (hout : p.outcome = none) :
    s.token .send t = 0 := by
  refine token_of_undecided hal hpc hop hout fun w hw => ?_
  cases w with
  | receive => cases hw
  | send v => simp [Awaiter.resumeOp]

theorem pays_pushBack {k : SyncChannel.SendKind} {v : T}
    (hal : SyncAligned c s) (ha : Enabled c s (.sync (.pushBack t k v)))
    (hP : AppendsWake s (.sync (.pushBack t k v))) (hwait : s.HasWaiters side) :
    Pays c s (next c s (.sync (.pushBack t k v))) side t := by
  have hpc : s.sync.pc t = .push k v := ha.2.1
  cases side with
  | send =>
      have hone := token_le_one .send (s.sync.pc t).outcome (s.pc t)
      have hless : (next c s (.sync (.pushBack t k v))).available c .send =
          s.available c .send - 1 := SyncChannel.available_pushBack_sendCv
      by_cases hzero : s.available c .send = 0
      · exact Or.inl (by omega)
      · refine Or.inr ?_
        change _ + _ + (s.waiters .send).scheduled.length ≤
          _ + _ + (s.waiters .send).scheduled.length
        unfold State.token
        omega
  | receive =>
      have hmore : (next c s (.sync (.pushBack t k v))).available c .receive =
          s.available c .receive + 1 := SyncChannel.available_pushBack_cv
      have hzero : s.token .receive t = 0 := token_of_sending hal hpc rfl rfl
      have hcall : s.pc t = .call (.send .send v) := hP hwait
      have hop := hal t
      rw [hpc, hcall] at hop
      obtain rfl : k = .send := by cases hop; rfl
      have hone : (next c s (.sync (.pushBack t .send v))).token .receive t =
          1 := by
        have hnew : (next c s (.sync (.pushBack t .send v))).sync.pc t =
            .notifyOne .cv (.send .send v) .returned :=
          Function.update_self _ _ _
        unfold State.token
        rw [hnew]
        change (s.pc t).token .receive (some .returned) = 1
        rw [hcall]
        rfl
      refine Or.inr ?_
      change _ + _ + (s.waiters .receive).scheduled.length ≤
        _ + _ + (s.waiters .receive).scheduled.length
      omega

theorem pays_popFront {k : SyncChannel.ReceiveKind} {v : T}
    (hal : SyncAligned c s) (ha : Enabled c s (.sync (.popFront t k v)))
    (hP : RemovesWake s (.sync (.popFront t k v))) (hwait : s.HasWaiters side) :
    Pays c s (next c s (.sync (.popFront t k v))) side t := by
  have hpc : s.sync.pc t = .take k := ha.2.1
  have hhead : s.sync.buffer.head? = some v := ha.2.2
  cases side with
  | receive =>
      have hone := token_le_one .receive (s.sync.pc t).outcome (s.pc t)
      have hless : (next c s (.sync (.popFront t k v))).available c .receive +
          1 = s.available c .receive := by
        have hlen : s.sync.buffer.length = s.sync.buffer.tail.length + 1 := by
          rw [← List.cons_head?_tail hhead]
          rfl
        exact hlen.symm
      refine Or.inr ?_
      change _ + _ + (s.waiters .receive).scheduled.length ≤
        _ + _ + (s.waiters .receive).scheduled.length
      unfold State.token
      omega
  | send =>
      have hmore : (next c s (.sync (.popFront t k v))).available c .send ≤
          s.available c .send + 1 := available_popFront_le hhead
      have hzero : s.token .send t = 0 := token_of_receiving hal hpc rfl rfl
      have hcall : s.pc t = .call (.receive .receive) := hP hwait
      have hop := hal t
      rw [hpc, hcall] at hop
      obtain rfl : k = .receive := by cases hop; rfl
      have hone : (next c s (.sync (.popFront t .receive v))).token .send t =
          1 := by
        have hnew : (next c s (.sync (.popFront t .receive v))).sync.pc t =
            SyncChannel.afterTake c.channel .receive v :=
          Function.update_self _ _ _
        have hout : (SyncChannel.afterTake c.channel .receive v).outcome =
            some (.value v) :=
          SyncChannel.outcome_afterTake _ _ _
        unfold State.token
        rw [hnew, hout]
        change (s.pc t).token .send (some (.value v)) = 1
        rw [hcall]
        rfl
      refine Or.inr ?_
      change _ + _ + (s.waiters .send).scheduled.length ≤
        _ + _ + (s.waiters .send).scheduled.length
      omega

/-- A step of `sync_channel` that neither changes the buffer nor decides the
call of its agent. -/
theorem pays_undecided {b : SyncChannel.Action τ T}
    (hbuffer : (SyncChannel.next c.channel s.sync b).buffer = s.sync.buffer)
    (hclosed : (SyncChannel.next c.channel s.sync b).closed = s.sync.closed)
    (hout : ((SyncChannel.next c.channel s.sync b).pc b.thread).outcome =
      (s.sync.pc b.thread).outcome) :
    Pays c s (next c s (.sync b)) side b.thread := by
  refine Pays.of_token_le (available_congr hbuffer hclosed _) le_rfl ?_
  have htoken : (next c s (.sync b)).token side b.thread =
      s.token side b.thread := by
    change (s.pc b.thread).token side _ = (s.pc b.thread).token side _
    exact congrArg (fun out => (s.pc b.thread).token side out) hout
  exact le_of_eq htoken.symm

/-- A step of `sync_channel` that decides a call without a token and does not
change the buffer. -/
theorem pays_without_token {b : SyncChannel.Action τ T}
    (hbuffer : (SyncChannel.next c.channel s.sync b).buffer = s.sync.buffer)
    (hclosed : (SyncChannel.next c.channel s.sync b).closed = s.sync.closed)
    (htoken : s.token side b.thread = 0) :
    Pays c s (next c s (.sync b)) side b.thread :=
  Pays.of_token_eq_zero (available_congr hbuffer hclosed _) le_rfl htoken

/-- `push_back` throws when the deque is full, and then so is the channel, if
senders wait. -/
theorem pays_pushThrow {k : SyncChannel.SendKind} {v : T}
    (hal : SyncAligned c s) (hfit : SendersFit c s)
    (hb : SyncChannel.Enabled c.channel s.sync (.pushThrow t k v))
    (hwait : s.HasWaiters side) :
    Pays c s (next c s (.sync (.pushThrow t k v))) side t := by
  cases side with
  | send =>
      obtain ⟨n, hpolicy, hn⟩ := hfit hwait
      refine Or.inl (SyncChannel.available_of_full ?_)
      change SyncChannel.canSend c.channel s.sync = false
      have hmax := hb.2.2
      simp only [SyncChannel.canSend, hpolicy, decide_eq_false_iff_not, not_lt]
      exact hn.trans hmax
  | receive =>
      exact pays_without_token (b := .pushThrow t k v) rfl rfl
        (token_of_sending hal hb.1 rfl rfl)

theorem pays_sync {b : SyncChannel.Action τ T} (hal : SyncAligned c s)
    (htries : SyncChannel.TriesDoNotWait s.sync) (hfit : SendersFit c s)
    (ha : Enabled c s (.sync b)) (happ : AppendsWake s (.sync b))
    (hrem : RemovesWake s (.sync b)) (hwait : s.HasWaiters side)
    (hopen : (next c s (.sync b)).sync.closed = false) :
    Pays c s (next c s (.sync b)) side b.thread := by
  have hb : SyncChannel.Enabled c.channel s.sync b := ha.2
  have hset : ∀ {f : τ → SyncChannel.Pc T} {t : τ} {p q : SyncChannel.Pc T},
      s.sync.pc t = p → q.outcome = p.outcome →
        (Function.update f t q t).outcome = (s.sync.pc t).outcome := by
    intro f t p q hp hq
    rw [Function.update_self, hp, hq]
  cases b with
  | call t op => cases ha.1
  | unlock t op out => cases ha.1
  | storeClosed t => cases hopen
  | pushBack t k v => exact pays_pushBack hal ha happ hwait
  | popFront t k v => exact pays_popFront hal ha hrem hwait
  | loadClosed t k v =>
      have hclosed : s.sync.closed = true := hb.2
      cases hclosed.symm.trans hopen
  | popEmpty t k =>
      have hempty : s.sync.buffer = [] := hb.2
      cases side with
      | receive => exact Or.inl (congrArg List.length hempty)
      | send =>
          exact pays_without_token rfl rfl
            (token_of_receiving hal hb.1 rfl rfl)
  | pushFull t v =>
      cases side with
      | send => exact Or.inl (SyncChannel.available_of_full hb.2)
      | receive =>
          exact pays_without_token rfl rfl (token_of_sending hal hb.1 rfl rfl)
  | pushThrow t k v => exact pays_pushThrow hal hfit hb hwait
  | testExpired t op =>
      refine pays_without_token rfl rfl ?_
      refine token_of_undecided hal hb.1 rfl rfl fun w hw => ?_
      rintro rfl
      have hnot := htries t (w.resumeOp c) (by rw [hb.1]; rfl)
      cases w <;> cases hnot
  | notifyAll t x =>
      refine pays_without_token rfl rfl ?_
      refine token_of_undecided hal hb rfl rfl fun w hw => ?_
      cases w <;> simp [Awaiter.resumeOp]
  | lock t op =>
      exact pays_undecided rfl rfl
        (hset hb.1 (SyncChannel.outcome_afterLock _ _))
  | testTrue t op e =>
      exact pays_undecided rfl rfl (hset hb.1 (SyncChannel.outcome_afterWait _))
  | relock t op e =>
      rcases hb.1 with hpc | hpc
      · exact pays_undecided rfl rfl (hset hpc rfl)
      · exact pays_undecided rfl rfl (hset hpc rfl)
  | wait t op => exact pays_undecided rfl rfl (hset hb rfl)
  | wake t op => exact pays_undecided rfl rfl (hset hb rfl)
  | testFalse t op => exact pays_undecided rfl rfl (hset hb.1 rfl)
  | loadOpen t k v => exact pays_undecided rfl rfl (hset hb.1 rfl)
  | notifyOne t x op out u op' =>
      exact pays_undecided rfl rfl (hset hb.1 rfl)
  | notifyNobody t x op out => exact pays_undecided rfl rfl (hset hb.1 rfl)

/-! ## The remaining steps -/

omit [DecidableEq τ] in
theorem pays_of_pc {p : Pc T} (hp : s.pc t = p)
    (hzero : ∀ out, p.token side out = 0)
    (hbuffer : s'.sync.buffer = s.sync.buffer)
    (hclosed : s'.sync.closed = s.sync.closed)
    (hscheduled : (s.waiters side).scheduled.length ≤
      (s'.waiters side).scheduled.length) : Pays c s s' side t := by
  refine Pays.of_token_eq_zero (available_congr hbuffer hclosed _)
    hscheduled ?_
  unfold State.token
  rw [hp, hzero]

theorem pays_resume {w : Awaiter T} (ha : Enabled c s (.resume t w)) :
    Pays c s (next c s (.resume t w)) side t := by
  have havailable : (next c s (.resume t w)).available c side =
      s.available c side := available_congr rfl rfl _
  have hzero : s.token side t = 0 := by
    unfold State.token
    rw [ha.1]
    rfl
  have hwaiters : (next c s (.resume t w)).waiters side =
      (s.listNext w.side (.resume t)).waiters side := rfl
  by_cases hside : w.side = side
  · subst hside
    have hpc : (next c s (.resume t w)).pc t = .resuming w true :=
      Function.update_self _ _ _
    have hout : ((next c s (.resume t w)).sync.pc t).outcome = none :=
      SyncChannel.outcome_call_self c.channel s.sync t (w.resumeOp c)
    have hone : (next c s (.resume t w)).token w.side t = 1 := by
      unfold State.token
      rw [hpc, hout]
      simp [Pc.token]
    have hmem : t ∈ (s.waiters w.side).scheduled := ha.2.1
    have hless : ((next c s (.resume t w)).waiters w.side).scheduled.length +
        1 = (s.waiters w.side).scheduled.length := by
      rw [hwaiters, listNext_waiters, if_pos rfl]
      change ((s.waiters w.side).scheduled.erase t).length + 1 = _
      rw [List.length_erase_of_mem hmem]
      have := List.length_pos_of_mem hmem
      omega
    exact Or.inr (by omega)
  · refine Pays.of_token_eq_zero havailable ?_ hzero
    rw [hwaiters, listNext_waiters, if_neg hside]

theorem pays_callWake {all : Bool} {d : Side}
    (ha : Enabled c s (.callWake t all d))
    (hscheduled : (s.waiters side).scheduled.length ≤
      ((next c s (.callWake t all d)).waiters side).scheduled.length) :
    Pays c s (next c s (.callWake t all d)) side t := by
  have hpc : (next c s (.callWake t all d)).pc t = .waking all d :=
    Function.update_self _ _ _
  refine Pays.of_token_le (available_congr rfl rfl _) hscheduled
    (le_of_eq ?_)
  unfold State.token
  rw [hpc, ha.1]
  cases all <;> rfl

theorem pays_next (hal : Aligned c s)
    (htries : SyncChannel.TriesDoNotWait s.sync) (hfit : SendersFit c s)
    (ha : Enabled c s a) (hP : WakesWaiters c s a)
    (hwait : s.HasWaiters side) (hwait' : (next c s a).HasWaiters side)
    (hopen : (next c s a).sync.closed = false) :
    Pays c s (next c s a) side a.agent := by
  have hkept : ∀ {d : Side} {b : AsyncPrimitive.Action τ τ Empty},
      (AsyncPrimitive.next AsyncPrimitive.ungated (s.waiters d)
        b).scheduled = (s.waiters d).scheduled →
      (s.waiters side).scheduled.length ≤
        ((s.listNext d b).waiters side).scheduled.length := by
    intro d b hb
    rw [listNext_waiters]
    split
    · rename_i hd
      subst hd
      rw [hb]
    · exact le_rfl
  cases a with
  | sync b =>
      exact pays_sync hal.sync htries hfit ha hP.appends hP.removes hwait hopen
  | syncReturn t op out => exact pays_syncReturn hal.sync ha
  | list t d b => exact pays_list hal ha hP.registers hwait'
  | resume t w => exact pays_resume ha
  | call t op => exact pays_of_pc ha.1 (fun _ => rfl) rfl rfl le_rfl
  | coAwait t w => exact pays_of_pc ha.1 (fun _ => rfl) rfl rfl le_rfl
  | loadOpen t => exact pays_of_pc ha.1 (fun _ => rfl) rfl rfl le_rfl
  | loadClosed t => exact pays_of_pc ha.1 (fun _ => rfl) rfl rfl le_rfl
  | callAdd t w =>
      exact pays_of_pc ha.1 (fun _ => rfl) rfl rfl (hkept rfl)
  | callWake t all d =>
      exact pays_callWake ha (hkept (by cases all <;> rfl))

theorem token_next_of_ne (ha : Enabled c s a) {u : τ} (hu : u ≠ a.agent) :
    (next c s a).token side u = s.token side u := by
  unfold State.token
  rw [next_pc_of_ne hu]
  rcases next_sync_pc_of_ne ha hu with hsync | ⟨op, hold, hnew⟩
  · rw [hsync]
  · rw [hold, hnew]
    rfl

/-! ## Covered -/

section Covered

variable [Fintype τ]

/-- As long as somebody is in a list of the open channel, the tokens under way
cover what is available. -/
def Covered (c : Config T) (s : State τ T) : Prop :=
  ∀ side, s.HasWaiters side → s.sync.closed = false →
    s.available c side ≤
      tally id (s.token side) + (s.waiters side).scheduled.length

theorem covered_next (hal : Aligned c s)
    (htries : SyncChannel.TriesDoNotWait s.sync) (hfit : SendersFit c s)
    (h : Covered c s) (ha : Enabled c s a) (hP : WakesWaiters c s a) :
    Covered c (next c s a) := by
  intro side hwait hopen
  have hbefore : s.sync.closed = false := by
    by_contra hc
    rw [Bool.not_eq_false] at hc
    cases (closed_next hc).symm.trans hopen
  rcases hasWaiters_of_next ha hP.registers hwait with hold | ⟨hmust, hsync⟩
  · have hcovered := h side hold hbefore
    have hsum : tally id ((next c s a).token side) + s.token side a.agent =
        tally id (s.token side) + (next c s a).token side a.agent :=
      tally_add_of_forall_ne a.agent fun u hu => token_next_of_ne ha hu
    rcases pays_next hal htries hfit ha hP hold hwait hopen with hzero | hpays
    · omega
    · omega
  · have hzero : (next c s a).available c side = s.available c side := by
      unfold State.available
      rw [hsync]
    rw [hzero, available_of_mustWait hmust]
    exact Nat.zero_le _

omit [Fintype τ] in
theorem sendersFit_reachable
    (hs : (system c τ).ReachableWhere (RegistersInTime c) s) :
    SendersFit c s := by
  refine hs.invariant_of (SendersFit c)
    (fun s hs => SyncChannel.bounded_reachable (sync_reachable hs.reachable))
    ?_ fun s a hb h ha hP => sendersFit_next hb h ha hP
  rintro s rfl hwait
  exact absurd rfl hwait

theorem covered_reachable
    (hs : (system c τ).ReachableWhere (WakesWaiters c) s) : Covered c s := by
  refine hs.invariant_of (Covered c)
    (fun s hs => And.intro (aligned_reachable hs.reachable)
      (And.intro
        (SyncChannel.triesDoNotWait_reachable (sync_reachable hs.reachable))
        (sendersFit_reachable (hs.mono fun _ _ hP => hP.registers)))) ?_
    fun s a hJ h ha hP => covered_next hJ.1 hJ.2.1 hJ.2.2 h ha hP
  rintro s rfl side hwait
  exact absurd rfl hwait

end Covered

/-! ## Nobody is stranded -/

/-- No operation is in progress and every scheduled coroutine has been
resumed. -/
def State.quiescent (s : State τ T) : Prop :=
  (∀ t, s.pc t = .idle ∨ ∃ w, s.pc t = .suspended w) ∧
    ∀ side, (s.waiters side).scheduled = []

/-- A coroutine still suspended when nothing is in progress has nothing to
do. -/
def StrandsNobody (c : Config T) (s : State τ T) : Prop :=
  s.quiescent → ∀ t w, s.pc t = .suspended w → MustWait c s w.side

omit [DecidableEq τ] in
theorem token_of_quiescent (hs : s.quiescent) (side : Side) (t : τ) :
    s.token side t = 0 := by
  unfold State.token
  rcases hs.1 t with hp | ⟨w, hp⟩ <;> rw [hp] <;> rfl

omit [DecidableEq τ] in
theorem not_closing_of_quiescent (hs : s.quiescent) (side : Side) (t : τ) :
    ¬Closing s side t := by
  unfold Closing
  rcases hs.1 t with hp | ⟨w, hp⟩ <;> rw [hp] <;> exact id

omit [DecidableEq τ] in
theorem listIdle_of_quiescent (hal : ListAligned s) (hs : s.quiescent)
    (side : Side) (t : τ) : (s.waiters side).pc t = .idle := by
  apply hal
  rcases hs.1 t with hp | ⟨w, hp⟩ <;> rw [hp] <;> rfl

omit [DecidableEq τ] in
theorem hasWaiters_of_suspended (hal : ListAligned s) (h : Registered s)
    (hs : s.quiescent) {w : Awaiter T} (hw : s.pc t = .suspended w) :
    s.HasWaiters w.side := by
  have hplace : (s.waiters w.side).place t ≠ .outside := by
    refine (h.onWay t w.side).mpr ?_
    rw [hw]
    exact decide_eq_true rfl
  exact (h.owned w.side).waiters_ne_none
    (listIdle_of_quiescent hal hs w.side) (hs.2 w.side) hplace

omit [DecidableEq τ] in
theorem mustWait_of_available (hopen : s.sync.closed = false)
    (hsend : side = .send → ∃ n, c.channel.policy = .bounded n)
    (hzero : s.available c side = 0) : MustWait c s side := by
  cases side with
  | receive => exact ⟨hopen, List.eq_nil_of_length_eq_zero hzero⟩
  | send =>
      refine ⟨hopen, ?_⟩
      obtain ⟨n, hn⟩ := hsend rfl
      unfold State.available Side.condVar SyncChannel.available at hzero
      simp only [hn, hopen, Bool.false_eq_true, if_false] at hzero
      simp only [SyncChannel.canSend, hn, decide_eq_false_iff_not, not_lt]
      exact Nat.sub_eq_zero_iff_le.mp hzero

/-- In every run in which values are added and taken only by operations that
wake the other side, nodes are registered only while their coroutine has to
wait, and no wake-up unlinks more than its node, no coroutine is stranded. -/
theorem strandsNobody_of_wakesWaiters [Fintype τ]
    (hs : (system c τ).ReachableWhere (WakesWaiters c) s) :
    StrandsNobody c s := by
  intro hquiet t w hw
  have hal := aligned_reachable hs.reachable
  have hin := hs.mono fun _ _ hP => hP.registers
  have hwait : s.HasWaiters w.side :=
    hasWaiters_of_suspended hal.list
      (registered_reachable (hs.mono fun _ _ hP => hP.removesHead)) hquiet hw
  have hopen : s.sync.closed = false := by
    by_contra hclosed
    obtain ⟨u, hu⟩ := closeWakes_reachable hin w.side
      (Bool.not_eq_false _ ▸ hclosed) hwait
    exact not_closing_of_quiescent hquiet w.side u hu
  have htokens : tally id (s.token w.side) = 0 :=
    tally_eq_zero_iff.mpr fun u => token_of_quiescent hquiet w.side u
  have hcovered := covered_reachable hs w.side hwait hopen
  rw [htokens, hquiet.2 w.side] at hcovered
  refine mustWait_of_available hopen (fun hside => ?_)
    (Nat.eq_zero_of_le_zero hcovered)
  rw [hside] at hwait
  obtain ⟨n, hn, -⟩ := sendersFit_reachable hin hwait
  exact ⟨n, hn⟩

/-! ## A value sent without waking anybody -/

theorem strandsNobody_sendToSuspended :
    StrandsNobody numbers ((system numbers (Fin 2)).after
      (initialState (Fin 2) ℕ) sendToSuspended) := by
  refine strandsNobody_of_wakesWaiters ?_
  exact TransitionSystem.Executes.reachableWhere (.init rfl) (by decide)

/-- Agent `1` sends `7` with the inherited `try_send`. -/
def trySendToSuspended : List (Action (Fin 2) ℕ) :=
  suspendReceiver ++
    ([.call 1 (.send .trySend 7), .sync (.lock 1 (.send .trySend 7)),
      .sync (.loadOpen 1 .trySend 7), .sync (.pushBack 1 .trySend 7),
      .sync (.notifyNobody 1 .cv (.send .trySend 7) (.flag true)),
      .syncReturn 1 (.send .trySend 7) (.flag true)] :
      List (Action (Fin 2) ℕ))

theorem not_forall_strandsNobody :
    ¬∀ s, (system numbers (Fin 2)).Reachable s → StrandsNobody numbers s := by
  intro h
  have hreach : (system numbers (Fin 2)).Reachable
      ((system numbers (Fin 2)).after (initialState (Fin 2) ℕ)
        trySendToSuspended) :=
    TransitionSystem.Executes.reachable (.init rfl) (by decide)
  have hmust := h _ hreach ?_ 0 .receive rfl
  · exact absurd hmust.2 (List.cons_ne_nil _ _)
  · constructor
    · intro t
      match t with
      | 0 => exact Or.inr ⟨.receive, rfl⟩
      | 1 => exact Or.inl rfl
    · intro side
      cases side <;> rfl

end AsyncChannel
end Ethreads
