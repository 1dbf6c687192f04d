import Ethreads.AsyncChannel.Components
import Ethreads.Support.Tally

/-!
# Values for the woken receivers

A woken `receive_async` tries only after it has been resumed.  Until then it is
in the hands of the agent that takes it out of the list, among the scheduled
handles, or at its `try_receive`.  If the open channel never gives away a value
that one of them needs, and never wakes a receiver for whom there is no value,
the buffer holds at least as many values as there are woken receivers.
-/

namespace Ethreads
namespace AsyncChannel

variable {τ T : Type*}

/-! ## Counting the woken receivers -/

/-- A thread that has taken a node out of the list and not scheduled it yet. -/
def delivering : AsyncPrimitive.Pc τ → ℕ
  | .deliver _ _ => 1
  | _ => 0

/-- A woken receiver whose `try_receive` is not decided yet. -/
def Pc.retries (out : Option (SyncChannel.Outcome T)) : Pc T → ℕ
  | resuming .receive true => if out.isNone then 1 else 0
  | _ => 0

/-- The woken receivers in the hands of agent `t`. -/
def State.wokenBy (s : State τ T) (t : τ) : ℕ :=
  delivering ((s.waiters .receive).pc t) +
    (s.pc t).retries (s.sync.pc t).outcome

section Fintype

variable [Fintype τ]

/-- The receivers that were woken and have not made their attempt yet. -/
def State.woken (s : State τ T) : ℕ :=
  tally id s.wokenBy + (s.waiters .receive).scheduled.length

/-- The channel is closed, or there is a value that no woken receiver needs. -/
def State.Spare (s : State τ T) : Prop :=
  s.sync.closed = true ∨ s.woken < s.sync.buffer.length

/-- The woken receivers find their values: nobody else takes one, and
`wake_one` removes no further receiver, unless there is one to spare. -/
def LeavesForWoken (s : State τ T) : Action τ T → Prop
  | .sync (.popFront t _ _) => s.pc t = .resuming .receive true ∨ s.Spare
  | .list _ .receive (.wakeCas _ _ _) => s.Spare
  | _ => True

/-- The open channel has a value for every woken receiver. -/
def Provided (s : State τ T) : Prop :=
  s.sync.closed = true ∨ s.woken ≤ s.sync.buffer.length

instance (s : State τ T) : Decidable s.Spare :=
  inferInstanceAs (Decidable (_ ∨ _))

instance [DecidableEq T] (s : State τ T) (a : Action τ T) :
    Decidable (LeavesForWoken s a) := by
  induction a using Action.casesOn with
  | sync b =>
      induction b using SyncChannel.Action.casesOn <;>
        dsimp only [LeavesForWoken] <;> infer_instance
  | list t side b =>
      induction side using Side.casesOn <;>
        induction b using AsyncPrimitive.Action.casesOn <;>
          dsimp only [LeavesForWoken] <;> infer_instance
  | _ => exact inferInstanceAs (Decidable True)

end Fintype

/-! ## Only `close` wakes everybody -/

/-- The program points of `wake_all`. -/
def walking : AsyncPrimitive.Pc τ → Bool
  | .exchange | .walkNext _ | .deliver _ (some _) => true
  | _ => false

/-- The program points from which all waiters of the channel are woken. -/
def Pc.wakesAll : Pc T → Bool
  | wake true _ | waking true _ => true
  | _ => false

/-- Whoever wakes all waiters of a list has found the channel closed. -/
structure ClosedFirst (s : State τ T) : Prop where
  wakesAll : ∀ t, (s.pc t).wakesAll = true → s.sync.closed = true
  walking : ∀ t side, walking ((s.waiters side).pc t) = true →
    s.sync.closed = true

theorem wakesAll_afterSync {c : Config T} {p : Pc T}
    {out : SyncChannel.Outcome T} (h : (p.afterSync c out).wakesAll = true) :
    p = .call .close := by
  unfold Pc.afterSync at h
  split at h <;> try cases h
  unfold afterCall at h
  split at h <;> try cases h
  · split at h <;> cases h
  · rfl

theorem wakesAll_of_afterList {p : Pc T} (h : p.afterList.wakesAll = true) :
    p.wakesAll = true := by
  unfold Pc.afterList at h
  split at h <;> first | rfl | cases h

theorem retries_afterSync {c : Config T} (p : Pc T)
    (out : SyncChannel.Outcome T) (o : Option (SyncChannel.Outcome T)) :
    (p.afterSync c out).retries o = 0 := by
  unfold Pc.afterSync
  split <;> try rfl
  unfold afterCall
  split <;> try rfl
  split <;> rfl

theorem retries_afterList (p : Pc T) (o : Option (SyncChannel.Outcome T)) :
    p.afterList.retries o = 0 := by
  unfold Pc.afterList
  split <;> rfl

theorem retries_of_inList {p : Pc T} {side : Side} (hp : p.inList side = true)
    (o : Option (SyncChannel.Outcome T)) : p.retries o = 0 := by
  cases p <;> first | rfl | cases hp

theorem retries_some (p : Pc T) (out : SyncChannel.Outcome T) :
    p.retries (some out) = 0 := by
  unfold Pc.retries
  split <;> rfl

theorem delivering_walkWith (r : Option τ) :
    delivering (AsyncPrimitive.walkWith r) = 0 := by
  cases r <;> rfl

theorem delivering_wakeWith (r : Option τ) :
    delivering (AsyncPrimitive.wakeWith r) = 0 := by
  cases r <;> rfl

variable [DecidableEq τ] {c : Config T} {s : State τ T} {a : Action τ T}

/-- Inside the functions of a list, only a walk goes on to a walk. -/
theorem walking_of_runner {l : AsyncPrimitive.State τ τ Empty}
    {b : AsyncPrimitive.Action τ τ Empty} {t u : τ} (hb : b.runner = some t)
    (ha : AsyncPrimitive.Enabled AsyncPrimitive.ungated l b)
    (h : walking ((AsyncPrimitive.next AsyncPrimitive.ungated l b).pc u) =
      true) : walking (l.pc u) = true := by
  by_cases hu : u = t
  swap
  · obtain ⟨q, hq⟩ := AsyncPrimitive.exists_pc_next_of_runner
      AsyncPrimitive.ungated (s := l) hb
    rwa [hq, Function.update_of_ne hu] at h
  subst hu
  have hset : ∀ {q : AsyncPrimitive.Pc τ},
      walking (Function.update l.pc u q u) = true → walking q = true := by
    intro q hq
    rwa [Function.update_self] at hq
  have hwake : ∀ {r : Option τ},
      walking (AsyncPrimitive.wakeWith r) = true → False := by
    intro r hr
    cases r <;> cases hr
  cases b with
  | callAdd v n => cases hb
  | callWakeOne v => cases hb
  | callWakeAll v => cases hb
  | fire g => cases hb
  | resume n => cases hb
  | exchange v => cases hb; rw [show l.pc u = .exchange from ha]; rfl
  | walkNext v n => cases hb; rw [show l.pc u = .walkNext n from ha]; rfl
  | schedule v n r =>
      cases hb
      rw [ha.1]
      cases r with
      | none => cases hset h
      | some m => rfl
  | skip v n r g => cases ha.2.1
  | wakeLoad v => cases hb; exact (hwake (hset h)).elim
  | wakeCasFails v n o => cases hb; exact (hwake (hset h)).elim
  | _ => cases hb; cases hset h

/-- A walk begins with a call of `wake_all`. -/
theorem walking_of_next {l : AsyncPrimitive.State τ τ Empty}
    {b : AsyncPrimitive.Action τ τ Empty} {u : τ}
    (ha : AsyncPrimitive.Enabled AsyncPrimitive.ungated l b)
    (h : walking ((AsyncPrimitive.next AsyncPrimitive.ungated l b).pc u) =
      true) : walking (l.pc u) = true ∨ b = .callWakeAll u := by
  have hset : ∀ {t : τ} {q : AsyncPrimitive.Pc τ}, walking q = false →
      walking (Function.update l.pc t q u) = true →
        walking (l.pc u) = true := by
    intro t q hq hw
    by_cases hu : u = t
    · subst hu
      rw [Function.update_self, hq] at hw
      cases hw
    · rwa [Function.update_of_ne hu] at hw
  cases b with
  | callAdd t n => exact Or.inl (hset rfl h)
  | callWakeOne t => exact Or.inl (hset rfl h)
  | callWakeAll t =>
      by_cases hu : u = t
      · exact Or.inr (by rw [hu])
      · exact Or.inl (by rwa [← Function.update_of_ne hu _ l.pc])
  | fire g => exact Or.inl h
  | resume n => exact Or.inl h
  | _ => exact Or.inl (walking_of_runner rfl ha h)

/-- Inside the functions of a list, a woken node is only passed on, except that
`wake_one` takes one out and a walk comes to its next. -/
theorem carries_next {l : AsyncPrimitive.State τ τ Empty}
    {b : AsyncPrimitive.Action τ τ Empty} {t : τ} (hb : b.runner = some t)
    (ha : AsyncPrimitive.Enabled AsyncPrimitive.ungated l b) :
    delivering ((AsyncPrimitive.next AsyncPrimitive.ungated l b).pc t) +
          (AsyncPrimitive.next AsyncPrimitive.ungated l b).scheduled.length ≤
        delivering (l.pc t) + l.scheduled.length ∨
      (∃ n o, b = .wakeCas t n o ∧
        delivering ((AsyncPrimitive.next AsyncPrimitive.ungated l b).pc t) +
            (AsyncPrimitive.next AsyncPrimitive.ungated l b).scheduled.length ≤
          delivering (l.pc t) + l.scheduled.length + 1) ∨
      walking (l.pc t) = true := by
  have hset : ∀ {q : AsyncPrimitive.Pc τ}, delivering q = 0 →
      delivering (Function.update l.pc t q t) + l.scheduled.length ≤
        delivering (l.pc t) + l.scheduled.length := by
    intro q hq
    rw [Function.update_self, hq]
    omega
  cases b with
  | callAdd u n => cases hb
  | callWakeOne u => cases hb
  | callWakeAll u => cases hb
  | fire g => cases hb
  | resume n => cases hb
  | walkNext u n => cases hb; exact Or.inr (Or.inr (by rw [ha]; rfl))
  | wakeCas u n o =>
      cases hb
      refine Or.inr (Or.inl ⟨n, o, rfl, ?_⟩)
      change delivering (Function.update l.pc t (.deliver n none) t) + _ ≤ _
      rw [Function.update_self]
      change 1 + l.scheduled.length ≤ _
      omega
  | schedule u n r =>
      cases hb
      refine Or.inl ?_
      change delivering (Function.update l.pc t (AsyncPrimitive.walkWith r) t) +
        (l.scheduled ++ [n]).length ≤ _
      rw [Function.update_self, delivering_walkWith, ha.1, List.length_append]
      change 0 + (l.scheduled.length + 1) ≤ 1 + l.scheduled.length
      omega
  | wakeLoad u => cases hb; exact Or.inl (hset (delivering_wakeWith _))
  | wakeCasFails u n o => cases hb; exact Or.inl (hset (delivering_wakeWith _))
  | exchange u => cases hb; exact Or.inl (hset (delivering_walkWith _))
  | skip u n r g => cases ha.2.1
  | _ => cases hb; exact Or.inl (hset rfl)

theorem ClosedFirst.of_update {s' : State τ T} (h : ClosedFirst s) {t : τ}
    {q : Pc T} (hpc : s'.pc = Function.update s.pc t q)
    (hclosed : s.sync.closed = true → s'.sync.closed = true)
    (hq : q.wakesAll = true → s'.sync.closed = true)
    (hwalking : ∀ u side, AsyncChannel.walking ((s'.waiters side).pc u) =
      true → s'.sync.closed = true) : ClosedFirst s' := by
  refine ⟨fun u hu => ?_, hwalking⟩
  by_cases hut : u = t
  · subst hut
    rw [hpc, Function.update_self] at hu
    exact hq hu
  · rw [hpc, Function.update_of_ne hut] at hu
    exact hclosed (h.wakesAll u hu)

omit [DecidableEq τ] in
theorem closed_of_syncReturn (hal : SyncAligned c s)
    (hwf : SyncChannel.WellFormed c.channel s.sync) {t : τ}
    {op : SyncChannel.Op T} {out : SyncChannel.Outcome T}
    (ha : Enabled c s (.syncReturn t op out))
    (h : ((s.pc t).afterSync c out).wakesAll = true) :
    s.sync.closed = true := by
  have hpc : s.sync.pc t = .unlock op out := ha
  have hop := hal t
  rw [hpc, wakesAll_afterSync h] at hop
  have hok := hwf.ok t
  rw [hpc] at hok
  exact hok.1 (Option.some.inj hop)

omit [DecidableEq τ] in
theorem pc_of_callWakeAll (ha : Enabled c s a) {u : τ} {side : Side}
    (hb : a.listPart side = some (.callWakeAll u)) :
    s.pc u = .wake true side := by
  cases a with
  | callWake t all d =>
      cases all with
      | false => simp [Action.listPart, wakeCall] at hb
      | true =>
          obtain ⟨rfl, rfl⟩ : d = side ∧ t = u := by
            simpa [Action.listPart, wakeCall] using hb
          exact ha.1
  | list t d b =>
      obtain ⟨-, rfl⟩ : d = side ∧ b = .callWakeAll u := by
        simpa [Action.listPart] using hb
      cases ha.1
  | callAdd t w => simp [Action.listPart] at hb
  | resume t w => simp [Action.listPart] at hb
  | _ => cases hb

theorem closed_of_walking (h : ClosedFirst s) (ha : Enabled c s a) {u : τ}
    {side : Side} (hw : walking (((next c s a).waiters side).pc u) = true) :
    s.sync.closed = true := by
  rw [next_waiters] at hw
  cases hb : a.listPart side with
  | none =>
      rw [hb] at hw
      exact h.walking u side hw
  | some b =>
      rw [hb] at hw
      rcases walking_of_next (enabled_listPart ha hb) hw with hold | rfl
      · exact h.walking u side hold
      · exact h.wakesAll u (by rw [pc_of_callWakeAll ha hb]; rfl)

theorem next_pc_list (t : τ) (d : Side) (b : AsyncPrimitive.Action τ τ Empty)
    (u : τ) : (next c s (.list t d b)).pc u = s.pc u ∨
      u = t ∧ (next c s (.list t d b)).pc u = (s.pc u).afterList := by
  by_cases hut : u = t
  · subst hut
    dsimp only [next]
    split
    · exact Or.inr ⟨rfl, Function.update_self _ _ _⟩
    · exact Or.inl rfl
  · exact Or.inl (next_pc_of_ne hut)

theorem closedFirst_next (hal : SyncAligned c s)
    (hwf : SyncChannel.WellFormed c.channel s.sync) (h : ClosedFirst s)
    (ha : Enabled c s a) : ClosedFirst (next c s a) := by
  have hclosed : s.sync.closed = true → (next c s a).sync.closed = true :=
    closed_next
  have hwalking : ∀ u side,
      walking (((next c s a).waiters side).pc u) = true →
        (next c s a).sync.closed = true :=
    fun u side hw => hclosed (closed_of_walking h ha hw)
  have hmoved : ∀ {t : τ} {q : Pc T},
      (next c s a).pc = Function.update s.pc t q → q.wakesAll = false →
        ClosedFirst (next c s a) := by
    intro t q hpc hq
    refine h.of_update hpc hclosed (fun hyes => ?_) hwalking
    cases hq.symm.trans hyes
  cases a with
  | sync b => exact ⟨fun u hu => hclosed (h.wakesAll u hu), hwalking⟩
  | syncReturn t op out =>
      exact h.of_update rfl hclosed
        (fun hq => hclosed (closed_of_syncReturn hal hwf ha hq)) hwalking
  | callWake t all d =>
      refine h.of_update rfl hclosed (fun hq => hclosed (h.wakesAll t ?_))
        hwalking
      rw [ha.1]
      cases all with
      | false => cases hq
      | true => rfl
  | list t d b =>
      refine ⟨fun u hu => hclosed (h.wakesAll u ?_), hwalking⟩
      rcases next_pc_list (c := c) (s := s) t d b u with hpc | ⟨rfl, hpc⟩
      · rwa [hpc] at hu
      · rw [hpc] at hu
        exact wakesAll_of_afterList hu
  | call t op => exact hmoved rfl rfl
  | coAwait t w => exact hmoved rfl rfl
  | loadOpen t => exact hmoved rfl rfl
  | loadClosed t => exact hmoved rfl rfl
  | callAdd t w => exact hmoved rfl rfl
  | resume t w => exact hmoved rfl rfl

theorem closedFirst_reachable (hs : (system c τ).Reachable s) :
    ClosedFirst s := by
  refine TransitionSystem.Reachable.invariant_of hs ClosedFirst
    (fun s hs => And.intro (aligned_reachable hs)
      (SyncChannel.wellFormed_reachable (sync_reachable hs))) ?_
    fun s a hJ h ha => closedFirst_next hJ.1.sync hJ.2 h ha
  rintro s rfl
  refine ⟨fun t ht => ?_, fun t side ht => ?_⟩
  · cases ht
  · cases ht

/-! ## What a step spends -/

section Fintype

variable [Fintype τ]

/-- The step of agent `t` gives away no more than what is to spare. -/
def Balanced (s s' : State τ T) (t : τ) : Prop :=
  s'.wokenBy t + (s'.waiters .receive).scheduled.length +
        s.sync.buffer.length ≤
      s.wokenBy t + (s.waiters .receive).scheduled.length +
        s'.sync.buffer.length ∨
    s.woken < s.sync.buffer.length ∧
      s'.wokenBy t + (s'.waiters .receive).scheduled.length +
          s.sync.buffer.length ≤
        s.wokenBy t + (s.waiters .receive).scheduled.length +
          s'.sync.buffer.length + 1

variable {s' : State τ T} {t : τ}

omit [DecidableEq τ] in
theorem Balanced.of_wokenBy_le
    (hscheduled : (s'.waiters .receive).scheduled =
      (s.waiters .receive).scheduled)
    (hbuffer : s.sync.buffer.length ≤ s'.sync.buffer.length)
    (hwoken : s'.wokenBy t ≤ s.wokenBy t) : Balanced s s' t :=
  Or.inl (by rw [hscheduled]; omega)

omit [DecidableEq τ] [Fintype τ] in
theorem wokenBy_le
    (hlist : delivering ((s'.waiters .receive).pc t) ≤
      delivering ((s.waiters .receive).pc t))
    (htries : (s'.pc t).retries (s'.sync.pc t).outcome ≤
      (s.pc t).retries (s.sync.pc t).outcome) :
    s'.wokenBy t ≤ s.wokenBy t :=
  Nat.add_le_add hlist htries

theorem balanced_popFront {k : SyncChannel.ReceiveKind} {v : T}
    (ha : Enabled c s (.sync (.popFront t k v)))
    (hP : s.pc t = .resuming .receive true ∨ s.woken < s.sync.buffer.length) :
    Balanced s (next c s (.sync (.popFront t k v))) t := by
  have hpc : s.sync.pc t = .take k := ha.2.1
  have hlen : s.sync.buffer.length = s.sync.buffer.tail.length + 1 := by
    rw [← List.cons_head?_tail (show s.sync.buffer.head? = some v from ha.2.2)]
    rfl
  have hbuffer : (next c s (.sync (.popFront t k v))).sync.buffer =
      s.sync.buffer.tail := rfl
  have hwaiters : (next c s (.sync (.popFront t k v))).waiters =
      s.waiters := rfl
  have hzero : ((next c s (.sync (.popFront t k v))).pc t).retries
      ((next c s (.sync (.popFront t k v))).sync.pc t).outcome = 0 := by
    have hnew : (next c s (.sync (.popFront t k v))).sync.pc t =
        SyncChannel.afterTake c.channel k v := Function.update_self _ _ _
    rw [hnew, SyncChannel.outcome_afterTake]
    exact retries_some _ _
  unfold Balanced State.wokenBy
  rw [hbuffer, hwaiters, hzero]
  rcases hP with hown | hspare
  · have hone : (s.pc t).retries (s.sync.pc t).outcome = 1 := by
      rw [hown, hpc]
      rfl
    exact Or.inl (by omega)
  · exact Or.inr ⟨hspare, by omega⟩

/-- A step of `sync_channel` that takes no value decides at most an attempt. -/
theorem balanced_sync {b : SyncChannel.Action τ T}
    (ha : Enabled c s (.sync b)) (hP : LeavesForWoken s (.sync b))
    (hopen : s.sync.closed = false) :
    Balanced s (next c s (.sync b)) b.thread := by
  have htries : ((next c s (.sync b)).pc b.thread).retries
        ((next c s (.sync b)).sync.pc b.thread).outcome ≤
      (s.pc b.thread).retries (s.sync.pc b.thread).outcome := by
    change (s.pc b.thread).retries
      ((SyncChannel.next c.channel s.sync b).pc b.thread).outcome ≤ _
    cases hout : ((SyncChannel.next c.channel s.sync b).pc b.thread).outcome
      with
    | none =>
        rw [SyncChannel.outcome_of_next ha.2 ha.1 hout]
    | some out =>
        rw [retries_some]
        exact Nat.zero_le _
  have hwoken : (next c s (.sync b)).wokenBy b.thread ≤ s.wokenBy b.thread :=
    wokenBy_le le_rfl htries
  cases b with
  | popFront t k v =>
      refine balanced_popFront ha (hP.imp id fun hspare => ?_)
      exact hspare.resolve_left (by rw [hopen]; exact Bool.false_ne_true)
  | pushBack t k v =>
      refine Balanced.of_wokenBy_le rfl ?_ hwoken
      change _ ≤ (s.sync.buffer ++ [v]).length
      simp
  | _ => exact Balanced.of_wokenBy_le rfl le_rfl hwoken

theorem balanced_list {d : Side} {b : AsyncPrimitive.Action τ τ Empty}
    (hal : Aligned c s) (hwalks : ClosedFirst s)
    (ha : Enabled c s (.list t d b)) (hP : LeavesForWoken s (.list t d b))
    (hopen : s.sync.closed = false) :
    Balanced s (next c s (.list t d b)) t := by
  have hin := hal.list.inList_of_runner ha.1 ha.2
  have hsync : (next c s (.list t d b)).sync = s.sync := by
    dsimp only [next]
    split <;> rfl
  have hzero : ((next c s (.list t d b)).pc t).retries
      ((next c s (.list t d b)).sync.pc t).outcome = 0 := by
    rcases next_pc_list (c := c) (s := s) t d b t with hpc | ⟨-, hpc⟩
    · rw [hpc]
      exact retries_of_inList hin _
    · rw [hpc]
      exact retries_afterList _ _
  have hlist := next_waiters (c := c) (s := s) (a := .list t d b) .receive
  cases d with
  | send =>
      have hsame : (next c s (.list t .send b)).waiters .receive =
          s.waiters .receive := hlist
      refine Balanced.of_wokenBy_le (by rw [hsame]) (by rw [hsync]) ?_
      refine wokenBy_le (by rw [hsame]) ?_
      rw [hzero]
      exact Nat.zero_le _
  | receive =>
      have hself : (next c s (.list t .receive b)).waiters .receive =
          AsyncPrimitive.next AsyncPrimitive.ungated (s.waiters .receive) b :=
        hlist
      unfold Balanced State.wokenBy
      rw [hzero, hsync, hself]
      rcases carries_next ha.1 ha.2 with hle | ⟨n, o, rfl, hle⟩ | hwalk
      · exact Or.inl (by omega)
      · have hspare : s.Spare := hP
        rcases hspare with hclosed | hspare
        · cases hopen.symm.trans hclosed
        · exact Or.inr ⟨hspare, by omega⟩
      · cases hopen.symm.trans (hwalks.walking t .receive hwalk)

theorem balanced_resume {w : Awaiter T} (ha : Enabled c s (.resume t w)) :
    Balanced s (next c s (.resume t w)) t := by
  have hold : ∀ out, (s.pc t).retries out = 0 := by
    intro out
    rw [ha.1]
    rfl
  have hpc : (next c s (.resume t w)).pc t = .resuming w true :=
    Function.update_self _ _ _
  have hout : ((next c s (.resume t w)).sync.pc t).outcome = none :=
    SyncChannel.outcome_call_self c.channel s.sync t (w.resumeOp c)
  cases w with
  | send v =>
      refine Balanced.of_wokenBy_le rfl le_rfl (wokenBy_le le_rfl ?_)
      rw [hpc]
      exact Nat.zero_le _
  | receive =>
      have hmem : t ∈ (s.waiters .receive).scheduled := ha.2.1
      have hpos := List.length_pos_of_mem hmem
      have hless := List.length_erase_of_mem hmem
      have hwaiters : (next c s (.resume t .receive)).waiters .receive =
          AsyncPrimitive.next AsyncPrimitive.ungated (s.waiters .receive)
            (.resume t) := rfl
      have hbuffer : (next c s (.resume t .receive)).sync.buffer =
          s.sync.buffer := rfl
      refine Or.inl ?_
      unfold State.wokenBy
      rw [hbuffer, hwaiters, hpc, hout, hold]
      simp only [AsyncPrimitive.next, AsyncPrimitive.State.move, Pc.retries,
        Option.isNone_none, if_true]
      omega

theorem balanced_call {q : Pc T} {d : Side}
    {b : AsyncPrimitive.Action τ τ Empty} {r : AsyncPrimitive.Pc τ}
    (hpc : s'.pc = Function.update s.pc t q) (hsync : s'.sync = s.sync)
    (hlist : s'.waiters = (s.listNext d b).waiters)
    (hq : ∀ out, q.retries out = 0)
    (hb : (AsyncPrimitive.next AsyncPrimitive.ungated (s.waiters d) b).pc =
      Function.update (s.waiters d).pc t r)
    (hscheduled : (AsyncPrimitive.next AsyncPrimitive.ungated (s.waiters d)
      b).scheduled = (s.waiters d).scheduled)
    (hr : delivering r = 0) : Balanced s s' t := by
  have htries : (s'.pc t).retries (s'.sync.pc t).outcome = 0 := by
    rw [hpc, Function.update_self, hq]
  have hwaiters := listNext_waiters (s := s) d .receive b
  rw [← hlist] at hwaiters
  by_cases hd : d = .receive
  · subst hd
    rw [if_pos rfl] at hwaiters
    refine Balanced.of_wokenBy_le (by rw [hwaiters, hscheduled])
      (by rw [hsync]) (wokenBy_le ?_ ?_)
    · rw [hwaiters, hb, Function.update_self, hr]
      exact Nat.zero_le _
    · rw [htries]
      exact Nat.zero_le _
  · rw [if_neg hd] at hwaiters
    refine Balanced.of_wokenBy_le (by rw [hwaiters]) (by rw [hsync])
      (wokenBy_le (by rw [hwaiters]) ?_)
    rw [htries]
    exact Nat.zero_le _

theorem balanced_next (hal : Aligned c s) (hwalks : ClosedFirst s)
    (ha : Enabled c s a) (hP : LeavesForWoken s a)
    (hopen : s.sync.closed = false) : Balanced s (next c s a) a.agent := by
  have hmoved : ∀ {t : τ} {q : Pc T} {s' : State τ T},
      s'.pc = Function.update s.pc t q →
      s'.waiters .receive = s.waiters .receive →
      s'.sync.buffer = s.sync.buffer → (∀ out, q.retries out = 0) →
        Balanced s s' t := by
    intro t q s' hpc hlist hbuffer hq
    refine Balanced.of_wokenBy_le (by rw [hlist]) (by rw [hbuffer]) ?_
    refine wokenBy_le (by rw [hlist]) ?_
    rw [hpc, Function.update_self, hq]
    exact Nat.zero_le _
  cases a with
  | sync b => exact balanced_sync ha hP hopen
  | list t d b => exact balanced_list hal hwalks ha hP hopen
  | resume t w => exact balanced_resume ha
  | call t op => exact hmoved rfl rfl rfl fun _ => rfl
  | coAwait t w => exact hmoved rfl rfl rfl fun _ => rfl
  | loadOpen t => exact hmoved rfl rfl rfl fun _ => rfl
  | loadClosed t => exact hmoved rfl rfl rfl fun _ => rfl
  | syncReturn t op out =>
      exact hmoved rfl rfl rfl (retries_afterSync (s.pc t) out)
  | callAdd t w =>
      exact balanced_call rfl rfl rfl (fun _ => rfl) rfl rfl rfl
  | callWake t all d =>
      cases all with
      | false => exact balanced_call rfl rfl rfl (fun _ => rfl) rfl rfl rfl
      | true => exact balanced_call rfl rfl rfl (fun _ => rfl) rfl rfl rfl

omit [Fintype τ] in
theorem wokenBy_next_of_ne (ha : Enabled c s a) {u : τ} (hu : u ≠ a.agent) :
    (next c s a).wokenBy u = s.wokenBy u := by
  have hout : ((next c s a).sync.pc u).outcome = (s.sync.pc u).outcome := by
    rcases next_sync_pc_of_ne ha hu with hsync | ⟨op, hold, hnew⟩
    · rw [hsync]
    · rw [hold, hnew]
      rfl
  unfold State.wokenBy
  rw [next_pc_of_ne hu, next_waiters_pc_of_ne ha hu, hout]

theorem provided_next (hal : Aligned c s) (hwalks : ClosedFirst s)
    (h : Provided s) (ha : Enabled c s a) (hP : LeavesForWoken s a) :
    Provided (next c s a) := by
  rcases h with hclosed | hle
  · exact Or.inl (closed_next hclosed)
  · cases hopen : s.sync.closed with
    | true => exact Or.inl (closed_next hopen)
    | false =>
        refine Or.inr ?_
        have hsum : tally id (next c s a).wokenBy + s.wokenBy a.agent =
            tally id s.wokenBy + (next c s a).wokenBy a.agent :=
          tally_add_of_forall_ne a.agent fun u hu => wokenBy_next_of_ne ha hu
        unfold State.woken at hle ⊢
        rcases balanced_next hal hwalks ha hP hopen with hpays | ⟨hspare, hpays⟩
        · omega
        · unfold State.woken at hspare
          omega

/-- As long as the steps leave to the woken receivers what they were woken
for, there is a value for each of them. -/
theorem provided_reachable
    (hs : (system c τ).ReachableWhere LeavesForWoken s) : Provided s := by
  refine hs.invariant_of Provided
    (fun s hs => And.intro (aligned_reachable hs.reachable)
      (closedFirst_reachable hs.reachable)) ?_
    fun s a hJ h ha hP => provided_next hJ.1 hJ.2 h ha hP
  rintro s rfl
  refine Or.inr (le_of_eq ?_)
  exact Nat.add_eq_zero_iff.mpr ⟨tally_eq_zero_iff.mpr fun _ => rfl, rfl⟩

omit [DecidableEq τ] in
/-- A woken receiver about to try finds a value or a closed channel. -/
theorem finds_of_provided (h : Provided s) {k : SyncChannel.ReceiveKind}
    (hpc : s.pc t = .resuming .receive true) (htake : s.sync.pc t = .take k) :
    s.sync.closed = true ∨ s.sync.buffer ≠ [] := by
  refine h.imp id fun hle hempty => ?_
  have hone : s.wokenBy t ≤ tally id s.wokenBy := le_tally id s.wokenBy t
  have hpos : 1 ≤ s.wokenBy t := by
    unfold State.wokenBy
    rw [hpc, htake]
    exact Nat.le_add_left _ _
  unfold State.woken at hle
  rw [hempty, List.length_nil] at hle
  omega

end Fintype

end AsyncChannel
end Ethreads
