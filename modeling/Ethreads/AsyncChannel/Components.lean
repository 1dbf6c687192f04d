import Ethreads.AsyncChannel.Model

/-!
# The components of the asynchronous channel

Every step of the channel is at most one step of `sync_channel` and at most one
step of each waiter list, so what is known of every run of a component holds
here as well.  An agent runs exactly the function of a component that its
program point names, and no call of a component ever has to wait.
-/

namespace Ethreads
namespace AsyncChannel

variable {τ T : Type*}

/-! ## What a step does in a component -/

def Action.syncPart (c : Config T) :
    Action τ T → Option (SyncChannel.Action τ T)
  | call t op => some (.call t op)
  | coAwait t w => some (.call t w.readyOp)
  | sync a => some a
  | syncReturn t op out => some (.unlock t op out)
  | loadClosed t => some (.call t (.receive .tryReceive))
  | resume t w => some (.call t (w.resumeOp c))
  | loadOpen _ | callAdd _ _ | callWake _ _ _ | list _ _ _ => none

def Action.listPart (side : Side) :
    Action τ T → Option (AsyncPrimitive.Action τ τ Empty)
  | callAdd t w => if w.side = side then some (.callAdd t t) else none
  | callWake t all d => if d = side then some (wakeCall t all) else none
  | list _ d a => if d = side then some a else none
  | resume t w => if w.side = side then some (.resume t) else none
  | _ => none

variable [DecidableEq τ] {c : Config T} {s : State τ T} {a : Action τ T}

theorem next_sync :
    (next c s a).sync =
      (a.syncPart c).elim s.sync (SyncChannel.next c.channel s.sync) := by
  cases a with
  | list t side a =>
      dsimp only [next]
      split <;> rfl
  | _ => rfl

omit [DecidableEq τ] in
theorem enabled_syncPart (ha : Enabled c s a) {b : SyncChannel.Action τ T}
    (hb : a.syncPart c = some b) : s.SyncEnabled c b := by
  cases a with
  | call t op => cases hb; exact ha.2
  | coAwait t w => cases hb; exact ha.2
  | sync a => cases hb; exact ha.2
  | syncReturn t op out => cases hb; exact ha
  | loadClosed t => cases hb; exact ha.2.2
  | resume t w => cases hb; exact ha.2.2
  | loadOpen t => cases hb
  | callAdd t w => cases hb
  | callWake t all side => cases hb
  | list t side a => cases hb

theorem closed_next (hc : s.sync.closed = true) :
    (next c s a).sync.closed = true := by
  rw [next_sync]
  cases a.syncPart c with
  | none => exact hc
  | some b => exact SyncChannel.next_closed hc

theorem listNext_waiters (d side : Side)
    (b : AsyncPrimitive.Action τ τ Empty) :
    (s.listNext d b).waiters side =
      if d = side then
        AsyncPrimitive.next AsyncPrimitive.ungated (s.waiters side) b
      else s.waiters side := by
  by_cases h : d = side
  · subst h
    simp [State.listNext]
  · simp [State.listNext, h, Function.update_of_ne (Ne.symm h)]

theorem next_waiters (side : Side) :
    (next c s a).waiters side =
      (a.listPart side).elim (s.waiters side)
        (AsyncPrimitive.next AsyncPrimitive.ungated (s.waiters side)) := by
  have hpart : ∀ (d : Side) (b : AsyncPrimitive.Action τ τ Empty),
      (s.listNext d b).waiters side =
        (if d = side then some b else none).elim (s.waiters side)
          (AsyncPrimitive.next AsyncPrimitive.ungated (s.waiters side)) := by
    intro d b
    rw [listNext_waiters]
    split <;> rfl
  cases a with
  | callAdd t w => exact hpart w.side _
  | callWake t all d => exact hpart d _
  | resume t w => exact hpart w.side _
  | list t d b =>
      refine Eq.trans ?_ (hpart d b)
      dsimp only [next]
      split <;> rfl
  | _ => rfl

omit [DecidableEq τ] in
theorem enabled_listPart (ha : Enabled c s a) {side : Side}
    {b : AsyncPrimitive.Action τ τ Empty} (hb : a.listPart side = some b) :
    s.ListEnabled side b := by
  have hpart : ∀ {d : Side} {b' : AsyncPrimitive.Action τ τ Empty},
      s.ListEnabled d b' → (if d = side then some b' else none) = some b →
        s.ListEnabled side b := by
    intro d b' hb' heq
    split at heq
    · rename_i hd
      subst hd
      cases heq
      exact hb'
    · cases heq
  cases a with
  | callAdd t w => exact hpart ha.2 hb
  | callWake t all d => exact hpart ha.2 hb
  | list t d b' => exact hpart ha.2 hb
  | resume t w => exact hpart ha.2.1 hb
  | _ => cases hb

/-! ## What a step leaves alone -/

def Action.agent : Action τ T → τ
  | call t _ | coAwait t _ | syncReturn t _ _ | loadOpen t | loadClosed t
  | callAdd t _ | callWake t _ _ | list t _ _ | resume t _ => t
  | sync a => a.thread

theorem next_pc_of_ne {u : τ} (hu : u ≠ a.agent) :
    (next c s a).pc u = s.pc u := by
  cases a with
  | sync b => rfl
  | list t d b =>
      dsimp only [next]
      split
      · exact Function.update_of_ne hu _ _
      · rfl
  | _ => exact Function.update_of_ne hu _ _

omit [DecidableEq τ] in
theorem thread_syncPart {b : SyncChannel.Action τ T}
    (hb : a.syncPart c = some b) : b.thread = a.agent := by
  cases a with
  | loadOpen t => cases hb
  | callAdd t w => cases hb
  | callWake t all side => cases hb
  | list t side a => cases hb
  | _ => cases hb; rfl

theorem next_sync_pc_of_ne (ha : Enabled c s a) {u : τ} (hu : u ≠ a.agent) :
    (next c s a).sync.pc u = s.sync.pc u ∨
      ∃ op, s.sync.pc u = .waiting op ∧
        (next c s a).sync.pc u = .notified op := by
  rw [next_sync]
  cases hb : a.syncPart c with
  | none => exact Or.inl rfl
  | some b =>
      rw [← thread_syncPart hb] at hu
      exact SyncChannel.next_pc_of_ne (enabled_syncPart ha hb) hu

theorem next_waiters_pc_of_ne (ha : Enabled c s a) {u : τ}
    (hu : u ≠ a.agent) (side : Side) :
    ((next c s a).waiters side).pc u = (s.waiters side).pc u := by
  have hstep : ∀ {d : Side} {b : AsyncPrimitive.Action τ τ Empty},
      (AsyncPrimitive.next AsyncPrimitive.ungated (s.waiters d) b).pc u =
        (s.waiters d).pc u →
      ((s.listNext d b).waiters side).pc u = (s.waiters side).pc u := by
    intro d b hpc
    rw [listNext_waiters]
    split
    · rename_i hd
      subst hd
      exact hpc
    · rfl
  cases a with
  | callAdd t w => exact hstep (Function.update_of_ne hu _ _)
  | callWake t all d =>
      refine hstep ?_
      cases all <;> exact Function.update_of_ne hu _ _
  | resume t w => exact hstep rfl
  | list t d b =>
      obtain ⟨r, hr⟩ : ∃ r, (AsyncPrimitive.next AsyncPrimitive.ungated
          (s.waiters d) b).pc = Function.update (s.waiters d).pc t r :=
        AsyncPrimitive.exists_pc_next_of_runner _ ha.1
      dsimp only [next]
      split <;> exact hstep (by rw [hr]; exact Function.update_of_ne hu _ _)
  | _ => rfl

/-- The synchronous channel inside a reachable channel is reachable. -/
theorem sync_reachable (hs : (system c τ).Reachable s) :
    (SyncChannel.system c.channel τ T).Reachable s.sync := by
  refine hs.project State.sync ?_ ?_
  · rintro s rfl
    rfl
  · intro s a _ ha _
    have hnext := next_sync (c := c) (s := s) (a := a)
    cases hb : a.syncPart c with
    | none =>
        rw [hb] at hnext
        exact Or.inl hnext
    | some b =>
        rw [hb] at hnext
        exact Or.inr ⟨b, enabled_syncPart ha hb, trivial, hnext⟩

/-! ## Which function of a component an agent runs -/

def Pc.syncOp (c : Config T) : Pc T → Option (SyncChannel.Op T)
  | call op => some op
  | ready w => some w.readyOp
  | resuming w _ => some (w.resumeOp c)
  | _ => none

/-- The program points inside a function of a waiter list. -/
def Pc.inList (side : Side) : Pc T → Bool
  | adding w => w.side = side
  | waking _ d => d = side
  | _ => false

def SyncAligned (c : Config T) (s : State τ T) : Prop :=
  ∀ t, (s.sync.pc t).op = (s.pc t).syncOp c

/-- An agent outside the functions of a waiter list can call them. -/
def ListAligned (s : State τ T) : Prop :=
  ∀ t side, (s.pc t).inList side = false → (s.waiters side).pc t = .idle

/-- The components run what the program points of the agents name. -/
structure Aligned (c : Config T) (s : State τ T) : Prop where
  sync : SyncAligned c s
  list : ListAligned s

omit [DecidableEq τ] in
theorem syncOp_afterSync (p : Pc T) (out : SyncChannel.Outcome T) :
    (p.afterSync c out).syncOp c = none := by
  unfold Pc.afterSync
  split <;> try rfl
  unfold afterCall
  split <;> try rfl
  split <;> rfl

omit [DecidableEq τ] in
theorem syncOp_afterList (p : Pc T) : p.afterList.syncOp c = none := by
  unfold Pc.afterList
  split <;> rfl

omit [DecidableEq τ] in
theorem syncOp_of_inList {p : Pc T} {side : Side}
    (hp : p.inList side = true) : p.syncOp c = none := by
  cases p <;> first | rfl | cases hp

omit [DecidableEq τ] in
theorem inList_of_syncOp {p : Pc T} (hp : p.syncOp c ≠ none) (side : Side) :
    p.inList side = false := by
  cases p <;> first | rfl | exact absurd rfl hp

omit [DecidableEq τ] in
theorem inList_of_ne {p : Pc T} {d side : Side} (hp : p.inList d = true)
    (hd : d ≠ side) : p.inList side = false := by
  cases p with
  | adding w =>
      obtain rfl : w.side = d := of_decide_eq_true hp
      exact decide_eq_false hd
  | waking all d' =>
      obtain rfl : d' = d := of_decide_eq_true hp
      exact decide_eq_false hd
  | _ => rfl

omit [DecidableEq τ] in
theorem ListAligned.inList_of_runner (h : ListAligned s) {t : τ} {side : Side}
    {b : AsyncPrimitive.Action τ τ Empty} (hb : b.runner = some t)
    (ha : s.ListEnabled side b) : (s.pc t).inList side = true := by
  by_contra hout
  exact AsyncPrimitive.pc_ne_idle_of_runner hb ha
    (h t side (Bool.eq_false_iff.mpr hout))

section Steps

variable {s' : State τ T} {t : τ} {p q : Pc T}

theorem SyncAligned.of_update (h : SyncAligned c s)
    (hpc : s'.pc = Function.update s.pc t q)
    (hother : ∀ u, u ≠ t → (s'.sync.pc u).op = (s.sync.pc u).op)
    (hself : (s'.sync.pc t).op = q.syncOp c) : SyncAligned c s' := by
  intro u
  rw [hpc]
  by_cases hu : u = t
  · subst hu
    rw [Function.update_self, hself]
  · rw [Function.update_of_ne hu, hother u hu, h u]

theorem SyncAligned.of_frame (h : SyncAligned c s) (hp : s.pc t = p)
    (hpc : s'.pc = Function.update s.pc t q) (hsync : s'.sync = s.sync)
    (hop : q.syncOp c = p.syncOp c) : SyncAligned c s' := by
  refine h.of_update hpc (fun u _ => by rw [hsync]) ?_
  rw [hsync, h t, hp, hop]

theorem SyncAligned.of_call (h : SyncAligned c s) {op : SyncChannel.Op T}
    (hpc : s'.pc = Function.update s.pc t q)
    (hsync : s'.sync = SyncChannel.next c.channel s.sync (.call t op))
    (ha : s.SyncEnabled c (.call t op)) (hop : q.syncOp c = some op) :
    SyncAligned c s' := by
  refine h.of_update hpc (fun u hu => ?_) ?_
  · rw [hsync]
    exact SyncChannel.op_next_of_ne ha hu
  · rw [hsync, SyncChannel.op_call_self, hop]

/-- A step outside the functions of the waiter lists. -/
theorem ListAligned.of_update (h : ListAligned s) (hp : s.pc t = p)
    (hpout : ∀ side, p.inList side = false)
    (hpc : s'.pc = Function.update s.pc t q)
    (hlist : ∀ side, (s'.waiters side).pc = (s.waiters side).pc) :
    ListAligned s' := by
  intro u side hu
  rw [hlist]
  by_cases hut : u = t
  · subst hut
    exact h u side (by rw [hp, hpout])
  · rw [hpc, Function.update_of_ne hut] at hu
    exact h u side hu

theorem ListAligned.of_listNext (h : ListAligned s) {d : Side}
    {b : AsyncPrimitive.Action τ τ Empty} {r : AsyncPrimitive.Pc τ}
    (hb : ((s.listNext d b).waiters d).pc =
      Function.update (s.waiters d).pc t r)
    (hlist : s'.waiters = (s.listNext d b).waiters)
    (hpc : ∀ u, u ≠ t → s'.pc u = s.pc u)
    (hin : (s'.pc t).inList d = false → r = .idle)
    (hout : ∀ side, (s'.pc t).inList side = false → d ≠ side →
      (s.pc t).inList side = false) : ListAligned s' := by
  intro u side hu
  rw [hlist]
  by_cases hut : u = t
  · subst hut
    by_cases hd : d = side
    · subst hd
      rw [hb, Function.update_self, hin hu]
    · rw [listNext_waiters, if_neg hd]
      exact h u side (hout side hu hd)
  · rw [hpc u hut] at hu
    by_cases hd : d = side
    · subst hd
      rw [hb, Function.update_of_ne hut]
      exact h u d hu
    · rw [listNext_waiters, if_neg hd]
      exact h u side hu

theorem ListAligned.of_call (h : ListAligned s) {d : Side}
    {b : AsyncPrimitive.Action τ τ Empty} {r : AsyncPrimitive.Pc τ}
    (hp : s.pc t = p) (hpout : ∀ side, p.inList side = false)
    (hq : q.inList d = true) (hpc : s'.pc = Function.update s.pc t q)
    (hb : ((s.listNext d b).waiters d).pc =
      Function.update (s.waiters d).pc t r)
    (hlist : s'.waiters = (s.listNext d b).waiters) : ListAligned s' := by
  have hself : s'.pc t = q := by rw [hpc, Function.update_self]
  refine h.of_listNext hb hlist (fun u hu => ?_) (fun hside => ?_)
    fun side _ _ => ?_
  · rw [hpc, Function.update_of_ne hu]
  · rw [hself, hq] at hside
    cases hside
  · rw [hp, hpout]

end Steps

theorem syncAligned_next (h : SyncAligned c s) (hlist : ListAligned s)
    (ha : Enabled c s a) : SyncAligned c (next c s a) := by
  cases a with
  | call t op => exact h.of_call rfl rfl ha.2 rfl
  | coAwait t w => exact h.of_call rfl rfl ha.2 rfl
  | loadClosed t => exact h.of_call rfl rfl ha.2.2 rfl
  | resume t w => exact h.of_call rfl rfl ha.2.2 rfl
  | loadOpen t => exact h.of_frame ha.1 rfl rfl rfl
  | callAdd t w => exact h.of_frame ha.1 rfl rfl rfl
  | callWake t all side => exact h.of_frame ha.1 rfl rfl rfl
  | sync b =>
      intro u
      exact (SyncChannel.op_next_of_internal ha.2 ha.1 u).trans (h u)
  | syncReturn t op out =>
      have hunlock : SyncChannel.Enabled c.channel s.sync
        (.unlock t op out) := ha
      refine h.of_update rfl (fun u hu => ?_) ?_
      · exact SyncChannel.op_next_of_ne hunlock hu
      · rw [syncOp_afterSync]
        exact SyncChannel.op_unlock_self c.channel s.sync t op out
  | list t side b =>
      dsimp only [next]
      split
      · refine h.of_frame rfl rfl rfl ?_
        rw [syncOp_afterList,
          syncOp_of_inList (hlist.inList_of_runner ha.1 ha.2)]
      · exact h

theorem listAligned_next (hsync : SyncAligned c s) (h : ListAligned s)
    (ha : Enabled c s a) : ListAligned (next c s a) := by
  cases a with
  | call t op => exact h.of_update ha.1 (fun _ => rfl) rfl fun _ => rfl
  | coAwait t w => exact h.of_update ha.1 (fun _ => rfl) rfl fun _ => rfl
  | loadOpen t => exact h.of_update ha.1 (fun _ => rfl) rfl fun _ => rfl
  | loadClosed t => exact h.of_update ha.1 (fun _ => rfl) rfl fun _ => rfl
  | sync b => exact h
  | syncReturn t op out =>
      have hpc : s.sync.pc t = .unlock op out := ha
      have hop : (s.pc t).syncOp c ≠ none := by
        rw [← hsync t, hpc]
        simp [SyncChannel.Pc.op]
      exact h.of_update rfl (inList_of_syncOp hop) rfl fun _ => rfl
  | resume t w =>
      refine h.of_update ha.1 (fun _ => rfl) rfl fun side => ?_
      exact congrArg AsyncPrimitive.State.pc (listNext_waiters w.side side _)
        |>.trans (by split <;> rfl)
  | callAdd t w =>
      have hq : (Pc.adding w).inList w.side = true := decide_eq_true rfl
      have hr : ((s.listNext w.side (.callAdd t t)).waiters w.side).pc =
          Function.update (s.waiters w.side).pc t (.addLoad t) := by
        rw [listNext_waiters, if_pos rfl]
        rfl
      exact h.of_call ha.1 (fun _ => rfl) hq rfl hr rfl
  | callWake t all d =>
      have hq : (Pc.waking all d : Pc T).inList d = true :=
        decide_eq_true rfl
      obtain ⟨r, hr⟩ : ∃ r, ((s.listNext d (wakeCall t all)).waiters d).pc =
          Function.update (s.waiters d).pc t r := by
        rw [listNext_waiters, if_pos rfl]
        cases all <;> exact ⟨_, rfl⟩
      exact h.of_call ha.1 (fun _ => rfl) hq rfl hr rfl
  | list t d b =>
      obtain ⟨r, hr⟩ : ∃ r, ((s.listNext d b).waiters d).pc =
          Function.update (s.waiters d).pc t r := by
        rw [listNext_waiters, if_pos rfl]
        exact AsyncPrimitive.exists_pc_next_of_runner _ ha.1
      have hself : ((s.listNext d b).waiters d).pc t = r := by
        rw [hr, Function.update_self]
      have hin := h.inList_of_runner ha.1 ha.2
      dsimp only [next]
      split
      · rename_i hidle
        refine h.of_listNext hr rfl (fun u hu => Function.update_of_ne hu _ _)
          (fun _ => hself.symm.trans hidle) fun side _ hd => ?_
        exact inList_of_ne hin hd
      · refine h.of_listNext hr rfl (fun u hu => rfl) (fun hside => ?_)
          fun side _ hd => inList_of_ne hin hd
        cases hin.symm.trans hside

theorem aligned_next (h : Aligned c s) (ha : Enabled c s a) :
    Aligned c (next c s a) :=
  ⟨syncAligned_next h.sync h.list ha, listAligned_next h.sync h.list ha⟩

theorem aligned_reachable (hs : (system c τ).Reachable s) : Aligned c s := by
  refine TransitionSystem.Reachable.invariant hs (Aligned c) ?_
    fun s a h ha => aligned_next h ha
  rintro s rfl
  exact ⟨fun t => rfl, fun t side _ => rfl⟩

end AsyncChannel
end Ethreads
