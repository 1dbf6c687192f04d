import Ethreads.AsyncChannel.Components
import Ethreads.AsyncPrimitive.Ownership

/-!
# Who waits in the asynchronous channel

Only `send` and `receive` of `async_channel` wake the other side after they
have changed the buffer; the operations inherited from `sync_channel` and the
attempts of the awaiters do not, and an awaiter registers without looking at
the channel again.  This module states when a step does none of the harm this
can do, and shows that the waiter lists then hold exactly the suspended
coroutines and that `close` always gets round to them.
-/

namespace Ethreads
namespace AsyncChannel

variable {τ T : Type*}

/-! ## Harmless steps -/

def State.HasWaiters (s : State τ T) (side : Side) : Prop :=
  (s.waiters side).waiters ≠ none

instance (s : State τ T) (side : Side) [DecidableEq τ] :
    Decidable (s.HasWaiters side) :=
  inferInstanceAs (Decidable (_ ≠ none))

/-- While a receiver waits, only `async_channel::send` adds a value. -/
def AppendsWake (s : State τ T) : Action τ T → Prop
  | .sync (.pushBack t _ v) =>
      s.HasWaiters .receive → s.pc t = .call (.send .send v)
  | _ => True

/-- While a sender waits, only `async_channel::receive` takes a value. -/
def RemovesWake (s : State τ T) : Action τ T → Prop
  | .sync (.popFront t _ _) =>
      s.HasWaiters .send → s.pc t = .call (.receive .receive)
  | _ => True

/-- What a coroutine waits for has not come yet: the channel is open, and empty
for a receiver, full for a sender. -/
def MustWait (c : Config T) (s : State τ T) : Side → Prop
  | .receive => s.sync.closed = false ∧ s.sync.buffer = []
  | .send =>
      s.sync.closed = false ∧ SyncChannel.canSend c.channel s.sync = false

/-- A node is pushed onto a waiter list while its coroutine still has to
wait. -/
def RegistersInTime (c : Config T) (s : State τ T) : Action τ T → Prop
  | .list _ side (.addCas _ _ _) => MustWait c s side
  | _ => True

/-- `wake_one` leaves the list without the node it removes. -/
def RemovesHead (s : State τ T) : Action τ T → Prop
  | .list _ side a => AsyncPrimitive.SwingsToNext (s.waiters side) a
  | _ => True

/-- A step that leaves nobody behind. -/
structure WakesWaiters (c : Config T) (s : State τ T) (a : Action τ T) :
    Prop where
  appends : AppendsWake s a
  removes : RemovesWake s a
  registers : RegistersInTime c s a
  removesHead : RemovesHead s a

section Decidable

variable [DecidableEq τ] [DecidableEq T]

instance (s : State τ T) (a : Action τ T) : Decidable (AppendsWake s a) := by
  induction a using Action.casesOn with
  | sync b =>
      induction b using SyncChannel.Action.casesOn <;>
        dsimp only [AppendsWake] <;> infer_instance
  | _ => exact inferInstanceAs (Decidable True)

instance (s : State τ T) (a : Action τ T) : Decidable (RemovesWake s a) := by
  induction a using Action.casesOn with
  | sync b =>
      induction b using SyncChannel.Action.casesOn <;>
        dsimp only [RemovesWake] <;> infer_instance
  | _ => exact inferInstanceAs (Decidable True)

instance (c : Config T) (s : State τ T) (side : Side) :
    Decidable (MustWait c s side) := by
  cases side <;> dsimp only [MustWait] <;> infer_instance

instance (c : Config T) (s : State τ T) (a : Action τ T) :
    Decidable (RegistersInTime c s a) := by
  induction a using Action.casesOn with
  | list t side b =>
      induction b using AsyncPrimitive.Action.casesOn <;>
        dsimp only [RegistersInTime] <;> infer_instance
  | _ => exact inferInstanceAs (Decidable True)

instance (s : State τ T) (a : Action τ T) : Decidable (RemovesHead s a) := by
  induction a using Action.casesOn <;> dsimp only [RemovesHead] <;>
    infer_instance

instance (c : Config T) (s : State τ T) (a : Action τ T) :
    Decidable (WakesWaiters c s a) :=
  decidable_of_iff
    (AppendsWake s a ∧ RemovesWake s a ∧ RegistersInTime c s a ∧
      RemovesHead s a)
    ⟨fun h => ⟨h.1, h.2.1, h.2.2.1, h.2.2.2⟩,
      fun h => ⟨h.appends, h.removes, h.registers, h.removesHead⟩⟩

end Decidable

/-! ## The lists hold the suspended coroutines -/

/-- The coroutine of the agent is on its way through the waiter list. -/
def Pc.waitsIn (side : Side) : Pc T → Bool
  | adding w => w.side = side
  | suspended w => w.side = side
  | _ => false

/-- The nodes on their way are those of the coroutines that wait. -/
def OnWay (s : State τ T) : Prop :=
  ∀ t side,
    (s.waiters side).place t ≠ .outside ↔ (s.pc t).waitsIn side = true

/-- The coroutines that wait are on their way, each of them in exactly one
place. -/
structure Registered (s : State τ T) : Prop where
  owned : ∀ side, AsyncPrimitive.Owned (s.waiters side)
  onWay : OnWay s

theorem waitsIn_afterSync {c : Config T} (p : Pc T)
    (out : SyncChannel.Outcome T) (side : Side) :
    (p.afterSync c out).waitsIn side = false := by
  unfold Pc.afterSync
  split <;> try rfl
  unfold afterCall
  split <;> try rfl
  split <;> rfl

theorem waitsIn_of_syncOp {c : Config T} {p : Pc T}
    (hp : p.syncOp c ≠ none) (side : Side) : p.waitsIn side = false := by
  cases p <;> first | rfl | exact absurd rfl hp

theorem waitsIn_afterList {p : Pc T} {d : Side} (hp : p.inList d = true)
    (side : Side) : p.afterList.waitsIn side = p.waitsIn side := by
  cases p with
  | adding w => rfl
  | waking all d' => cases all <;> cases d' <;> rfl
  | _ => cases hp

variable [DecidableEq τ] {c : Config T} {s s' : State τ T} {a : Action τ T}
  {t : τ} {p q : Pc T}

theorem owned_listNext (h : ∀ side, AsyncPrimitive.Owned (s.waiters side))
    {d : Side} {b : AsyncPrimitive.Action τ τ Empty}
    (ha : s.ListEnabled d b)
    (hfresh : AsyncPrimitive.AddsFresh (s.waiters d) b)
    (hswing : AsyncPrimitive.SwingsToNext (s.waiters d) b) (side : Side) :
    AsyncPrimitive.Owned ((s.listNext d b).waiters side) := by
  rw [listNext_waiters]
  split
  · rename_i hd
    subst hd
    exact AsyncPrimitive.owned_next (h d) ha hfresh hswing
  · exact h side

theorem owned_waiters_next (h : Registered s) (ha : Enabled c s a)
    (hP : RemovesHead s a) (side : Side) :
    AsyncPrimitive.Owned ((next c s a).waiters side) := by
  cases a with
  | callAdd t w =>
      refine owned_listNext h.owned ha.2 ?_ trivial side
      have hout : (s.pc t).waitsIn w.side = false := by rw [ha.1]; rfl
      by_contra hplace
      cases hout.symm.trans ((h.onWay t w.side).mp hplace)
  | callWake t all d =>
      refine owned_listNext h.owned ha.2 ?_ ?_ side
      · cases all <;> trivial
      · cases all <;> trivial
  | resume t w => exact owned_listNext h.owned ha.2.1 trivial trivial side
  | list t d b =>
      have hfresh : AsyncPrimitive.AddsFresh (s.waiters d) b := by
        cases b with
        | callAdd u n => cases ha.1
        | _ => trivial
      dsimp only [next]
      split <;> exact owned_listNext h.owned ha.2 hfresh hP side
  | _ => exact h.owned side

theorem OnWay.of_update (h : OnWay s) (hp : s.pc t = p)
    (hpc : s'.pc = Function.update s.pc t q) (hwaiters : s'.waiters = s.waiters)
    (hq : ∀ side, q.waitsIn side = p.waitsIn side) : OnWay s' := by
  intro u side
  rw [hwaiters, hpc, h u side]
  by_cases hu : u = t
  · subst hu
    rw [Function.update_self, hq, hp]
  · rw [Function.update_of_ne hu]

theorem OnWay.of_move (h : OnWay s) {d : Side}
    {b : AsyncPrimitive.Action τ τ Empty} {r : AsyncPrimitive.Place τ}
    (hp : s.pc t = p) (hpc : s'.pc = Function.update s.pc t q)
    (hwaiters : s'.waiters = (s.listNext d b).waiters)
    (hplace : ((s.listNext d b).waiters d).place =
      Function.update (s.waiters d).place t r)
    (hr : r ≠ .outside ↔ q.waitsIn d = true)
    (hq : ∀ side, d ≠ side → q.waitsIn side = p.waitsIn side) : OnWay s' := by
  intro u side
  rw [hwaiters, hpc]
  by_cases hd : d = side
  · subst hd
    rw [hplace]
    by_cases hu : u = t
    · subst hu
      rw [Function.update_self, Function.update_self, hr]
    · rw [Function.update_of_ne hu, Function.update_of_ne hu]
      exact h u d
  · rw [listNext_waiters, if_neg hd, h u side]
    by_cases hu : u = t
    · subst hu
      rw [Function.update_self, hq side hd, hp]
    · rw [Function.update_of_ne hu]

theorem OnWay.of_listNext (h : OnWay s) {d : Side}
    {b : AsyncPrimitive.Action τ τ Empty}
    (hplace : ∀ u, ((s.listNext d b).waiters d).place u = .outside ↔
      (s.waiters d).place u = .outside)
    (hwaiters : s'.waiters = (s.listNext d b).waiters)
    (hpc : s'.pc = Function.update s.pc t q)
    (hq : ∀ side, q.waitsIn side = (s.pc t).waitsIn side) : OnWay s' := by
  intro u side
  have hkept : (s'.waiters side).place u ≠ .outside ↔
      (s.pc u).waitsIn side = true := by
    rw [hwaiters, ← h u side]
    by_cases hd : d = side
    · subst hd
      exact not_congr (hplace u)
    · rw [listNext_waiters, if_neg hd]
  rw [hkept, hpc]
  by_cases hu : u = t
  · subst hu
    rw [Function.update_self, hq]
  · rw [Function.update_of_ne hu]

theorem onWay_next (hal : Aligned c s) (h : Registered s)
    (ha : Enabled c s a) : OnWay (next c s a) := by
  have hself : ∀ (d : Side) (b : AsyncPrimitive.Action τ τ Empty),
      (s.listNext d b).waiters d = AsyncPrimitive.next
        AsyncPrimitive.ungated (s.waiters d) b :=
    fun d b => (listNext_waiters d d b).trans (if_pos rfl)
  cases a with
  | call t op => exact h.onWay.of_update ha.1 rfl rfl fun _ => rfl
  | coAwait t w => exact h.onWay.of_update ha.1 rfl rfl fun _ => rfl
  | loadOpen t => exact h.onWay.of_update ha.1 rfl rfl fun _ => rfl
  | loadClosed t => exact h.onWay.of_update ha.1 rfl rfl fun _ => rfl
  | sync b => exact h.onWay
  | syncReturn t op out =>
      have hpc : s.sync.pc t = .unlock op out := ha
      have hop : (s.pc t).syncOp c ≠ none := by
        rw [← hal.sync t, hpc]
        simp [SyncChannel.Pc.op]
      refine h.onWay.of_update rfl rfl rfl fun side => ?_
      rw [waitsIn_afterSync, waitsIn_of_syncOp hop]
  | callAdd t w =>
      refine h.onWay.of_move (d := w.side) (b := .callAdd t t) ha.1 rfl rfl
        (congrArg AsyncPrimitive.State.place (hself _ _)) ?_ fun side hd => ?_
      · simp [Pc.waitsIn]
      · exact decide_eq_false hd
  | resume t w =>
      refine h.onWay.of_move (d := w.side) (b := .resume t) ha.1 rfl rfl
        (congrArg AsyncPrimitive.State.place (hself _ _)) ?_ fun side hd => ?_
      · simp [Pc.waitsIn]
      · exact (decide_eq_false hd).symm
  | callWake t all d =>
      refine h.onWay.of_listNext (d := d) (b := wakeCall t all) (fun u => ?_)
        rfl rfl fun side => ?_
      · rw [hself]
        cases all <;> exact Iff.rfl
      · rw [ha.1]
        rfl
  | list t d b =>
      have hplace : ∀ u, ((s.listNext d b).waiters d).place u = .outside ↔
          (s.waiters d).place u = .outside := by
        intro u
        rw [hself]
        exact AsyncPrimitive.place_eq_outside_iff (h.owned d) ha.2 ha.1 u
      dsimp only [next]
      split
      · exact h.onWay.of_listNext hplace rfl rfl
          (waitsIn_afterList (hal.list.inList_of_runner ha.1 ha.2))
      · exact h.onWay.of_listNext hplace rfl
          (Function.update_eq_self t s.pc).symm fun _ => rfl

theorem registered_next (hal : Aligned c s) (h : Registered s)
    (ha : Enabled c s a) (hP : RemovesHead s a) : Registered (next c s a) :=
  ⟨owned_waiters_next h ha hP, onWay_next hal h ha⟩

theorem registered_reachable
    (hs : (system c τ).ReachableWhere RemovesHead s) : Registered s := by
  refine hs.invariant_of Registered (fun s hs => aligned_reachable hs.reachable)
    ?_ fun s a hal h ha hP => registered_next hal h ha hP
  rintro s rfl
  refine ⟨fun side => ?_, fun t side => by
    simp [initialState, AsyncPrimitive.initialState, Pc.waitsIn]⟩
  have hinit : (AsyncPrimitive.system AsyncPrimitive.ungated τ).ReachableWhere
      (fun s a => AsyncPrimitive.AddsFresh s a ∧
        AsyncPrimitive.SwingsToNext s a)
      (AsyncPrimitive.initialState τ τ Empty) := .init rfl
  exact AsyncPrimitive.owned_reachable hinit

/-- Somebody is in a list only if somebody was, or if a coroutine that must
wait registers. -/
theorem hasWaiters_of_next (ha : Enabled c s a) (hP : RegistersInTime c s a)
    {side : Side} (h : (next c s a).HasWaiters side) :
    s.HasWaiters side ∨
      (MustWait c s side ∧ (next c s a).sync = s.sync) := by
  have hstep : ∀ {d : Side} {b : AsyncPrimitive.Action τ τ Empty},
      s.ListEnabled d b →
      ((s.listNext d b).waiters side).waiters ≠ none →
        s.HasWaiters side ∨
          (d = side ∧ ∃ u n o, b = .addCas u n o) := by
    intro d b hb hne
    rw [listNext_waiters] at hne
    split at hne
    · rename_i hd
      subst hd
      exact (AsyncPrimitive.waiters_ne_none_of_next hb hne).imp_right
        fun hadd => ⟨rfl, hadd⟩
    · exact Or.inl hne
  cases a with
  | callAdd t w =>
      refine (hstep ha.2 h).resolve_right ?_ |> Or.inl
      rintro ⟨-, u, n, o, heq⟩
      cases heq
  | callWake t all d =>
      refine (hstep ha.2 h).resolve_right ?_ |> Or.inl
      rintro ⟨-, u, n, o, heq⟩
      cases all <;> cases heq
  | resume t w =>
      refine (hstep ha.2.1 h).resolve_right ?_ |> Or.inl
      rintro ⟨-, u, n, o, heq⟩
      cases heq
  | list t d b =>
      have hlist : (next c s (.list t d b)).waiters =
          (s.listNext d b).waiters := by
        dsimp only [next]
        split <;> rfl
      have hsync : (next c s (.list t d b)).sync = s.sync := by
        dsimp only [next]
        split <;> rfl
      unfold State.HasWaiters at h
      rw [hlist] at h
      rcases hstep ha.2 h with hold | ⟨rfl, u, n, o, rfl⟩
      · exact Or.inl hold
      · exact Or.inr ⟨hP, hsync⟩
  | _ => exact Or.inl h

/-! ## Closing wakes everybody -/

/-- The program points of a `close` that has set `closed_` and has not yet
taken the waiters of this side out of their list, given where the agent stands
in `sync_channel` and in the list. -/
def Pc.closing (side : Side) (sync : SyncChannel.Pc T)
    (list : AsyncPrimitive.Pc τ) : Pc T → Prop
  | call .close => sync ≠ .storeClosed
  | wake true .receive => True
  | waking true .receive => side = .receive → list = .exchange
  | wake true .send => side = .send
  | waking true .send => side = .send ∧ list = .exchange
  | _ => False

/-- The agent is going to wake the waiters of this side for a `close`. -/
def Closing (s : State τ T) (side : Side) (t : τ) : Prop :=
  (s.pc t).closing side (s.sync.pc t) ((s.waiters side).pc t)

/-- Whoever waits in a closed channel is going to be woken by a `close`. -/
def CloseWakes (s : State τ T) : Prop :=
  ∀ side, s.sync.closed = true → s.HasWaiters side →
    ∃ t, Closing s side t

omit [DecidableEq τ] in
theorem Pc.closing.of_sync {side : Side} {sync sync' : SyncChannel.Pc T}
    {list : AsyncPrimitive.Pc τ} (h : p.closing side sync list)
    (hsync : sync ≠ .storeClosed → sync' ≠ .storeClosed) :
    p.closing side sync' list := by
  unfold Pc.closing at h ⊢
  split at h
  · exact hsync h
  all_goals exact h

theorem closing_next_of_ne (ha : Enabled c s a) {side : Side} {u : τ}
    (hu : u ≠ a.agent) (h : Closing s side u) :
    Closing (next c s a) side u := by
  unfold Closing at h ⊢
  rw [next_pc_of_ne hu, next_waiters_pc_of_ne ha hu]
  refine h.of_sync fun hne => ?_
  rcases next_sync_pc_of_ne ha hu with hsync | ⟨op, -, hsync⟩
  · rwa [hsync]
  · rw [hsync]
    simp

theorem closing_callWake {all : Bool} {d side : Side}
    (ha : Enabled c s (.callWake t all d)) (h : Closing s side t) :
    Closing (next c s (.callWake t all d)) side t := by
  have hpc : (next c s (.callWake t all d)).pc t = .waking all d :=
    Function.update_self _ _ _
  unfold Closing at h ⊢
  rw [ha.1] at h
  rw [hpc]
  cases all with
  | false => exact h.elim
  | true =>
      have hexchange : ((next c s (.callWake t true d)).waiters d).pc t =
          .exchange := by
        rw [next_waiters]
        simp only [Action.listPart, if_true]
        exact Function.update_self _ _ _
      cases d with
      | receive =>
          rintro rfl
          exact hexchange
      | send =>
          obtain rfl : side = .send := h
          exact ⟨rfl, hexchange⟩

theorem closing_list {d side : Side} {b : AsyncPrimitive.Action τ τ Empty}
    (hal : Aligned c s) (ha : Enabled c s (.list t d b))
    (h : Closing s side t)
    (hwait : (next c s (.list t d b)).HasWaiters side) :
    Closing (next c s (.list t d b)) side t := by
  have hin := hal.list.inList_of_runner ha.1 ha.2
  have htaken : side = d → (s.waiters d).pc t ≠ .exchange := by
    rintro rfl hpc
    refine hwait ?_
    rw [next_waiters]
    simp only [Action.listPart, if_true]
    exact AsyncPrimitive.waiters_eq_none_of_exchange ha.1 ha.2 hpc
  unfold Closing at h
  cases hp : s.pc t with
  | adding w =>
      rw [hp] at h
      exact h.elim
  | waking all d' =>
      rw [hp] at hin h
      obtain rfl : d' = d := of_decide_eq_true hin
      cases all with
      | false => exact h.elim
      | true =>
          cases d' with
          | send =>
              obtain ⟨rfl, hexchange⟩ := h
              exact absurd hexchange (htaken rfl)
          | receive =>
              have hside : side = .send := by
                cases side with
                | send => rfl
                | receive => exact absurd (h rfl) (htaken rfl)
              subst hside
              have hpc : (next c s (.list t .receive b)).pc t =
                    .wake true .send ∨
                  (next c s (.list t .receive b)).pc t =
                    .waking true .receive := by
                dsimp only [next]
                split
                · exact Or.inl (by simp [State.goto, hp, Pc.afterList])
                · exact Or.inr hp
              unfold Closing
              rcases hpc with hpc | hpc
              · rw [hpc]
                rfl
              · rw [hpc]
                exact fun heq => by cases heq
  | _ => rw [hp] at hin; cases hin

theorem closing_syncReturn {op : SyncChannel.Op T}
    {out : SyncChannel.Outcome T} {side : Side} (hal : Aligned c s)
    (ha : Enabled c s (.syncReturn t op out)) (h : Closing s side t) :
    Closing (next c s (.syncReturn t op out)) side t := by
  have hpc : s.sync.pc t = .unlock op out := ha
  have hop := hal.sync t
  rw [hpc] at hop
  have hafter : (next c s (.syncReturn t op out)).pc t =
      (s.pc t).afterSync c out := Function.update_self _ _ _
  unfold Closing at h ⊢
  rw [hafter]
  unfold Pc.closing at h
  split at h
  · rename_i hp
    rw [hp]
    trivial
  all_goals
    rename_i hp
    first
    | exact h.elim
    | rw [hp] at hop; cases hop

theorem closing_next_self (hal : Aligned c s) (ha : Enabled c s a)
    {side : Side} (h : Closing s side a.agent)
    (hwait : (next c s a).HasWaiters side) :
    Closing (next c s a) side a.agent := by
  have hnot : ∀ {t : τ} {p : Pc T}, s.pc t = p →
      (∀ sync list, ¬p.closing side sync (list : AsyncPrimitive.Pc τ)) →
        ¬Closing s side t := by
    intro t p hp hclosing h
    unfold Closing at h
    rw [hp] at h
    exact hclosing _ _ h
  cases a with
  | callWake t all d => exact closing_callWake ha h
  | list t d b => exact closing_list hal ha h hwait
  | syncReturn t op out => exact closing_syncReturn hal ha h
  | sync b =>
      have hkept : (next c s (.sync b)).sync.pc b.thread ≠ .storeClosed :=
        SyncChannel.next_pc_ne_storeClosed ha.1
      exact Pc.closing.of_sync h fun _ => hkept
  | call t op => exact absurd h (hnot ha.1 fun _ _ => id)
  | coAwait t w => exact absurd h (hnot ha.1 fun _ _ => id)
  | loadOpen t => exact absurd h (hnot ha.1 fun _ _ => id)
  | loadClosed t => exact absurd h (hnot ha.1 fun _ _ => id)
  | callAdd t w => exact absurd h (hnot ha.1 fun _ _ => id)
  | resume t w => exact absurd h (hnot ha.1 fun _ _ => id)

/-- Only a call of `close` sets `closed_`. -/
theorem closing_of_sets (hal : Aligned c s) (ha : Enabled c s a)
    (hopen : s.sync.closed = false)
    (hclosed : (next c s a).sync.closed = true) (side : Side) :
    Closing (next c s a) side a.agent := by
  have hsync := next_sync (c := c) (s := s) (a := a)
  cases hb : a.syncPart c with
  | none =>
      rw [hb] at hsync
      rw [hsync] at hclosed
      cases hopen.symm.trans hclosed
  | some b =>
      rw [hb] at hsync
      rw [hsync] at hclosed
      have hbe := enabled_syncPart ha hb
      cases b with
      | storeClosed t =>
          obtain rfl : a = .sync (.storeClosed t) := by
            cases a with
            | sync b' => cases hb; rfl
            | _ => cases hb
          have hstore : s.sync.pc t = .storeClosed := hbe
          have hop := hal.sync t
          rw [hstore] at hop
          have hcall : s.pc t = .call .close := by
            cases hp : s.pc t with
            | call op => rw [hp] at hop; cases hop; rfl
            | ready w => rw [hp] at hop; cases w <;> cases hop
            | resuming w woken => rw [hp] at hop; cases w <;> cases hop
            | _ => rw [hp] at hop; cases hop
          have hkept : (SyncChannel.next c.channel s.sync
              (.storeClosed t)).pc t ≠ .storeClosed :=
            SyncChannel.next_pc_ne_storeClosed rfl
          change (s.pc t).closing side _ _
          rw [hcall]
          exact hkept
      | _ => cases hopen.symm.trans hclosed

theorem closeWakes_next (hal : Aligned c s) (h : CloseWakes s)
    (ha : Enabled c s a) (hP : RegistersInTime c s a) :
    CloseWakes (next c s a) := by
  intro side hclosed hwait
  cases hc : s.sync.closed with
  | false => exact ⟨a.agent, closing_of_sets hal ha hc hclosed side⟩
  | true =>
      have hold : s.HasWaiters side := by
        refine (hasWaiters_of_next ha hP hwait).resolve_right ?_
        rintro ⟨hmust, -⟩
        cases side with
        | receive => cases hc.symm.trans hmust.1
        | send => cases hc.symm.trans hmust.1
      obtain ⟨t, ht⟩ := h side hc hold
      by_cases hta : t = a.agent
      · subst hta
        exact ⟨a.agent, closing_next_self hal ha ht hwait⟩
      · exact ⟨t, closing_next_of_ne ha hta ht⟩

theorem closeWakes_reachable
    (hs : (system c τ).ReachableWhere (RegistersInTime c) s) :
    CloseWakes s := by
  refine hs.invariant_of CloseWakes
    (fun s hs => aligned_reachable hs.reachable) ?_
    fun s a hal h ha hP => closeWakes_next hal h ha hP
  rintro s rfl side hclosed
  cases hclosed

end AsyncChannel
end Ethreads
