import Ethreads.WsDeque.Linearization
import Ethreads.WsDeque.Sequential
import Ethreads.Support.Linearizability

/-!
# The deque as a sequential object

The calls of the owner and of the thieves take effect at single moments, as on a
list.  A push takes effect when it stores `bottom_`, or when it reads `top_` if
it is going to throw.  A pop takes effect when it reads `top_`, unless one item
is left; then its compare-exchange decides.  A steal takes effect when it moves
`top_`, and returns nothing if it gives up, which it may do at any time.
-/

namespace Ethreads
namespace WsDeque

open SequentialObject (HistoryEvent Status AtomicState standing moves_hidden
  moves_call moves_perform moves_ret moves_perform_ret)

variable {τ α : Type*}

/-- What a call may return and what it leaves of the list. -/
inductive ObjectStep (vectorMaxSize : ℕ) :
    Op α → List α → Result α → List α → Prop
  | call {live live' : List α} {op : Op α} {r : Result α} :
      ListCall vectorMaxSize live op r live' →
        ObjectStep vectorMaxSize op live r live'
  | giveUp (live : List α) :
      ObjectStep vectorMaxSize .steal live (.taken none) live

/-- The sequential deque of the owner, who is `none`, and the thieves. -/
def dequeObject (τ α : Type*) (vectorMaxSize : ℕ) :
    SequentialObject (Option τ) (List α) (Op α) (Result α) where
  Step _ := ObjectStep vectorMaxSize

def see (s : State τ α) :
    Action τ α → Option (HistoryEvent (Option τ) (Op α) (Result α))
  | .callPush x => some (.call none (.push x))
  | .pushThrows x _ _ => some (.ret none (.push x) .threw)
  | .pushStoreBottom x _ => some (.ret none (.push x) .pushed)
  | .callPop => some (.call none .pop)
  | .popZero => some (.ret none .pop (.taken none))
  | .popGet b arr _ => some (.ret none .pop (.taken ((s.heap arr).get b)))
  | .restore _ r => some (.ret none .pop (.taken r))
  | .callSteal u => some (.call (some u) .steal)
  | .stealEmpty u _ => some (.ret (some u) .steal (.taken none))
  | .stealCas u _ x => some (.ret (some u) .steal (.taken x))
  | .stealCasFails u _ _ => some (.ret (some u) .steal (.taken none))
  | _ => none

/-- A push that has read these values is going to throw. -/
def WillThrow (c : Config) (capacity b t : ℕ) : Prop :=
  capacity - 1 < sub b t ∧ c.vectorMaxSize < capacity * 2 % 2 ^ 64

instance (c : Config) (capacity b t : ℕ) :
    Decidable (WillThrow c capacity b t) :=
  inferInstanceAs (Decidable (_ ∧ _))

/-- Whether the call of the owner has taken effect. -/
def OwnerPc.status (c : Config) (capacity : ℕ) (claimed : Option (Item α)) :
    OwnerPc α → Status (Op α) (Result α)
  | idle => .idle
  | pushLoadBottom x => .called (.push x)
  | pushLoadTop x _ => .called (.push x)
  | pushLoadArray x b t =>
      if WillThrow c capacity b t then .performed (.push x) .threw
      else .called (.push x)
  | grow x _ _ _ _ _ => .called (.push x)
  | storeArray x _ _ => .called (.push x)
  | put x _ _ => .called (.push x)
  | pushStoreBottom x _ => .called (.push x)
  | popGet b _ t =>
      if t = b then .called .pop
      else .performed .pop (.taken (claimed.map Item.value))
  | restore _ r => .performed .pop (.taken r)
  | _ => .called .pop

def ThiefPc.status : ThiefPc α → Status (Op α) (Result α)
  | idle => .idle
  | _ => .called .steal

/-- Where the calls stand. -/
def State.statuses (c : Config) (s : State τ α) :
    Option τ → Status (Op α) (Result α)
  | none => s.owner.status c s.capacity s.claimed
  | some u => (s.thief u).status

/-- The state of the atomic deque that a state of the deque stands for. -/
def reading (c : Config) (s : State τ α) :
    AtomicState (Option τ) (List α) (Op α) (Result α) :=
  standing id (s.live.map Item.value) (s.statuses c)

section Steps

variable {c : Config} {s s' : State τ α}

theorem statuses_none {p : OwnerPc α} (hp : s.owner = p) :
    s.statuses c none = p.status c s.capacity s.claimed := by
  rw [← hp]
  rfl

theorem statuses_some {u : τ} {p : ThiefPc α} (hp : s.thief u = p) :
    s.statuses c (some u) = p.status :=
  congrArg ThiefPc.status hp

variable [DecidableEq τ]

theorem statuses_owner {q : OwnerPc α} (hq : s'.owner = q)
    (hthief : s'.thief = s.thief) :
    s'.statuses c = Function.update (s.statuses c) none
      (q.status c s'.capacity s'.claimed) := by
  funext v
  cases v with
  | none =>
      rw [Function.update_self]
      exact statuses_none hq
  | some u =>
      rw [Function.update_of_ne (Option.some_ne_none u)]
      exact congrArg ThiefPc.status (congrFun hthief u)

theorem statuses_thief {u : τ} {q : ThiefPc α} (howner : s'.owner = s.owner)
    (hcapacity : s'.capacity = s.capacity) (hclaimed : s'.claimed = s.claimed)
    (hthief : s'.thief = Function.update s.thief u q) :
    s'.statuses c = Function.update (s.statuses c) (some u) q.status := by
  funext v
  cases v with
  | none =>
      rw [Function.update_of_ne (Option.some_ne_none u).symm]
      unfold State.statuses
      rw [howner, hcapacity, hclaimed]
  | some v =>
      change (s'.thief v).status = _
      rw [hthief]
      by_cases hv : v = u
      · subst hv
        rw [Function.update_self, Function.update_self]
      · have hne : some v ≠ some u := fun h => hv (Option.some.inj h)
        rw [Function.update_of_ne hv, Function.update_of_ne hne]
        rfl

/-! ## Steps without effect -/

variable [Inhabited α]

def Reads (c : Config) (s : State τ α) (a : Action τ α) : Prop :=
  (dequeObject τ α c.vectorMaxSize).Moves [] (reading c s)
    (reading c (next s a)) (see s a)

variable {a : Action τ α} {p q : OwnerPc α} {op : Op α} {r : Result α}

theorem reads_hidden (hsee : see s a = none) (hp : s.owner = p)
    (hq : (next s a).owner = q) (hthief : (next s a).thief = s.thief)
    (hlive : (next s a).live = s.live)
    (hstatus : q.status c (next s a).capacity (next s a).claimed =
      p.status c s.capacity s.claimed) : Reads c s a := by
  unfold Reads reading
  rw [hsee, hlive]
  exact moves_hidden (statuses_none hp) (statuses_owner hq hthief) hstatus

theorem reads_perform (hsee : see s a = none) (hp : s.owner = p)
    (hq : (next s a).owner = q) (hthief : (next s a).thief = s.thief)
    (hcalled : p.status c s.capacity s.claimed = .called op)
    (hperformed : q.status c (next s a).capacity (next s a).claimed =
      .performed op r)
    (hstep : ListCall c.vectorMaxSize (s.live.map Item.value) op r
      ((next s a).live.map Item.value)) : Reads c s a := by
  unfold Reads reading
  rw [hsee]
  exact moves_perform (statuses_none hp) (statuses_owner hq hthief) hcalled
    hperformed (.call hstep)

theorem reads_ret (hsee : see s a = some (.ret none op r)) (hp : s.owner = p)
    (hq : (next s a).owner = .idle) (hthief : (next s a).thief = s.thief)
    (hlive : (next s a).live = s.live)
    (hperformed : p.status c s.capacity s.claimed = .performed op r) :
    Reads c s a := by
  unfold Reads reading
  rw [hsee, hlive]
  exact moves_ret (statuses_none hp) (statuses_owner hq hthief) hperformed rfl

theorem reads_perform_ret (hsee : see s a = some (.ret none op r))
    (hp : s.owner = p) (hq : (next s a).owner = .idle)
    (hthief : (next s a).thief = s.thief)
    (hcalled : p.status c s.capacity s.claimed = .called op)
    (hstep : ListCall c.vectorMaxSize (s.live.map Item.value) op r
      ((next s a).live.map Item.value)) : Reads c s a := by
  unfold Reads reading
  rw [hsee]
  exact moves_perform_ret (m := .performed op r) (statuses_none hp)
    (statuses_owner hq hthief) hcalled rfl rfl (.call hstep)

theorem reads_thief {u : τ} {x y : ThiefPc α} (hsee : see s a = none)
    (hx : s.thief u = x) (hnext : next s a = s.thiefTo u y)
    (hstatus : y.status = x.status) : Reads c s a := by
  unfold Reads reading
  rw [hsee, hnext]
  exact moves_hidden (statuses_some hx) (statuses_thief rfl rfl rfl rfl) hstatus

theorem reads_giveUp {u : τ} {x : ThiefPc α}
    (hsee : see s a = some (.ret (some u) .steal (.taken none)))
    (hx : s.thief u = x) (hnext : next s a = s.thiefTo u .idle)
    (hcalled : x.status = .called .steal) : Reads c s a := by
  unfold Reads reading
  rw [hsee, hnext]
  exact moves_perform_ret (m := .performed .steal (.taken none))
    (statuses_some hx) (statuses_thief rfl rfl rfl rfl) hcalled rfl rfl
    (.giveUp _)

end Steps

/-! ## Where `top_` is -/

/-- How far `top_` has come, given what the owner has read. -/
def OwnerPc.Passed (top : ℕ) : OwnerPc α → Prop
  | popGet _ _ t => t ≤ top
  | popCas _ t _ => t ≤ top
  | restore b _ => b < top
  | _ => True

theorem OwnerPc.Passed.mono {m n : ℕ} {p : OwnerPc α} (h : p.Passed m)
    (hmn : m ≤ n) : p.Passed n := by
  cases p with
  | popGet b arr t => exact h.trans hmn
  | popCas b t x => exact h.trans hmn
  | restore b r => exact h.trans_le hmn
  | _ => trivial

theorem Counters.live_eq_nil {c : Config} {s : State τ α} (h : Counters c s)
    (hle : s.back ≤ s.top) : s.live = [] := by
  have hback := h.back
  exact List.length_eq_zero_iff.mp (by omega)

section Tops

variable [DecidableEq τ] [Inhabited α] {c : Config} {s : State τ α}
  {a : Action τ α}

theorem top_popCas {b t : ℕ} {x : α} (h : Counters c s)
    (ha : Enabled c s (.popCas b t x)) (hlt : s.pushed.length < 2 ^ 64) :
    (next s (.popCas b t x)).top = s.top + 1 := by
  have hbound := h.bound
  have howner := h.owner
  rw [ha.1] at howner
  have hend : s.back = b + 1 := State.back_eq ha.1
  have htop := ha.2
  have htb := howner.2
  have hadd : add t 1 = t + 1 := add_eq (by omega)
  change add t 1 = s.top + 1
  omega

theorem top_stealCas {u : τ} {t : ℕ} {x : α} (h : Counters c s)
    (ha : Enabled c s (.stealCas u t x)) (hlt : s.pushed.length < 2 ^ 64) :
    (next s (.stealCas u t x)).top = s.top + 1 := by
  have hback := h.back
  have hbound := h.bound
  have hu := h.thief u
  rw [ha.1] at hu
  have htop := ha.2
  have hpos := List.length_pos_of_ne_nil (hu.2 htop)
  have hadd : add t 1 = t + 1 := add_eq (by omega)
  change add t 1 = s.top + 1
  omega

/-- `top_` never moves back. -/
theorem top_le_next (h : Counters c s) (ha : Enabled c s a)
    (hlt : s.pushed.length < 2 ^ 64) : s.top ≤ (next s a).top := by
  cases a with
  | popCas b t x =>
      rw [top_popCas h ha hlt]
      exact Nat.le_succ _
  | stealCas u t x =>
      rw [top_stealCas h ha hlt]
      exact Nat.le_succ _
  | _ => exact le_rfl

theorem passed_next (h : s.owner.Passed s.top) (hcounts : Counters c s)
    (ha : Enabled c s a) (hlt : s.pushed.length < 2 ^ 64) :
    (next s a).owner.Passed (next s a).top := by
  have htop := top_le_next hcounts ha hlt
  have howner := hcounts.owner
  cases a with
  | popMany b arr => exact le_refl s.top
  | popLast b arr => exact le_refl s.top
  | popEmpty b arr => exact ha.2
  | popGetLast b arr t =>
      rw [ha.1] at h
      exact h
  | popCas b t x =>
      rw [ha.1] at h howner
      have hle : t ≤ s.top := h
      have htb := howner.2
      rw [top_popCas hcounts ha hlt]
      change b < s.top + 1
      omega
  | popCasFails b t x =>
      rw [ha.1] at h howner
      have hle : t ≤ s.top := h
      have htb := howner.2
      have hne := ha.2
      change b < s.top
      omega
  | callSteal u => exact h
  | stealLoadTop u => exact h
  | stealLoadBottom u t => exact h
  | stealEmpty u t => exact h
  | stealLoadArray u t => exact h
  | stealGet u t arr => exact h
  | stealCas u t x => exact OwnerPc.Passed.mono (p := s.owner) h htop
  | stealCasFails u t x => exact h
  | _ => trivial

theorem passed_reachable (hs : (system c τ).Reachable s)
    (hlt : s.pushed.length < 2 ^ 64) : s.owner.Passed s.top := by
  refine hs.invariant_of (J := fun s => s.pushed.length < 2 ^ 64 → Sound c s)
    (fun s => s.pushed.length < 2 ^ 64 → s.owner.Passed s.top)
    (fun s hs => sound_reachable hs) ?_ ?_ hlt
  · rintro s rfl -
    trivial
  · intro s a hsound ih ha hnext
    have hold := (pushed_length_le s a).trans_lt hnext
    exact passed_next (ih hold) (hsound hold).counters ha hold

end Tops

/-! ## Steps that take effect -/

theorem listCall_dropLast (n : ℕ) (live : List (Item α)) :
    ListCall n (live.map Item.value) .pop
      (.taken (live.getLast?.map Item.value))
      (live.dropLast.map Item.value) := by
  rw [List.map_dropLast, ← List.getLast?_map]
  exact .pop _

/-- A pop that finds no item. -/
theorem listCall_nil {n : ℕ} {live : List (Item α)} (hnil : live = []) :
    ListCall n (live.map Item.value) .pop (.taken none)
      (live.map Item.value) := by
  rw [hnil]
  exact .pop []

theorem listCall_tail (n : ℕ) (live : List (Item α)) :
    ListCall n (live.map Item.value) .steal (.taken (live.head?.map Item.value))
      (live.tail.map Item.value) := by
  rw [List.map_tail, ← List.head?_map]
  exact .steal _

section Effects

variable [DecidableEq τ] [Inhabited α] {c : Config} {s : State τ α}
  {a : Action τ α} {x : α} {b t arr : ℕ} {u : τ}

/-- A push that reads `top_` knows whether it is going to throw. -/
theorem reads_pushLoadTop (h : Counters c s)
    (ha : Enabled c s (.pushLoadTop x b)) (hlt : s.pushed.length < 2 ^ 64) :
    Reads c s (.pushLoadTop x b) := by
  have hpc : s.owner = .pushLoadTop x b := ha
  by_cases hthrow : WillThrow c s.capacity b s.top
  · have hback := h.back
    have hbound := h.bound
    have howner := h.owner
    rw [hpc] at howner
    have hb : b = s.bottom := howner
    have hend : s.back = s.bottom := State.back_eq hpc
    have hsub : sub b s.top = b - s.top := sub_eq (by omega) (by omega)
    have hgrown : s.capacity * 2 % 2 ^ 64 = s.capacity * 2 :=
      h.grownCapacity_eq
    obtain ⟨hfull, hmax⟩ := hthrow
    refine reads_perform (q := .pushLoadArray x b s.top) rfl hpc rfl rfl rfl
      (if_pos ⟨hfull, hmax⟩) (.threw _ x ?_)
    rw [List.length_map]
    omega
  · exact reads_hidden (q := .pushLoadArray x b s.top) rfl hpc rfl rfl rfl
      (if_neg hthrow)

theorem reads_popMany (ha : Enabled c s (.popMany b arr)) :
    Reads c s (.popMany b arr) :=
  reads_perform (q := .popGet b arr s.top) rfl ha.1 rfl rfl rfl
    (if_neg ha.2.ne) (listCall_dropLast _ s.live)

theorem reads_popGet (hcounts : Counters c s) (hstored : Stored s)
    (ha : Enabled c s (.popGet b arr t)) : Reads c s (.popGet b arr t) := by
  have hholds := hstored.owner
  have hcowner := hcounts.owner
  rw [ha.1] at hholds hcowner
  simp only [OwnerPc.Holds, ha.2, if_false] at hholds
  obtain ⟨y, hclaimed, hget⟩ := hholds
  have hvalue : some ((s.heap arr).get b) = s.claimed.map Item.value := by
    rw [hcowner.2, hget, hclaimed]
    rfl
  refine reads_ret rfl ha.1 rfl rfl rfl ?_
  rw [hvalue]
  exact if_neg ha.2

/-- The compare-exchange of a pop of the last item. -/
theorem reads_popCas (hcounts : Counters c s) (hstored : Stored s)
    (ha : Enabled c s (.popCas b t x)) : Reads c s (.popCas b t x) := by
  have hback := hcounts.back
  have hholds := hstored.owner
  have hcowner := hcounts.owner
  rw [ha.1] at hholds hcowner
  have hend : s.back = b + 1 := State.back_eq ha.1
  have htop := ha.2
  have htb := hcowner.2
  obtain ⟨l, y, hl, -⟩ := hcounts.exists_concat (by omega)
  have hindex := hcounts.index_last hl
  have hx : x = y.value := hholds.2 y (by rw [hl]; simp) (by omega)
  have hlast : s.live.getLast?.map Item.value = some x := by
    rw [hl, List.getLast?_concat, hx]
    rfl
  have hcall := listCall_dropLast c.vectorMaxSize s.live
  rw [hlast] at hcall
  exact reads_perform (q := .restore b (some x)) rfl ha.1 rfl rfl rfl rfl hcall

/-- The compare-exchange of a pop fails only if the last item is gone. -/
theorem reads_popCasFails (hcounts : Counters c s)
    (hpassed : s.owner.Passed s.top) (ha : Enabled c s (.popCasFails b t x)) :
    Reads c s (.popCasFails b t x) := by
  have hcowner := hcounts.owner
  rw [ha.1] at hcowner hpassed
  have hend : s.back = b + 1 := State.back_eq ha.1
  have hle : t ≤ s.top := hpassed
  have hne := ha.2
  have htb := hcowner.2
  have hnil := hcounts.live_eq_nil (by omega)
  exact reads_perform (q := .restore b none) rfl ha.1 rfl rfl rfl rfl
    (listCall_nil hnil)

theorem reads_popEmpty (hcounts : Counters c s)
    (ha : Enabled c s (.popEmpty b arr)) : Reads c s (.popEmpty b arr) := by
  have hend : s.back = b + 1 := State.back_eq ha.1
  have hlow := ha.2
  have hnil := hcounts.live_eq_nil (by omega)
  exact reads_perform (q := .restore b none) rfl ha.1 rfl rfl rfl rfl
    (listCall_nil hnil)

theorem reads_popZero (hcounts : Counters c s) (ha : Enabled c s .popZero) :
    Reads c s .popZero := by
  have hend : s.back = s.bottom := State.back_eq ha.1
  have hzero := ha.2
  have hnil := hcounts.live_eq_nil (by omega)
  exact reads_perform_ret rfl ha.1 rfl rfl rfl (listCall_nil hnil)

theorem reads_pushStoreBottom (ha : Enabled c s (.pushStoreBottom x b)) :
    Reads c s (.pushStoreBottom x b) := by
  have hpc : s.owner = .pushStoreBottom x b := ha
  refine reads_perform_ret rfl hpc rfl rfl rfl ?_
  have hlive : (next s (.pushStoreBottom x b)).live.map Item.value =
      s.live.map Item.value ++ [x] := List.map_append
  rw [hlive]
  exact .push _ x

/-- The compare-exchange of a steal. -/
theorem reads_stealCas (hcounts : Counters c s) (hstored : Stored s)
    (ha : Enabled c s (.stealCas u t x)) : Reads c s (.stealCas u t x) := by
  have hu := hstored.thief u
  have hcu := hcounts.thief u
  rw [ha.1] at hu hcu
  have htop := ha.2
  obtain ⟨y, l, hl⟩ := List.exists_cons_of_ne_nil (hcu.2 htop)
  have hindex := hcounts.index_head hl
  have hx : x = y.value := hu y (by rw [hl]; simp) (hindex.trans htop)
  have hfirst : s.live.head?.map Item.value = some x := by
    rw [hl, hx]
    rfl
  have hcall := listCall_tail c.vectorMaxSize s.live
  rw [hfirst] at hcall
  exact moves_perform_ret (m := .performed .steal (.taken (some x)))
    (statuses_some ha.1) (statuses_thief (q := .idle) rfl rfl rfl rfl) rfl rfl
    rfl (.call hcall)

theorem reads_next (h : Sound c s) (hpassed : s.owner.Passed s.top)
    (ha : Enabled c s a) (hlt : s.pushed.length < 2 ^ 64) : Reads c s a := by
  obtain ⟨hcounts, hstored, -⟩ := h
  cases a with
  | callPush x =>
      exact moves_call (statuses_none ha) (statuses_owner rfl rfl) rfl rfl
  | pushLoadBottom x => exact reads_hidden rfl ha rfl rfl rfl rfl
  | pushLoadTop x b => exact reads_pushLoadTop hcounts ha hlt
  | pushFits x b t =>
      have hkeep : ¬WillThrow c s.capacity b t := fun hw => ha.2.not_gt hw.1
      exact reads_hidden rfl ha.1 rfl rfl rfl (if_neg hkeep).symm
  | pushGrows x b t =>
      have hkeep : ¬WillThrow c s.capacity b t := fun hw => ha.2.2.not_gt hw.2
      exact reads_hidden rfl ha.1 rfl rfl rfl (if_neg hkeep).symm
  | pushThrows x b t => exact reads_ret rfl ha.1 rfl rfl rfl (if_pos ha.2)
  | copy x b t arr new i => exact reads_hidden rfl ha.1 rfl rfl rfl rfl
  | copied x b t arr new i => exact reads_hidden rfl ha.1 rfl rfl rfl rfl
  | storeArray x b new => exact reads_hidden rfl ha rfl rfl rfl rfl
  | put x b arr => exact reads_hidden rfl ha rfl rfl rfl rfl
  | pushStoreBottom x b => exact reads_pushStoreBottom ha
  | callPop =>
      exact moves_call (statuses_none ha) (statuses_owner rfl rfl) rfl rfl
  | popZero => exact reads_popZero hcounts ha
  | popLoadBottom => exact reads_hidden rfl ha.1 rfl rfl rfl rfl
  | popLoadArray b => exact reads_hidden rfl ha rfl rfl rfl rfl
  | popStoreBottom b arr => exact reads_hidden rfl ha rfl rfl rfl rfl
  | popMany b arr => exact reads_popMany ha
  | popLast b arr => exact reads_hidden rfl ha.1 rfl rfl rfl (if_pos ha.2)
  | popEmpty b arr => exact reads_popEmpty hcounts ha
  | popGet b arr t => exact reads_popGet hcounts hstored ha
  | popGetLast b arr t =>
      exact reads_hidden rfl ha.1 rfl rfl rfl (if_pos ha.2).symm
  | popCas b t x => exact reads_popCas hcounts hstored ha
  | popCasFails b t x => exact reads_popCasFails hcounts hpassed ha
  | restore b r =>
      exact reads_ret (p := .restore b r) rfl ha rfl rfl rfl rfl
  | callSteal u =>
      exact moves_call (statuses_some ha)
        (statuses_thief (q := .loadTop) rfl rfl rfl rfl) rfl rfl
  | stealLoadTop u => exact reads_thief rfl ha rfl rfl
  | stealLoadBottom u t => exact reads_thief rfl ha.1 rfl rfl
  | stealEmpty u t => exact reads_giveUp rfl ha.1 rfl rfl
  | stealLoadArray u t => exact reads_thief rfl ha rfl rfl
  | stealGet u t arr => exact reads_thief rfl ha rfl rfl
  | stealCas u t x => exact reads_stealCas hcounts hstored ha
  | stealCasFails u t x => exact reads_giveUp rfl ha.1 rfl rfl

end Effects

/-! ## Runs with fewer than `2 ^ 64` pushes -/

section Runs

variable [DecidableEq τ] [Inhabited α] {c : Config} {s : State τ α}
  {l : List (Action τ α)}

/-- The deque as long as there are few enough pushes. -/
def boundedSystem (c : Config) (τ α : Type*) [DecidableEq τ] [Inhabited α] :
    TransitionSystem (State τ α) (Action τ α) :=
  (system c τ).restrict fun s a => (next s a).pushed.length < 2 ^ 64

theorem readsAs_deque (c : Config) (τ α : Type*) [DecidableEq τ]
    [Inhabited α] :
    SequentialObject.ReadsAs (boundedSystem c τ α) see
      (dequeObject τ α c.vectorMaxSize) [] (reading c) where
  initial := by
    rintro s rfl
    unfold reading standing SequentialObject.atomicInitial
    congr 1
    funext t
    cases t <;> rfl
  step s a hs ha := by
    have hold := (pushed_length_le s a).trans_lt ha.2
    have hreachable : (system c τ).Reachable s :=
      hs.project id (fun _ h => h) fun _ a _ ha _ =>
        Or.inr ⟨a, ha.1, trivial, rfl⟩
    exact reads_next (sound_reachable hreachable hold)
      (passed_reachable hreachable hold) ha.1 hold

theorem pushed_length_le_after (l : List (Action τ α)) :
    s.pushed.length ≤ ((system c τ).after s l).pushed.length := by
  induction l generalizing s with
  | nil => exact le_rfl
  | cons a l ih => exact (pushed_length_le s a).trans ih

theorem executes_boundedSystem (hl : (system c τ).Executes s l)
    (hlt : ((system c τ).after s l).pushed.length < 2 ^ 64) :
    (boundedSystem c τ α).Executes s l := by
  induction l generalizing s with
  | nil => trivial
  | cons a l ih =>
      have hnext := (pushed_length_le_after (c := c) l).trans_lt hlt
      exact ⟨⟨hl.1, hnext⟩, ih hl.2 hlt⟩

/-- `ws_deque` is linearizable, for every initial capacity that is a power of
two, any number of thieves and every interleaving with fewer than `2 ^ 64`
pushes: in an order that respects real time, the calls that have returned are
those of a list, except that a steal may give up.  In particular a pop returns
nothing only if the list is empty. -/
theorem linearizable_deque (hl : (system c τ).Executes (initialState c) l)
    (hlt : ((system c τ).after (initialState c) l).pushed.length < 2 ^ 64) :
    (dequeObject τ α c.vectorMaxSize).Linearizable []
      (SequentialObject.history (system c τ) see (initialState c) l) := by
  have hbounded :=
    (readsAs_deque c τ α).linearizable_seen rfl (executes_boundedSystem hl hlt)
  unfold boundedSystem at hbounded
  rwa [SequentialObject.history_restrict] at hbounded

theorem linearizable_stealAcrossGrowth :
    (dequeObject (Fin 1) ℕ singleSlot.vectorMaxSize).Linearizable []
      (SequentialObject.history (system singleSlot (Fin 1)) see
        (initialState singleSlot) stealAcrossGrowth) :=
  linearizable_deque (by decide) (by decide)

end Runs

end WsDeque
end Ethreads
