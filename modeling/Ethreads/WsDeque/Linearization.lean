import Ethreads.WsDeque.Storage

/-!
# The deque hands out every item once

The history of the deque is a history of the sequential deque, whose last
state is the list of live items.  The values that the calls return are those
of the events in the history, so every pushed item is returned at most once
and with the value that was pushed.
-/

namespace Ethreads
namespace WsDeque

open DequeEvent

variable {τ α : Type*}

/-- The items pushed, popped and stolen so far. -/
def State.pushes (s : State τ α) : List (Item α) :=
  s.history.filterMap pushed?

def State.pops (s : State τ α) : List (Item α) :=
  s.history.filterMap popped?

def State.steals (s : State τ α) : List (Item α) :=
  s.history.filterMap stolen?

section History

variable {s s' : State τ α} {e : DequeEvent (Item α)}

theorem pushes_of_history (h : s'.history = s.history ++ [e]) :
    s'.pushes = s.pushes ++ (pushed? e).toList := by
  rw [State.pushes, h, filterMap_append_push]
  rfl

theorem pops_of_history (h : s'.history = s.history ++ [e]) :
    s'.pops = s.pops ++ (popped? e).toList := by
  rw [State.pops, h, filterMap_append_push]
  rfl

theorem steals_of_history (h : s'.history = s.history ++ [e]) :
    s'.steals = s.steals ++ (stolen? e).toList := by
  rw [State.steals, h, filterMap_append_push]
  rfl

end History

/-- The logs of the calls agree with the history. -/
structure Logged (s : State τ α) : Prop where
  replays : Replays s.history s.live
  numbers : s.pushes.map Item.number = List.range s.pushed.length
  values : s.pushes.map Item.value = s.pushed
  popped : s.popped ++ (s.claimed.map Item.value).toList =
    s.pops.map Item.value
  stolen : s.stolen = s.steals.map Item.value
  passed : ∀ y ∈ s.steals, y.index < s.top
  inOrder : (s.steals.map Item.index).Pairwise (· < ·)

theorem Logged.of_same {s s' : State τ α} (h : Logged s)
    (hhistory : s'.history = s.history) (hlive : s'.live = s.live)
    (hpushed : s'.pushed = s.pushed) (hstolen : s'.stolen = s.stolen)
    (htop : s'.top = s.top)
    (hpopped : s'.popped ++ (s'.claimed.map Item.value).toList =
      s.popped ++ (s.claimed.map Item.value).toList) : Logged s' where
  replays := by rw [hhistory, hlive]; exact h.replays
  numbers := by rw [State.pushes, hhistory, hpushed]; exact h.numbers
  values := by rw [State.pushes, hhistory, hpushed]; exact h.values
  popped := by rw [hpopped, State.pops, hhistory]; exact h.popped
  stolen := by rw [hstolen, State.steals, hhistory]; exact h.stolen
  passed := by rw [State.steals, hhistory, htop]; exact h.passed
  inOrder := by rw [State.steals, hhistory]; exact h.inOrder

theorem Logged.of_claim {s s' : State τ α} (h : Logged s)
    {l : List (Item α)} {y : Item α} (hl : s.live = l ++ [y])
    (hfree : s.claimed = none) (hhistory : s'.history = s.history ++ [.pop y])
    (hlive : s'.live = l) (hclaimed : s'.claimed = some y)
    (hpushed : s'.pushed = s.pushed) (hpopped : s'.popped = s.popped)
    (hstolen : s'.stolen = s.stolen) (htop : s.top ≤ s'.top) :
    Logged s' := by
  have hpushes := (pushes_of_history hhistory).trans (List.append_nil _)
  have hsteals := (steals_of_history hhistory).trans (List.append_nil _)
  have hpops := pops_of_history hhistory
  refine ⟨?_, ?_, ?_, ?_, ?_, fun z hz => ?_, ?_⟩
  · rw [hhistory, hlive]
    have hreplays := h.replays
    rw [hl] at hreplays
    exact hreplays.pop
  · rw [hpushes, hpushed]
    exact h.numbers
  · rw [hpushes, hpushed]
    exact h.values
  · have hlog := h.popped
    rw [hfree] at hlog
    simp only [Option.map_none, Option.toList_none, List.append_nil] at hlog
    rw [hpopped, hclaimed, hpops, List.map_append, ← hlog]
    rfl
  · rw [hstolen, hsteals]
    exact h.stolen
  · rw [hsteals] at hz
    exact (h.passed z hz).trans_le htop
  · rw [hsteals]
    exact h.inOrder

variable [DecidableEq τ] [Inhabited α]

/-- A push takes effect when it stores `bottom_`. -/
theorem logged_pushStoreBottom {s : State τ α} {x : α} {b : ℕ}
    (h : Logged s) : Logged (next s (.pushStoreBottom x b)) := by
  have hhistory : (next s (.pushStoreBottom x b) : State τ α).history =
      s.history ++ [.push (s.newItem x b)] := rfl
  have hpushes := pushes_of_history hhistory
  have hpops := (pops_of_history hhistory).trans (List.append_nil _)
  have hsteals := (steals_of_history hhistory).trans (List.append_nil _)
  refine ⟨h.replays.push _, ?_, ?_, ?_, ?_, ?_, ?_⟩
  · rw [hpushes, List.map_append, h.numbers]
    simp only [next, List.length_append, List.length_singleton,
      List.range_succ]
    rfl
  · rw [hpushes, List.map_append, h.values]
    rfl
  · rw [hpops]
    exact h.popped
  · rw [hsteals]
    exact h.stolen
  · rw [hsteals]
    exact h.passed
  · rw [hsteals]
    exact h.inOrder

/-- A pop takes effect when it sees that more than one item is left. -/
theorem logged_popMany {c : Config} {s : State τ α}
    {b arr : ℕ} (hcounts : Counters c s) (hstored : Stored s) (h : Logged s)
    (ha : Enabled c s (.popMany b arr)) :
    Logged (next s (.popMany b arr)) := by
  have hholds := hstored.owner
  have hback := hcounts.back
  rw [ha.1] at hholds
  have hend : s.back = b + 1 := State.back_eq ha.1
  have hlow := ha.2
  obtain ⟨l, y, hl, -⟩ := hcounts.exists_concat (by omega)
  refine h.of_claim hl hholds ?_ ?_ ?_ rfl rfl rfl le_rfl
  · simp only [next, State.claimBack, hl, List.getLast?_concat]
    rfl
  · simp only [next, State.claimBack, hl, List.dropLast_concat]
  · simp only [next, State.claimBack, hl, List.getLast?_concat]

/-- A pop of the last item takes effect when it moves `top_`. -/
theorem logged_popCas {c : Config} {s : State τ α}
    {b t : ℕ} {x : α} (hcounts : Counters c s) (hstored : Stored s)
    (h : Logged s) (ha : Enabled c s (.popCas b t x))
    (hlt : (next s (.popCas b t x)).pushed.length < 2 ^ 64) :
    Logged (next s (.popCas b t x)) := by
  have hholds := hstored.owner
  have hback := hcounts.back
  have hbound := hcounts.bound
  have hcowner := hcounts.owner
  rw [ha.1] at hholds hcowner
  have hend : s.back = b + 1 := State.back_eq ha.1
  have htop := ha.2
  have htb := hcowner.2
  obtain ⟨l, y, hl, -⟩ := hcounts.exists_concat (by omega)
  have hadd : add t 1 = t + 1 :=
    add_eq (by simp only [next, State.claimBack] at hlt; omega)
  refine h.of_claim hl hholds.1 ?_ ?_ ?_ rfl rfl rfl ?_
  · simp only [next, State.claimBack, hl, List.getLast?_concat]
    rfl
  · simp only [next, State.claimBack, hl, List.dropLast_concat]
  · simp only [next, State.claimBack, hl, List.getLast?_concat]
  · change s.top ≤ add t 1
    omega

/-- A steal takes effect when it moves `top_`. -/
theorem logged_stealCas {c : Config} {s : State τ α}
    {u : τ} {t : ℕ} {x : α} (hcounts : Counters c s) (hstored : Stored s)
    (h : Logged s) (ha : Enabled c s (.stealCas u t x))
    (hlt : (next s (.stealCas u t x)).pushed.length < 2 ^ 64) :
    Logged (next s (.stealCas u t x)) := by
  have hback := hcounts.back
  have hbound := hcounts.bound
  have hu := hstored.thief u
  have hcu := hcounts.thief u
  rw [ha.1] at hu hcu
  have htop := ha.2
  obtain ⟨y, l, hl⟩ := List.exists_cons_of_ne_nil (hcu.2 htop)
  have hindex := hcounts.index_head hl
  have hx : x = y.value := hu y (by rw [hl]; simp) (hindex.trans htop)
  have hle := hcounts.bottom_le_back
  have hlen : s.live.length = l.length + 1 := by
    rw [hl, List.length_cons]
  have hadd : add t 1 = t + 1 := by
    refine add_eq ?_
    simp only [next, State.takeFront, State.thiefTo] at hlt
    omega
  have hhistory : (next s (.stealCas u t x) : State τ α).history =
      s.history ++ [.steal y] := by
    simp only [next, State.takeFront, State.thiefTo, hl, List.head?_cons]
    rfl
  have hpushes := (pushes_of_history hhistory).trans (List.append_nil _)
  have hpops := (pops_of_history hhistory).trans (List.append_nil _)
  have hsteals : (next s (.stealCas u t x) : State τ α).steals =
      s.steals ++ [y] := steals_of_history hhistory
  have hnewtop : (next s (.stealCas u t x) : State τ α).top = t + 1 :=
    hadd
  refine ⟨?_, ?_, ?_, ?_, ?_, fun z hz => ?_, ?_⟩
  · have hreplays := h.replays
    rw [hl] at hreplays
    rw [hhistory]
    simp only [next, State.takeFront, State.thiefTo, hl, List.tail_cons]
    exact hreplays.steal
  · rw [hpushes]
    exact h.numbers
  · rw [hpushes]
    exact h.values
  · rw [hpops]
    exact h.popped
  · rw [hsteals, List.map_append, ← h.stolen, hx]
    rfl
  · rw [hsteals] at hz
    rw [hnewtop]
    rcases List.mem_append.mp hz with hold | hnew
    · exact (h.passed z hold).trans_le (by omega)
    · rw [List.mem_singleton.mp hnew]
      omega
  · rw [hsteals, List.map_append, List.pairwise_append]
    refine ⟨h.inOrder, List.pairwise_singleton _ _, ?_⟩
    intro i hi j hj
    obtain ⟨z, hz, rfl⟩ := List.mem_map.mp hi
    rw [List.map_singleton, List.mem_singleton] at hj
    rw [hj, hindex]
    exact h.passed z hz

theorem logged_next {c : Config} {s : State τ α} {a : Action τ α}
    (hcounts : Counters c s) (hstored : Stored s) (h : Logged s)
    (ha : Enabled c s a) (hlt : (next s a).pushed.length < 2 ^ 64) :
    Logged (next s a) := by
  have hback := hcounts.back
  have hbound := hcounts.bound
  have hholds := hstored.owner
  cases a with
  | pushStoreBottom x b => exact logged_pushStoreBottom h
  | popMany b arr => exact logged_popMany hcounts hstored h ha
  | popCas b t x => exact logged_popCas hcounts hstored h ha hlt
  | popGet b arr t =>
      have hcowner := hcounts.owner
      rw [ha.1] at hholds hcowner
      simp only [OwnerPc.Holds, ha.2, if_false] at hholds
      obtain ⟨y, hclaimed, hget⟩ := hholds
      refine h.of_same rfl rfl rfl rfl rfl ?_
      rw [hclaimed]
      simp only [next, Option.map_none, Option.toList_none, List.append_nil,
        Option.map_some, Option.toList_some]
      rw [hcowner.2, hget]
  | restore b r =>
      rw [show s.owner = _ from ha] at hholds
      refine h.of_same rfl rfl rfl rfl rfl ?_
      rw [show r = s.claimed.map Item.value from hholds]
      simp [next]
  | stealCas u t x => exact logged_stealCas hcounts hstored h ha hlt
  | _ => exact h.of_same rfl rfl rfl rfl rfl rfl

/-! ## Runs with fewer than `2 ^ 64` pushes -/

theorem pushed_length_le (s : State τ α) (a : Action τ α) :
    s.pushed.length ≤ (next s a).pushed.length := by
  cases a with
  | pushStoreBottom x b => simp [next]
  | _ => exact le_rfl

/-- All that holds of a deque with few enough pushes. -/
structure Sound (c : Config) (s : State τ α) : Prop where
  counters : Counters c s
  stored : Stored s
  logged : Logged s

theorem sound_next {c : Config} {s : State τ α} {a : Action τ α}
    (h : Sound c s) (ha : Enabled c s a)
    (hlt : (next s a).pushed.length < 2 ^ 64) : Sound c (next s a) where
  counters := counters_next h.counters ha hlt
  stored := stored_next h.counters h.stored ha hlt
  logged := logged_next h.counters h.stored h.logged ha hlt

omit [DecidableEq τ] in
theorem sound_initialState (c : Config) :
    Sound c (initialState c : State τ α) where
  counters :=
    { index := rfl
      back := rfl
      bound := le_rfl
      capacity := ⟨c.exponent, rfl⟩
      fits := c.fits
      room := Nat.zero_le _
      array := Nat.zero_lt_one
      owner := trivial
      thief := fun _ => trivial }
  stored :=
    { current := nofun
      owner := rfl
      thief := fun _ => trivial }
  logged :=
    { replays := .nil
      numbers := rfl
      values := rfl
      popped := rfl
      stolen := rfl
      passed := nofun
      inOrder := List.Pairwise.nil }

theorem sound_reachable {c : Config} {s : State τ α}
    (hs : (system c τ).Reachable s) (hlt : s.pushed.length < 2 ^ 64) :
    Sound c s := by
  refine TransitionSystem.Reachable.invariant hs
    (fun s => s.pushed.length < 2 ^ 64 → Sound c s) ?_ ?_ hlt
  · rintro s rfl -
    exact sound_initialState c
  · intro s a ih ha hnext
    exact sound_next (ih ((pushed_length_le s a).trans_lt hnext)) ha hnext

/-! ## The guarantees of the deque -/

/-- Every pushed item is handed out at most once and unchanged, and the deque
holds the rest. -/
structure HandsOutOnce (s : State τ α) : Prop where
  /-- The calls take effect as on a sequential deque: a pop takes the last
  remaining item, a steal the first. -/
  replays : Replays s.history s.live
  /-- The pushed items are numbered and carry the values pushed. -/
  numbers : s.pushes.map Item.number = List.range s.pushed.length
  values : s.pushes.map Item.value = s.pushed
  /-- The successful pops return the values of the popped items, the last of
  which may still have to be returned. -/
  popped : s.popped ++ (s.claimed.map Item.value).toList =
    s.pops.map Item.value
  /-- The successful steals return the values of the stolen items. -/
  stolen : s.stolen = s.steals.map Item.value
  /-- No item is taken twice. -/
  once : (s.pops ++ s.steals).Nodup
  /-- Items are stolen in increasing order of their indices. -/
  inOrder : (s.steals.map Item.index).Pairwise (· < ·)
  /-- Outside the owner's calls, the items not yet returned lie between
  `top_` and `bottom_` in push order. -/
  remaining : s.owner = .idle → s.claimed = none ∧ s.top ≤ s.bottom ∧
    s.live.map Item.index = List.range' s.top (s.bottom - s.top) ∧
    s.live.map Item.value =
      (List.range' s.top (s.bottom - s.top)).map (s.heap s.array).get ∧
    (s.live.map Item.number).Pairwise (· < ·) ∧
    (s.pops ++ s.steals ++ s.live).Perm s.pushes

omit [DecidableEq τ] [Inhabited α] in
theorem Logged.nodup {s : State τ α} (h : Logged s) :
    (s.pops ++ s.steals).Nodup := by
  have hpushes : s.pushes.Nodup := by
    refine List.Nodup.of_map Item.number ?_
    rw [h.numbers]
    exact List.nodup_range
  have hall := (h.replays.perm.nodup_iff).mpr hpushes
  exact (List.nodup_append.mp hall).1

omit [DecidableEq τ] [Inhabited α] in
theorem Logged.live_numbers {s : State τ α} (h : Logged s) :
    (s.live.map Item.number).Pairwise (· < ·) := by
  have hsub := h.replays.sublist.map Item.number
  refine List.Pairwise.sublist hsub ?_
  have hnumbers := h.numbers
  unfold State.pushes at hnumbers
  rw [hnumbers]
  exact List.pairwise_lt_range

/-- `ws_deque` hands out every pushed item exactly once, for every initial
capacity that is a power of two, any number of thieves and every interleaving
with fewer than `2 ^ 64` pushes. -/
theorem handsOutOnce_of_reachable {c : Config} {s : State τ α}
    (hs : (system c τ).Reachable s) (hlt : s.pushed.length < 2 ^ 64) :
    HandsOutOnce s := by
  obtain ⟨hcounts, hstored, hlogged⟩ := sound_reachable hs hlt
  refine ⟨hlogged.replays, hlogged.numbers, hlogged.values, hlogged.popped,
    hlogged.stolen, hlogged.nodup, hlogged.inOrder, fun hidle => ?_⟩
  have hclaimed := hstored.owner
  rw [hidle] at hclaimed
  have hback := hcounts.back
  rw [State.back, hidle] at hback
  have hend : s.top + s.live.length = s.bottom := hback
  have hlen : s.bottom - s.top = s.live.length := by omega
  have hindex : s.live.map Item.index =
      List.range' s.top (s.bottom - s.top) := by
    rw [hlen]
    exact hcounts.index
  refine ⟨hclaimed, by omega, hindex, ?_, hlogged.live_numbers,
    hlogged.replays.perm⟩
  rw [← hindex, List.map_map]
  refine List.map_congr_left fun y hy => ?_
  exact (hstored.current y hy).symm

/-- A deque that starts with one slot. -/
def singleSlot : Config where
  exponent := 0
  vectorMaxSize := 8
  fits := by decide
  vectorMaxSize_lt := by decide

/-- A thief holds the first array while a push replaces it; the steal
succeeds, and the owner pops the last item against no competitor. -/
def stealAcrossGrowth : List (Action (Fin 1) ℕ) :=
  [.callPush 5, .pushLoadBottom 5, .pushLoadTop 5 0, .pushFits 5 0 0,
    .put 5 0 0, .pushStoreBottom 5 0,
    .callSteal 0, .stealLoadTop 0, .stealLoadBottom 0 0, .stealLoadArray 0 0,
    .callPush 6, .pushLoadBottom 6, .pushLoadTop 6 1, .pushGrows 6 1 0,
    .copy 6 1 0 0 1 0, .copied 6 1 0 0 1 1, .storeArray 6 1 1, .put 6 1 1,
    .pushStoreBottom 6 1, .stealGet 0 0 0, .stealCas 0 0 5,
    .callPop, .popLoadBottom, .popLoadArray 1, .popStoreBottom 1 1,
    .popLast 1 1, .popGetLast 1 1 1, .popCas 1 1 6, .restore 1 (some 6)]

theorem handsOutOnce_stealAcrossGrowth :
    HandsOutOnce ((system singleSlot (Fin 1)).after
      (initialState singleSlot) stealAcrossGrowth) :=
  handsOutOnce_of_reachable
    (TransitionSystem.Executes.reachable (.init rfl) (by decide)) (by decide)

end WsDeque
end Ethreads
