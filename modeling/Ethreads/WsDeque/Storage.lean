import Ethreads.WsDeque.Counters

/-!
# The contents of the deque

The current array holds every live item.  The owner overwrites a slot only
when the item there is no longer live, and a larger array is published only
after the live items have been copied, so a thief that has read an item may
rely on it as long as `top_` has not moved.
-/

namespace Ethreads
namespace WsDeque

variable {τ α : Type*}

/-- What the owner has read, written or claimed. -/
def OwnerPc.Holds (s : State τ α) : OwnerPc α → Prop
  | grow _ _ _ _ new i =>
      s.claimed = none ∧
        ∀ y ∈ s.live, y.index < i → (s.heap new).get y.index = y.value
  | storeArray _ _ new =>
      s.claimed = none ∧ ∀ y ∈ s.live, (s.heap new).get y.index = y.value
  | pushStoreBottom x b => s.claimed = none ∧ (s.heap s.array).get b = x
  | popGet b _ t =>
      if t = b then s.claimed = none
      else ∃ y, s.claimed = some y ∧ (s.heap s.array).get b = y.value
  | popCas _ t x =>
      s.claimed = none ∧ ∀ y ∈ s.live, y.index = t → x = y.value
  | restore _ r => r = s.claimed.map Item.value
  | _ => s.claimed = none

/-- What a thief has read or is going to read. -/
def ThiefPc.Holds (s : State τ α) : ThiefPc α → Prop
  | get t arr => ∀ y ∈ s.live, y.index = t → (s.heap arr).get t = y.value
  | cas t x => ∀ y ∈ s.live, y.index = t → x = y.value
  | _ => True

structure Stored (s : State τ α) : Prop where
  current : ∀ y ∈ s.live, (s.heap s.array).get y.index = y.value
  owner : s.owner.Holds s
  thief : ∀ u, (s.thief u).Holds s

/-- What a thief has read stays right as long as items arrive only at the end
and the slots of the live items are kept. -/
theorem ThiefPc.Holds.transfer {s s' : State τ α} {p : ThiefPc α}
    (hp : p.Holds s) (hcounts : p.Counts s)
    (hlive : ∀ y ∈ s'.live, y ∈ s.live ∨
      y.index = s.top + s.live.length)
    (hheap : ∀ arr, arr ≤ s.array → ∀ y ∈ s.live,
      (s'.heap arr).get y.index = (s.heap arr).get y.index) :
    p.Holds s' := by
  have hold : ∀ t, t ≤ s.top → (s.top = t → s.live ≠ []) →
      ∀ y ∈ s'.live, y.index = t → y ∈ s.live := by
    intro t ht hne y hy hyt
    rcases hlive y hy with hin | hend
    · exact hin
    · have hzero : s.live.length = 0 := by omega
      exact absurd (List.length_eq_zero_iff.mp hzero) (hne (by omega))
  cases p with
  | get t arr =>
      intro y hy hyt
      have hin := hold t hcounts.1 hcounts.2.1 y hy hyt
      have hkeep := hheap arr hcounts.2.2 y hin
      rw [hyt] at hkeep
      exact hkeep.trans (hp y hin hyt)
  | cas t x =>
      intro y hy hyt
      exact hp y (hold t hcounts.1 hcounts.2 y hy hyt) hyt
  | _ => trivial

theorem Stored.of_owner {s s' : State τ α} (h : Stored s)
    (hlive : s'.live = s.live) (harray : s'.array = s.array)
    (hheap : s'.heap = s.heap) (hthief : s'.thief = s.thief)
    (howner : s'.owner.Holds s') : Stored s' where
  current := by rw [hlive, harray, hheap]; exact h.current
  owner := howner
  thief := by
    intro u
    have hu := h.thief u
    rw [hthief]
    cases hp : s.thief u <;> rw [hp] at hu <;>
      simp only [ThiefPc.Holds, hlive, hheap] at hu ⊢ <;> exact hu

theorem Stored.of_write {c : Config} {s s' : State τ α} (h : Stored s)
    (hcounts : Counters c s) (hlive : s'.live = s.live)
    (harray : s'.array = s.array) (hthief : s'.thief = s.thief)
    (hheap : ∀ arr, arr ≤ s.array → ∀ y ∈ s.live,
      (s'.heap arr).get y.index = (s.heap arr).get y.index)
    (howner : s'.owner.Holds s') : Stored s' where
  current := by
    intro y hy
    rw [hlive] at hy
    rw [harray, hheap _ le_rfl y hy]
    exact h.current y hy
  owner := howner
  thief := by
    intro u
    rw [hthief]
    refine (h.thief u).transfer (hcounts.thief u) (fun y hy => ?_) hheap
    exact Or.inl (hlive ▸ hy)

theorem Stored.of_dropLast {c : Config} {s s' : State τ α} (h : Stored s)
    (hcounts : Counters c s) {l : List (Item α)} {y : Item α}
    (hl : s.live = l ++ [y]) (hlive : s'.live = l)
    (harray : s'.array = s.array) (hheap : s'.heap = s.heap)
    (hthief : s'.thief = s.thief) (howner : s'.owner.Holds s') :
    Stored s' where
  current := by
    intro z hz
    rw [harray, hheap]
    refine h.current z ?_
    rw [hl]
    exact List.mem_append_left _ (hlive ▸ hz)
  owner := howner
  thief := by
    intro u
    rw [hthief]
    refine (h.thief u).transfer (hcounts.thief u) (fun z hz => Or.inl ?_)
      fun arr _ z _ => by rw [hheap]
    rw [hl]
    exact List.mem_append_left _ (hlive ▸ hz)

variable [DecidableEq τ]

theorem Stored.of_thief {s s' : State τ α} (h : Stored s) {u : τ}
    {q : ThiefPc α} (hs' : s' = s.thiefTo u q) (hq : q.Holds s) :
    Stored s' := by
  subst hs'
  have hkept : ∀ p : ThiefPc α, p.Holds s → p.Holds (s.thiefTo u q) := by
    intro p hp
    cases p <;> exact hp
  refine ⟨h.current, ?_, ?_⟩
  · have howner := h.owner
    change s.owner.Holds (s.thiefTo u q)
    cases hp : s.owner <;> rw [hp] at howner <;> exact howner
  · exact (Function.forall_update_iff s.thief
      fun _ p => p.Holds (s.thiefTo u q)).mpr
        ⟨hkept q hq, fun v _ => hkept _ (h.thief v)⟩

omit [DecidableEq τ] in
/-- What the owner holds survives a successful steal. -/
theorem OwnerPc.Holds.transfer {s s' : State τ α} {p : OwnerPc α}
    (hp : p.Holds s) (hlive : ∀ y ∈ s'.live, y ∈ s.live)
    (hclaimed : s'.claimed = s.claimed) (hheap : s'.heap = s.heap)
    (harray : s'.array = s.array) : p.Holds s' := by
  cases p <;> simp only [Holds, hclaimed, hheap, harray] at hp ⊢ <;>
    first
    | exact hp
    | exact ⟨hp.1, fun y hy => hp.2 y (hlive y hy)⟩

variable [Inhabited α]

/-- The new array holds nothing yet. -/
theorem stored_pushGrows {c : Config} {s : State τ α}
    {x : α} {b t : ℕ} (hcounts : Counters c s) (h : Stored s)
    (ha : Enabled c s (.pushGrows x b t)) :
    Stored (next s (.pushGrows x b t)) := by
  have howner := h.owner
  have hcowner := hcounts.owner
  rw [ha.1] at howner hcowner
  refine h.of_write hcounts rfl rfl rfl ?_ ⟨howner, fun y hy hyt => ?_⟩
  · intro arr harr y _
    have hne : arr ≠ s.allocated := (harr.trans_lt hcounts.array).ne
    simp only [next, State.write, Function.update_of_ne hne]
  · have hlow := (hcounts.index_mem hy).1
    have ht := hcowner.2.1
    omega

theorem stored_copy {c : Config} {s : State τ α}
    {x : α} {b t arr new i : ℕ} (hcounts : Counters c s) (h : Stored s)
    (ha : Enabled c s (.copy x b t arr new i))
    (hlt : (next s (.copy x b t arr new i)).pushed.length < 2 ^ 64) :
    Stored (next s (.copy x b t arr new i)) := by
  have howner := h.owner
  have hcowner := hcounts.owner
  have hback := hcounts.back
  have hbound := hcounts.bound
  obtain ⟨e, he⟩ := hcounts.capacity
  rw [ha.1] at howner hcowner
  obtain ⟨heq, ht, hle, hti, harr, hnew, -, hnewcap, -⟩ := hcowner
  have hend : s.back = s.bottom := State.back_eq ha.1
  have hi : i < b := ha.2
  have hadd : add i 1 = i + 1 :=
    add_eq (by simp only [next, State.write] at hlt; omega)
  refine h.of_write hcounts rfl rfl rfl ?_ ⟨howner.1, fun y hy hyi => ?_⟩
  · intro arr' harr' y _
    have hne : arr' ≠ new := (harr'.trans_lt hnew).ne
    simp only [next, State.write, Function.update_of_ne hne]
  · have hlow := (hcounts.index_mem hy).1
    have hcap : (s.heap new).capacity = 2 ^ (e + 1) := by
      rw [hnewcap, he, pow_succ]
    simp only [next, State.write, Function.update_self]
    rw [hadd] at hyi
    rcases Nat.lt_succ_iff_lt_or_eq.mp hyi with hlt' | heq'
    · rw [CircularArray.get_put_of_lt hcap hlt' (by
        rw [pow_succ, ← he]
        omega)]
      exact howner.2 y hy hlt'
    · rw [heq', CircularArray.get_put_self, harr, ← heq']
      exact h.current y hy

/-- The slot written at the end belongs to no live item. -/
theorem stored_put {c : Config} {s : State τ α}
    {x : α} {b arr : ℕ} (hcounts : Counters c s) (h : Stored s)
    (ha : Enabled c s (.put x b arr)) :
    Stored (next s (.put x b arr)) := by
  have howner := h.owner
  have hcowner := hcounts.owner
  have hback := hcounts.back
  obtain ⟨e, he⟩ := hcounts.capacity
  rw [show s.owner = _ from ha] at howner hcowner
  obtain ⟨heq, harr, hlen⟩ := hcowner
  have hend : s.back = s.bottom := State.back_eq ha
  have hself : ((next s (.put x b arr) : State τ α).heap s.array).get b =
      x := by
    simp only [next, State.write, harr, Function.update_self,
      CircularArray.get_put_self]
  refine h.of_write hcounts rfl rfl rfl ?_ ⟨howner, hself⟩
  intro arr' _ y hy
  have hy' := hcounts.index_mem hy
  by_cases hne : arr' = arr
  · subst hne
    have hcap : (s.heap arr').capacity = 2 ^ e := by
      rw [harr]
      exact he
    simp only [next, State.write, Function.update_self]
    exact CircularArray.get_put_of_lt hcap (by omega) (by omega) x
  · simp only [next, State.write, Function.update_of_ne hne]

theorem stored_pushStoreBottom {c : Config} {s : State τ α}
    {x : α} {b : ℕ} (hcounts : Counters c s) (h : Stored s)
    (ha : Enabled c s (.pushStoreBottom x b)) :
    Stored (next s (.pushStoreBottom x b)) := by
  have howner := h.owner
  have hcowner := hcounts.owner
  have hback := hcounts.back
  rw [show s.owner = _ from ha] at howner hcowner
  have hend : s.back = s.bottom := State.back_eq ha
  have heq := hcowner.1
  refine ⟨fun y hy => ?_, howner.1, fun u => ?_⟩
  · rcases List.mem_append.mp hy with hold | hnew
    · exact h.current y hold
    · rw [List.mem_singleton.mp hnew]
      exact howner.2
  · refine (h.thief u).transfer (hcounts.thief u) (fun y hy => ?_)
      fun _ _ _ _ => rfl
    rcases List.mem_append.mp hy with hold | hnew
    · exact Or.inl hold
    · refine Or.inr ?_
      rw [List.mem_singleton.mp hnew, newItem_index]
      omega

theorem stored_popMany {c : Config} {s : State τ α}
    {b arr : ℕ} (hcounts : Counters c s) (h : Stored s)
    (ha : Enabled c s (.popMany b arr)) :
    Stored (next s (.popMany b arr)) := by
  have hback := hcounts.back
  have hend : s.back = b + 1 := State.back_eq ha.1
  have hlow := ha.2
  obtain ⟨l, y, hl, -⟩ := hcounts.exists_concat (by omega)
  have hy := hcounts.index_last hl
  refine h.of_dropLast hcounts hl ?_ rfl rfl rfl ?_
  · simp only [next, State.claimBack, hl, List.dropLast_concat]
  · have hclaimed : (next s (.popMany b arr) : State τ α).claimed =
        some y := by
      simp only [next, State.claimBack, hl, List.getLast?_concat]
    change if s.top = b then _ else _
    rw [if_neg hlow.ne]
    refine ⟨y, hclaimed, ?_⟩
    have hget := h.current y (by rw [hl]; simp)
    rwa [show y.index = b by omega] at hget

/-- The owner has read the item that it claims. -/
theorem stored_popCas {c : Config} {s : State τ α}
    {b t : ℕ} {x : α} (hcounts : Counters c s) (h : Stored s)
    (ha : Enabled c s (.popCas b t x)) :
    Stored (next s (.popCas b t x)) := by
  have howner := h.owner
  have hcowner := hcounts.owner
  have hback := hcounts.back
  rw [ha.1] at howner hcowner
  have hend : s.back = b + 1 := State.back_eq ha.1
  have htop := ha.2
  have htb := hcowner.2
  obtain ⟨l, y, hl, -⟩ := hcounts.exists_concat (by omega)
  have hy := hcounts.index_last hl
  refine h.of_dropLast hcounts hl ?_ rfl rfl rfl ?_
  · simp only [next, State.claimBack, hl, List.dropLast_concat]
  · change some x = (s.live.getLast?).map Item.value
    rw [hl, List.getLast?_concat, Option.map_some]
    rw [howner.2 y (by rw [hl]; simp) (by omega)]

theorem stored_stealCas {c : Config} {s : State τ α}
    {u : τ} {t : ℕ} {x : α} (hcounts : Counters c s) (h : Stored s) :
    Stored (next s (.stealCas u t x)) := by
  have howner := h.owner
  have htail : ∀ y ∈ s.live.tail, y ∈ s.live :=
    fun y hy => List.mem_of_mem_tail hy
  have hkept : ∀ v, (s.thief v).Holds
      (next s (.stealCas u t x) : State τ α) := fun v =>
    (h.thief v).transfer (hcounts.thief v)
      (fun y hy => Or.inl (htail y hy)) fun _ _ _ _ => rfl
  refine ⟨fun y hy => h.current y (htail y hy),
    OwnerPc.Holds.transfer howner htail rfl rfl rfl, ?_⟩
  exact (Function.forall_update_iff s.thief
    fun _ p => p.Holds (next s (.stealCas u t x) : State τ α)).mpr
      ⟨trivial, fun v _ => hkept v⟩

theorem stored_next {c : Config} {s : State τ α} {a : Action τ α}
    (hcounts : Counters c s) (h : Stored s) (ha : Enabled c s a)
    (hlt : (next s a).pushed.length < 2 ^ 64) : Stored (next s a) := by
  have howner := h.owner
  have hcowner := hcounts.owner
  have hback := hcounts.back
  have hbound := hcounts.bound
  obtain ⟨e, he⟩ := hcounts.capacity
  cases a with
  | callPush x | pushLoadBottom x | pushLoadTop x b | callPop | popLoadArray b
  | popStoreBottom b arr =>
      rw [show s.owner = _ from ha] at howner
      exact h.of_owner rfl rfl rfl rfl howner
  | pushFits x b t | pushThrows x b t | popZero | popLoadBottom =>
      rw [ha.1] at howner
      exact h.of_owner rfl rfl rfl rfl howner
  | pushGrows x b t => exact stored_pushGrows hcounts h ha
  | copy x b t arr new i => exact stored_copy hcounts h ha hlt
  | copied x b t arr new i =>
      rw [ha.1] at howner hcowner
      have hend : s.back = s.bottom := State.back_eq ha.1
      have hi : b ≤ i := ha.2
      refine h.of_owner rfl rfl rfl rfl ⟨howner.1, fun y hy => ?_⟩
      have hhigh := (hcounts.index_mem hy).2
      have heq := hcowner.1
      exact howner.2 y hy (by omega)
  | storeArray x b new =>
      rw [show s.owner = _ from ha] at howner
      exact ⟨howner.2, howner.1, h.thief⟩
  | put x b arr => exact stored_put hcounts h ha
  | pushStoreBottom x b => exact stored_pushStoreBottom hcounts h ha
  | popMany b arr => exact stored_popMany hcounts h ha
  | popLast b arr =>
      rw [ha.1] at howner
      refine h.of_owner rfl rfl rfl rfl ?_
      change if s.top = b then _ else _
      rw [if_pos ha.2]
      exact howner
  | popEmpty b arr =>
      rw [ha.1] at howner
      refine h.of_owner rfl rfl rfl rfl ?_
      change none = s.claimed.map Item.value
      rw [show s.claimed = none from howner]
      rfl
  | popGet b arr t => exact h.of_owner rfl rfl rfl rfl rfl
  | popGetLast b arr t =>
      rw [ha.1] at howner hcowner
      simp only [OwnerPc.Holds, ha.2, if_true] at howner
      refine h.of_owner rfl rfl rfl rfl ⟨howner, fun y hy hyt => ?_⟩
      rw [hcowner.2, ← ha.2, ← hyt]
      exact h.current y hy
  | popCas b t x => exact stored_popCas hcounts h ha
  | popCasFails b t x =>
      rw [ha.1] at howner
      refine h.of_owner rfl rfl rfl rfl ?_
      change none = s.claimed.map Item.value
      rw [howner.1]
      rfl
  | restore b r => exact h.of_owner rfl rfl rfl rfl rfl
  | callSteal u | stealLoadTop u | stealLoadBottom u t | stealEmpty u t =>
      exact h.of_thief rfl trivial
  | stealLoadArray u t =>
      refine h.of_thief rfl fun y hy hyt => ?_
      rw [← hyt]
      exact h.current y hy
  | stealGet u t arr =>
      have hu := h.thief u
      rw [show s.thief u = _ from ha] at hu
      exact h.of_thief rfl hu
  | stealCas u t x => exact stored_stealCas hcounts h
  | stealCasFails u t x => exact h.of_thief rfl trivial

end WsDeque
end Ethreads
