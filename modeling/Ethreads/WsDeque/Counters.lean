import Ethreads.WsDeque.Model
import Mathlib.Data.Nat.Bitwise

/-!
# The counters of the deque

The live items lie at consecutive indices from `top_` on.  Where they end
depends on the owner: in the middle of a `pop` the variable `bottom_` is one
below the end until the owner has claimed the last item or restored the
variable.  Thieves hold indices that `top_` may have passed; as long as it has
not, there is a live item at this index.
-/

namespace Ethreads
namespace WsDeque

variable {τ α : Type*}

/-! ## Machine arithmetic -/

theorem add_eq {x y : ℕ} (h : x + y < 2 ^ 64) : add x y = x + y :=
  Nat.mod_eq_of_lt h

theorem sub_eq {x y : ℕ} (hyx : y ≤ x) (hx : x < 2 ^ 64) :
    sub x y = x - y := by
  unfold sub
  omega

/-! ## Slots of a circular array -/

namespace CircularArray

variable {a : CircularArray α} {e : ℕ}

@[simp] theorem capacity_put (i : ℕ) (x : α) :
    (a.put i x).capacity = a.capacity := rfl

@[simp] theorem get_put_self (i : ℕ) (x : α) : (a.put i x).get i = x := by
  simp [get, put]

/-- Indices that are less than one turn apart have different slots. -/
theorem slot_ne_of_lt (ha : a.capacity = 2 ^ e) {i j : ℕ} (hij : i < j)
    (hji : j < i + 2 ^ e) :
    i &&& (a.capacity - 1) ≠ j &&& (a.capacity - 1) := by
  rw [ha, Nat.and_two_pow_sub_one_eq_mod, Nat.and_two_pow_sub_one_eq_mod]
  intro heq
  have hzero := Nat.sub_mod_eq_zero_of_mod_eq heq.symm
  rw [Nat.mod_eq_of_lt (by omega)] at hzero
  omega

/-- Writing at an index keeps what lies less than one turn before it. -/
theorem get_put_of_lt (ha : a.capacity = 2 ^ e) {i j : ℕ} (hij : i < j)
    (hji : j < i + 2 ^ e) (x : α) : (a.put j x).get i = a.get i := by
  unfold get put
  exact Function.update_of_ne (slot_ne_of_lt ha hij hji) _ _

end CircularArray

/-! ## The end of the live items -/

/-- Where the live items end, given the value of `bottom_`. -/
def OwnerPc.back (bottom : ℕ) : OwnerPc α → ℕ
  | popLoadTop b _ | popCas b _ _ | restore b _ => b + 1
  | popGet b _ t => if t = b then b + 1 else bottom
  | _ => bottom

/-- One past the index of the last live item. -/
def State.back (s : State τ α) : ℕ :=
  s.owner.back s.bottom

theorem State.back_eq {s : State τ α} {p : OwnerPc α} (hp : s.owner = p) :
    s.back = p.back s.bottom := by
  rw [State.back, hp]

/-- What the local values of the owner have to do with the counters. -/
def OwnerPc.Counts (c : Config) (s : State τ α) : OwnerPc α → Prop
  | pushLoadTop _ b => b = s.bottom
  | pushLoadArray _ b t =>
      b = s.bottom ∧ t ≤ s.top ∧ b ≤ t + s.capacity
  | grow _ b t arr new i =>
      b = s.bottom ∧ t ≤ s.top ∧ b ≤ t + s.capacity ∧ t ≤ i ∧
        arr = s.array ∧ s.array < new ∧ new < s.allocated ∧
        (s.heap new).capacity = s.capacity * 2 ∧
        s.capacity * 2 ≤ c.vectorMaxSize
  | storeArray _ b new =>
      b = s.bottom ∧ s.array < new ∧ new < s.allocated ∧
        (s.heap new).capacity = s.capacity * 2 ∧
        s.capacity * 2 ≤ c.vectorMaxSize
  | put _ b arr => b = s.bottom ∧ arr = s.array ∧ s.live.length < s.capacity
  | pushStoreBottom _ b => b = s.bottom ∧ s.live.length < s.capacity
  | popLoadArray b => b + 1 = s.bottom
  | popStoreBottom b arr => b + 1 = s.bottom ∧ arr = s.array
  | popLoadTop b arr => s.bottom = b ∧ arr = s.array
  | popGet b arr _ => s.bottom = b ∧ arr = s.array
  | popCas b t _ => s.bottom = b ∧ t = b
  | restore b _ => s.bottom = b
  | _ => True

/-- The index of a thief, and that it has seen a live item there if `top_`
has not moved. -/
def ThiefPc.Counts (s : State τ α) : ThiefPc α → Prop
  | loadBottom t => t ≤ s.top
  | loadArray t => t ≤ s.top ∧ (s.top = t → s.live ≠ [])
  | get t arr => t ≤ s.top ∧ (s.top = t → s.live ≠ []) ∧ arr ≤ s.array
  | cas t _ => t ≤ s.top ∧ (s.top = t → s.live ≠ [])
  | _ => True

/-- What a thief has seen stays true while `top_` does not move. -/
theorem ThiefPc.Counts.transfer {s s' : State τ α} {p : ThiefPc α}
    (hp : p.Counts s) (htop : s.top ≤ s'.top)
    (hlive : s'.top = s.top → s.live ≠ [] → s'.live ≠ [])
    (harray : s.array ≤ s'.array) : p.Counts s' := by
  have hkeep : ∀ t, t ≤ s.top → (s.top = t → s.live ≠ []) →
      s'.top = t → s'.live ≠ [] := by
    intro t ht hne heq
    have hsame : s.top = t := by omega
    exact hlive (heq.trans hsame.symm) (hne hsame)
  cases p with
  | idle => trivial
  | loadTop => trivial
  | loadBottom t => exact Nat.le_trans hp htop
  | loadArray t => exact ⟨hp.1.trans htop, hkeep t hp.1 hp.2⟩
  | get t arr =>
      exact ⟨hp.1.trans htop, hkeep t hp.1 hp.2.1, hp.2.2.trans harray⟩
  | cas t x => exact ⟨hp.1.trans htop, hkeep t hp.1 hp.2⟩

structure Counters (c : Config) (s : State τ α) : Prop where
  index : s.live.map Item.index = List.range' s.top s.live.length
  back : s.top + s.live.length = s.back
  bound : s.back ≤ s.pushed.length
  capacity : ∃ e, s.capacity = 2 ^ e
  fits : s.capacity ≤ c.vectorMaxSize
  room : s.live.length ≤ s.capacity
  array : s.array < s.allocated
  owner : s.owner.Counts c s
  thief : ∀ u, (s.thief u).Counts s

namespace Counters

variable {c : Config} {s : State τ α}

/-- `bottom_` is never beyond the end of the live items. -/
theorem bottom_le_back (h : Counters c s) : s.bottom ≤ s.back := by
  have howner := h.owner
  unfold State.back
  cases hp : s.owner <;> rw [hp] at howner <;>
    simp only [OwnerPc.Counts] at howner <;> simp only [OwnerPc.back] <;>
    first | omega | (split <;> omega)

theorem capacity_pos (h : Counters c s) : 0 < s.capacity := by
  obtain ⟨e, he⟩ := h.capacity
  rw [he]
  exact Nat.two_pow_pos e

theorem grownCapacity_eq (h : Counters c s) :
    s.grownCapacity = s.capacity * 2 := by
  have hfits := h.fits
  have hmax := c.vectorMaxSize_lt
  unfold State.grownCapacity
  omega

theorem index_mem (h : Counters c s) {y : Item α} (hy : y ∈ s.live) :
    s.top ≤ y.index ∧ y.index < s.top + s.live.length := by
  have hmem : y.index ∈ s.live.map Item.index := List.mem_map_of_mem hy
  rw [h.index, List.mem_range'_1] at hmem
  exact hmem

/-- The first live item lies at `top_`. -/
theorem index_head (h : Counters c s) {y : Item α} {l : List (Item α)}
    (hl : s.live = y :: l) : y.index = s.top := by
  have hindex := h.index
  rw [hl, List.map_cons, List.length_cons, List.range'_succ] at hindex
  exact (List.cons.inj hindex).1

theorem index_tail (h : Counters c s) {y : Item α} {l : List (Item α)}
    (hl : s.live = y :: l) :
    l.map Item.index = List.range' (s.top + 1) l.length := by
  have hindex := h.index
  rw [hl, List.map_cons, List.length_cons, List.range'_succ] at hindex
  exact (List.cons.inj hindex).2

theorem index_last (h : Counters c s) {y : Item α} {l : List (Item α)}
    (hl : s.live = l ++ [y]) : y.index + 1 = s.back := by
  have hindex := h.index
  have hback := h.back
  rw [hl, List.map_append, List.length_append, List.length_singleton,
    List.range'_concat] at hindex
  rw [hl, List.length_append, List.length_singleton] at hback
  have hlast := (List.append_inj' hindex rfl).2
  simp only [List.map_cons, List.map_nil, List.cons.injEq, and_true] at hlast
  omega

theorem index_init (h : Counters c s) {y : Item α} {l : List (Item α)}
    (hl : s.live = l ++ [y]) :
    l.map Item.index = List.range' s.top l.length := by
  have hindex := h.index
  rw [hl, List.map_append, List.length_append, List.length_singleton,
    List.range'_concat] at hindex
  exact (List.append_inj' hindex rfl).1

/-- While `top_` is before the end there is a last live item. -/
theorem exists_concat (h : Counters c s) (hlt : s.top < s.back) :
    ∃ l y, s.live = l ++ [y] ∧ s.live.length = l.length + 1 := by
  have hback := h.back
  obtain ⟨l, y, hl⟩ := s.live.eq_nil_or_concat'.resolve_left (by
    intro hnil
    rw [hnil, List.length_nil] at hback
    omega)
  exact ⟨l, y, hl, by rw [hl, List.length_append, List.length_singleton]⟩

theorem of_owner {s' : State τ α} (h : Counters c s)
    (hlive : s'.live = s.live) (htop : s'.top = s.top)
    (harray : s'.array = s.array) (hpushed : s'.pushed = s.pushed)
    (hthief : s'.thief = s.thief) (hcap : s'.capacity = s.capacity)
    (hallocated : s.allocated ≤ s'.allocated) (hback : s'.back = s.back)
    (howner : s'.owner.Counts c s') : Counters c s' where
  index := by rw [hlive, htop]; exact h.index
  back := by rw [hlive, htop, hback]; exact h.back
  bound := by rw [hback, hpushed]; exact h.bound
  capacity := by rw [hcap]; exact h.capacity
  fits := by rw [hcap]; exact h.fits
  room := by rw [hlive, hcap]; exact h.room
  array := by rw [harray]; exact h.array.trans_le hallocated
  owner := howner
  thief := by
    intro u
    rw [hthief]
    exact (h.thief u).transfer htop.ge (fun _ hne => hlive ▸ hne) harray.ge

theorem of_ownerPc {s' : State τ α} {p q : OwnerPc α} (h : Counters c s)
    (hs' : s' = { s with owner := q }) (hp : s.owner = p)
    (hback : q.back s.bottom = p.back s.bottom) (hq : q.Counts c s') :
    Counters c s' := by
  subst hs'
  exact h.of_owner rfl rfl rfl rfl rfl rfl le_rfl
    (hback.trans (State.back_eq hp).symm) hq

theorem of_thief {s' : State τ α} [DecidableEq τ] (h : Counters c s) {u : τ}
    {q : ThiefPc α} (hs' : s' = s.thiefTo u q) (hq : q.Counts s) :
    Counters c s' := by
  subst hs'
  refine ⟨h.index, h.back, h.bound, h.capacity, h.fits, h.room, h.array,
    h.owner, ?_⟩
  have hkept : ∀ p : ThiefPc α, p.Counts s → p.Counts (s.thiefTo u q) :=
    fun p hp => hp.transfer le_rfl (fun _ hne => hne) le_rfl
  exact (Function.forall_update_iff s.thief
    fun _ p => p.Counts (s.thiefTo u q)).mpr
      ⟨hkept q hq, fun v _ => hkept _ (h.thief v)⟩

end Counters

/-! ## The counters along a run -/

theorem newItem_index (s : State τ α) (x : α) (b : ℕ) :
    (s.newItem x b).index = b := rfl

variable [DecidableEq τ] [Inhabited α]

omit [DecidableEq τ] [Inhabited α] in
/-- What the owner knows survives a successful steal. -/
theorem OwnerPc.Counts.transfer {c : Config} {s s' : State τ α}
    {p : OwnerPc α} (hp : p.Counts c s) (hbottom : s'.bottom = s.bottom)
    (htop : s.top ≤ s'.top) (hlen : s'.live.length ≤ s.live.length)
    (harray : s'.array = s.array) (hheap : s'.heap = s.heap)
    (hallocated : s'.allocated = s.allocated) : p.Counts c s' := by
  have hcap : s'.capacity = s.capacity := by
    rw [State.capacity, State.capacity, hheap, harray]
  cases p <;> simp only [Counts] at hp ⊢ <;>
    simp only [hbottom, hcap, harray, hheap, hallocated] <;> omega

omit [DecidableEq τ] [Inhabited α] in
/-- Counters after a step that removes the last live item. -/
theorem Counters.of_dropLast {c : Config} {s s' : State τ α}
    (h : Counters c s) {l : List (Item α)} {y : Item α}
    (hl : s.live = l ++ [y]) (hlive : s'.live = l)
    (htop : s'.top = s.top ∧ l ≠ [] ∨ s'.top = s.top + 1 ∧ l = [])
    (hback : s'.top + l.length = s'.back) (hbound : s'.back ≤ s.back)
    (harray : s'.array = s.array) (hpushed : s'.pushed = s.pushed)
    (hthief : s'.thief = s.thief) (hheap : s'.heap = s.heap)
    (hallocated : s'.allocated = s.allocated)
    (howner : s'.owner.Counts c s') : Counters c s' := by
  have hcap : s'.capacity = s.capacity := by
    rw [State.capacity, State.capacity, hheap, harray]
  have hlen : l.length + 1 = s.live.length := by
    rw [hl, List.length_append, List.length_singleton]
  refine ⟨?_, ?_, ?_, ?_, ?_, ?_, ?_, howner, fun u => ?_⟩
  · rw [hlive]
    rcases htop with ⟨htop, -⟩ | ⟨htop, hnil⟩
    · rw [htop]
      exact h.index_init hl
    · rw [hnil]
      rfl
  · rw [hlive]
    exact hback
  · rw [hpushed]
    exact hbound.trans h.bound
  · rw [hcap]
    exact h.capacity
  · rw [hcap]
    exact h.fits
  · have hroom := h.room
    rw [hlive, hcap]
    omega
  · rw [harray, hallocated]
    exact h.array
  · rw [hthief]
    refine (h.thief u).transfer ?_ ?_ harray.ge
    · rcases htop with ⟨htop, -⟩ | ⟨htop, -⟩ <;> omega
    · intro hsame _
      rw [hlive]
      rcases htop with ⟨-, hne⟩ | ⟨htop, -⟩
      · exact hne
      · omega

theorem counters_pushGrows {c : Config} {s : State τ α}
    {x : α} {b t : ℕ} (h : Counters c s)
    (ha : Enabled c s (.pushGrows x b t)) :
    Counters c (next s (.pushGrows x b t)) := by
  have howner := h.owner
  rw [ha.1] at howner
  obtain ⟨heq, ht, hle⟩ := howner
  have hne : s.array ≠ s.allocated := h.array.ne
  have hcap : (next s (.pushGrows x b t) : State τ α).capacity =
      s.capacity := by
    simp only [State.capacity, next, State.write]
    rw [Function.update_of_ne hne]
  have hmax := ha.2.2
  rw [h.grownCapacity_eq] at hmax
  refine h.of_owner rfl rfl rfl rfl rfl hcap (Nat.le_succ _)
    (State.back_eq ha.1).symm ?_
  refine ⟨heq, ht, ?_, le_rfl, rfl, h.array, Nat.lt_succ_self _, ?_, ?_⟩
  · rw [hcap]
    exact hle
  · rw [hcap, ← h.grownCapacity_eq]
    simp only [next, State.write, Function.update_self, newArray]
  · rw [hcap]
    exact hmax

theorem counters_copy {c : Config} {s : State τ α}
    {x : α} {b t arr new i : ℕ} (h : Counters c s)
    (ha : Enabled c s (.copy x b t arr new i))
    (hlt : (next s (.copy x b t arr new i)).pushed.length < 2 ^ 64) :
    Counters c (next s (.copy x b t arr new i)) := by
  have howner := h.owner
  have hback := h.back
  have hbound := h.bound
  rw [ha.1] at howner
  obtain ⟨heq, ht, hle, hti, harr, hnew, halloc, hnewcap, hmax⟩ := howner
  have hcap : (next s (.copy x b t arr new i) : State τ α).capacity =
      s.capacity := by
    simp only [State.capacity, next, State.write]
    rw [Function.update_of_ne hnew.ne]
  have hend : s.back = s.bottom := State.back_eq ha.1
  have hi : i < b := ha.2
  have hadd : add i 1 = i + 1 :=
    add_eq (by simp only [next, State.write] at hlt; omega)
  refine h.of_owner rfl rfl rfl rfl rfl hcap le_rfl hend.symm ?_
  refine ⟨heq, ht, ?_, ?_, harr, hnew, halloc, ?_, ?_⟩
  · rw [hcap]
    exact hle
  · rw [hadd]
    omega
  · rw [hcap, ← hnewcap]
    simp only [next, State.write, Function.update_self,
      CircularArray.capacity_put]
  · rw [hcap]
    exact hmax

theorem counters_storeArray {c : Config} {s : State τ α}
    {x : α} {b new : ℕ} (h : Counters c s)
    (ha : Enabled c s (.storeArray x b new)) :
    Counters c (next s (.storeArray x b new)) := by
  have howner := h.owner
  have hback := h.back
  have hbound := h.bound
  have hroom := h.room
  rw [show s.owner = _ from ha] at howner
  obtain ⟨heq, hnew, halloc, hnewcap, hmax⟩ := howner
  have hcap : (next s (.storeArray x b new) : State τ α).capacity =
    s.capacity * 2 := hnewcap
  have hend : s.back = s.bottom := State.back_eq ha
  have hpos := h.capacity_pos
  refine ⟨h.index, hback.trans hend, hend.ge.trans hbound, ?_, ?_, ?_,
    halloc, ⟨heq, rfl, ?_⟩, fun u => ?_⟩
  · obtain ⟨e, he⟩ := h.capacity
    exact ⟨e + 1, by rw [hcap, he, pow_succ]⟩
  · rw [hcap]
    exact hmax
  · rw [hcap]
    change s.live.length ≤ _
    omega
  · rw [hcap]
    change s.live.length < _
    omega
  · exact (h.thief u).transfer le_rfl (fun _ hne => hne) hnew.le

theorem counters_pushStoreBottom {c : Config} {s : State τ α}
    {x : α} {b : ℕ} (h : Counters c s)
    (ha : Enabled c s (.pushStoreBottom x b))
    (hlt : (next s (.pushStoreBottom x b)).pushed.length < 2 ^ 64) :
    Counters c (next s (.pushStoreBottom x b)) := by
  have howner := h.owner
  have hback := h.back
  have hbound := h.bound
  rw [show s.owner = _ from ha] at howner
  obtain ⟨heq, hlen⟩ := howner
  have hend : s.back = s.bottom := State.back_eq ha
  simp only [next, List.length_append, List.length_singleton] at hlt
  have hadd : add b 1 = b + 1 := add_eq (by omega)
  have hnewback : (next s (.pushStoreBottom x b) : State τ α).back =
    b + 1 := hadd
  have hlength : (next s (.pushStoreBottom x b) : State τ α).live.length =
      s.live.length + 1 := by
    simp only [next, List.length_append, List.length_singleton]
  refine ⟨?_, ?_, ?_, h.capacity, h.fits, ?_, h.array, trivial,
    fun u => ?_⟩
  · rw [hlength, List.range'_concat]
    simp only [next, List.map_append, List.map_cons, List.map_nil,
      h.index, newItem_index]
    congr 2
    omega
  · rw [hlength, hnewback]
    change s.top + _ = _
    omega
  · rw [hnewback]
    simp only [next, List.length_append, List.length_singleton]
    omega
  · rw [hlength]
    exact hlen
  · exact (h.thief u).transfer le_rfl
      (fun _ _ => List.concat_ne_nil _ _) le_rfl

theorem counters_popMany {c : Config} {s : State τ α}
    {b arr : ℕ} (h : Counters c s)
    (ha : Enabled c s (.popMany b arr)) :
    Counters c (next s (.popMany b arr)) := by
  have howner := h.owner
  have hback := h.back
  rw [ha.1] at howner
  have hend : s.back = b + 1 := State.back_eq ha.1
  have hlow := ha.2
  obtain ⟨l, y, hl, hlen⟩ := h.exists_concat (by omega)
  have hnewback : (next s (.popMany b arr) : State τ α).back = b := by
    change (if s.top = b then b + 1 else s.bottom) = b
    rw [if_neg hlow.ne, howner.1]
  refine h.of_dropLast hl ?_ (Or.inl ⟨rfl, ?_⟩) ?_ ?_ rfl rfl rfl rfl rfl
    howner
  · simp only [next, State.claimBack, hl, List.dropLast_concat]
  · rintro rfl
    simp only [List.length_nil] at hlen
    omega
  · rw [hnewback]
    change s.top + l.length = b
    omega
  · rw [hnewback]
    omega

theorem counters_popCas {c : Config} {s : State τ α}
    {b t : ℕ} {x : α} (h : Counters c s)
    (ha : Enabled c s (.popCas b t x))
    (hlt : (next s (.popCas b t x)).pushed.length < 2 ^ 64) :
    Counters c (next s (.popCas b t x)) := by
  have howner := h.owner
  have hback := h.back
  have hbound := h.bound
  rw [ha.1] at howner
  obtain ⟨hbot, htb⟩ := howner
  have hend : s.back = b + 1 := State.back_eq ha.1
  have htop := ha.2
  obtain ⟨l, y, hl, hlen⟩ := h.exists_concat (by omega)
  have hnil : l = [] := List.length_eq_zero_iff.mp (by omega)
  have hadd : add t 1 = t + 1 :=
    add_eq (by simp only [next, State.claimBack] at hlt; omega)
  refine h.of_dropLast hl ?_ (Or.inr ⟨?_, hnil⟩) ?_ hend.ge rfl rfl rfl
    rfl rfl hbot
  · simp only [next, State.claimBack, hl, List.dropLast_concat]
  · change add t 1 = _
    omega
  · change add t 1 + l.length = b + 1
    omega

theorem counters_stealCas {c : Config} {s : State τ α}
    {u : τ} {t : ℕ} {x : α} (h : Counters c s)
    (ha : Enabled c s (.stealCas u t x))
    (hlt : (next s (.stealCas u t x)).pushed.length < 2 ^ 64) :
    Counters c (next s (.stealCas u t x)) := by
  have howner := h.owner
  have hback := h.back
  have hbound := h.bound
  have hroom := h.room
  have hu := h.thief u
  rw [ha.1] at hu
  have htop := ha.2
  have hle := h.bottom_le_back
  obtain ⟨y, l, hl⟩ := List.exists_cons_of_ne_nil (hu.2 htop)
  have hlen : s.live.length = l.length + 1 := by
    rw [hl, List.length_cons]
  have hadd : add t 1 = s.top + 1 := by
    rw [← htop]
    refine add_eq ?_
    simp only [next, State.takeFront, State.thiefTo] at hlt
    omega
  have hlive : (next s (.stealCas u t x) : State τ α).live = l := by
    simp only [next, State.takeFront, State.thiefTo, hl, List.tail_cons]
  have hnewtop : (next s (.stealCas u t x) : State τ α).top = s.top + 1 :=
    hadd
  have hkept : ∀ p : ThiefPc α, p.Counts s →
      p.Counts (next s (.stealCas u t x) : State τ α) := by
    intro p hp
    refine hp.transfer ?_ (fun hsame => ?_) le_rfl <;> omega
  refine ⟨?_, ?_, hbound, h.capacity, h.fits, ?_, h.array, ?_, ?_⟩
  · rw [hlive, hnewtop]
    exact h.index_tail hl
  · rw [hlive, hnewtop]
    change s.top + 1 + l.length = s.back
    omega
  · rw [hlive]
    change l.length ≤ s.capacity
    omega
  · refine OwnerPc.Counts.transfer howner rfl ?_ ?_ rfl rfl rfl
    · omega
    · rw [hlive]
      omega
  · exact (Function.forall_update_iff s.thief
      fun _ p => p.Counts (next s (.stealCas u t x) : State τ α)).mpr
        ⟨trivial, fun v _ => hkept _ (h.thief v)⟩

theorem counters_pushFits {c : Config} {s : State τ α} {x : α} {b t : ℕ}
    (h : Counters c s) (ha : Enabled c s (.pushFits x b t))
    (hlt : (next s (.pushFits x b t) : State τ α).pushed.length < 2 ^ 64) :
    Counters c (next s (.pushFits x b t)) := by
  have hback := h.back
  have hbound := h.bound
  have howner := h.owner
  rw [ha.1] at howner
  obtain ⟨heq, ht, -⟩ := howner
  have hend : s.back = s.bottom := State.back_eq ha.1
  have hsub : sub b t = b - t :=
    sub_eq (by omega) (by simp only [next] at hlt; omega)
  have hfits := ha.2
  have hpos := h.capacity_pos
  refine h.of_ownerPc rfl ha.1 rfl ⟨heq, rfl, ?_⟩
  change s.live.length < s.capacity
  omega

theorem counters_put {c : Config} {s : State τ α} {x : α} {b arr : ℕ}
    (h : Counters c s) (ha : Enabled c s (.put x b arr)) :
    Counters c (next s (.put x b arr)) := by
  have howner := h.owner
  rw [show s.owner = _ from ha] at howner
  obtain ⟨heq, harr, hlen⟩ := howner
  have hcap : (next s (.put x b arr) : State τ α).capacity = s.capacity := by
    simp only [State.capacity, next, State.write]
    rw [harr, Function.update_self, CircularArray.capacity_put]
  refine h.of_owner rfl rfl rfl rfl rfl hcap le_rfl (State.back_eq ha).symm
    ⟨heq, ?_⟩
  rw [hcap]
  exact hlen

theorem counters_popLoadBottom {c : Config} {s : State τ α}
    (h : Counters c s) (ha : Enabled c s .popLoadBottom)
    (hlt : (next s .popLoadBottom : State τ α).pushed.length < 2 ^ 64) :
    Counters c (next s .popLoadBottom) := by
  have hbound := h.bound
  have hend : s.back = s.bottom := State.back_eq ha.1
  have hne := ha.2
  have hsub : sub s.bottom 1 = s.bottom - 1 :=
    sub_eq (by omega) (by simp only [next] at hlt; omega)
  refine h.of_ownerPc rfl ha.1 rfl ?_
  change sub s.bottom 1 + 1 = s.bottom
  omega

theorem counters_next {c : Config} {s : State τ α} {a : Action τ α}
    (h : Counters c s) (ha : Enabled c s a)
    (hlt : (next s a).pushed.length < 2 ^ 64) : Counters c (next s a) := by
  have hback := h.back
  have hbound := h.bound
  have hroom := h.room
  have howner := h.owner
  cases a with
  | callPush x => exact h.of_ownerPc rfl ha rfl trivial
  | pushLoadBottom x => exact h.of_ownerPc rfl ha rfl rfl
  | pushLoadTop x b =>
      rw [show s.owner = _ from ha] at howner
      refine h.of_ownerPc rfl ha rfl ⟨howner, le_rfl, ?_⟩
      have hend : s.back = s.bottom := State.back_eq ha
      have heq : b = s.bottom := howner
      change b ≤ s.top + s.capacity
      omega
  | pushFits x b t => exact counters_pushFits h ha hlt
  | pushGrows x b t => exact counters_pushGrows h ha
  | pushThrows x b t => exact h.of_ownerPc rfl ha.1 rfl trivial
  | copy x b t arr new i => exact counters_copy h ha hlt
  | copied x b t arr new i =>
      rw [ha.1] at howner
      obtain ⟨heq, ht, hle, hti, harr, hnew, halloc, hnewcap, hmax⟩ := howner
      exact h.of_ownerPc rfl ha.1 rfl
        ⟨heq, hnew, halloc, hnewcap, hmax⟩
  | storeArray x b new => exact counters_storeArray h ha
  | put x b arr => exact counters_put h ha
  | pushStoreBottom x b => exact counters_pushStoreBottom h ha hlt
  | callPop => exact h.of_ownerPc rfl ha rfl trivial
  | popZero => exact h.of_ownerPc rfl ha.1 rfl trivial
  | popLoadBottom => exact counters_popLoadBottom h ha hlt
  | popLoadArray b =>
      rw [show s.owner = _ from ha] at howner
      exact h.of_ownerPc rfl ha rfl ⟨howner, rfl⟩
  | popStoreBottom b arr =>
      rw [show s.owner = _ from ha] at howner
      exact h.of_owner rfl rfl rfl rfl rfl rfl le_rfl
        (howner.1.trans (State.back_eq ha).symm) ⟨rfl, howner.2⟩
  | popMany b arr => exact counters_popMany h ha
  | popLast b arr =>
      rw [ha.1] at howner
      exact h.of_ownerPc rfl ha.1 (if_pos ha.2) howner
  | popEmpty b arr =>
      rw [ha.1] at howner
      exact h.of_ownerPc rfl ha.1 rfl howner.1
  | popGet b arr t =>
      refine h.of_owner rfl rfl rfl rfl rfl rfl le_rfl ?_ trivial
      refine Eq.trans ?_ (State.back_eq ha.1).symm
      exact (if_neg ha.2).symm
  | popGetLast b arr t =>
      rw [ha.1] at howner
      exact h.of_ownerPc rfl ha.1 (if_pos ha.2).symm ⟨howner.1, ha.2⟩
  | popCas b t x => exact counters_popCas h ha hlt
  | popCasFails b t x =>
      rw [ha.1] at howner
      exact h.of_ownerPc rfl ha.1 rfl howner.1
  | restore b r =>
      have hend : s.back = b + 1 := State.back_eq ha
      have hadd : add b 1 = b + 1 :=
        add_eq (by simp only [next] at hlt; omega)
      exact h.of_owner rfl rfl rfl rfl rfl rfl le_rfl (hadd.trans hend.symm)
        trivial
  | callSteal u => exact h.of_thief rfl trivial
  | stealLoadTop u => exact h.of_thief rfl (le_refl s.top)
  | stealLoadBottom u t =>
      have hu := h.thief u
      rw [ha.1] at hu
      refine h.of_thief rfl ⟨hu, fun htop hnil => ?_⟩
      have hle := h.bottom_le_back
      have hlow := ha.2
      rw [hnil, List.length_nil] at hback
      omega
  | stealEmpty u t => exact h.of_thief rfl trivial
  | stealLoadArray u t =>
      have hu := h.thief u
      rw [show s.thief u = _ from ha] at hu
      exact h.of_thief rfl ⟨hu.1, hu.2, le_rfl⟩
  | stealGet u t arr =>
      have hu := h.thief u
      rw [show s.thief u = _ from ha] at hu
      exact h.of_thief rfl ⟨hu.1, hu.2.1⟩
  | stealCas u t x => exact counters_stealCas h ha hlt
  | stealCasFails u t x => exact h.of_thief rfl trivial

end WsDeque
end Ethreads
