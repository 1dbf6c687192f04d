import Ethreads.WsDeque.Sequential

/-!
# The capacity of the circular array

Indices are masked with the capacity minus one.  If the capacity is a power of
two, the slots of a window that is not longer than the array are different, and
`grow` keeps the power of two.  Otherwise a bit of the mask is missing, and two
indices below the capacity share a slot.
-/

namespace Ethreads
namespace WsDeque

variable {α : Type*}

/-! ## Growing -/

namespace CircularArray

variable {a new : CircularArray α} {e : ℕ}

@[simp] theorem capacity_copyItems (count i : ℕ) (new : CircularArray α) :
    (a.copyItems count i new).capacity = new.capacity := by
  induction count generalizing i new with
  | zero => rfl
  | succ count ih => rw [copyItems, ih, capacity_put]

/-- Copying keeps what lies before the copied items. -/
theorem get_copyItems_of_lt (hnew : new.capacity = 2 ^ e) {count i j : ℕ}
    (hji : j < i) (hij : i + count ≤ j + 2 ^ e) :
    (a.copyItems count i new).get j = new.get j := by
  induction count generalizing i new with
  | zero => rfl
  | succ count ih =>
      have hput : (new.put i (a.get i)).capacity = 2 ^ e := hnew
      rw [copyItems, ih hput (by omega) (by omega)]
      exact get_put_of_lt hnew hji (by omega) _

theorem get_copyItems (hnew : new.capacity = 2 ^ e) {count i j : ℕ}
    (hcount : count ≤ 2 ^ e) (hij : i ≤ j) (hji : j < i + count) :
    (a.copyItems count i new).get j = a.get j := by
  induction count generalizing i new with
  | zero => omega
  | succ count ih =>
      have hput : (new.put i (a.get i)).capacity = 2 ^ e := hnew
      rw [copyItems]
      rcases Nat.eq_or_lt_of_le hij with rfl | hlt
      · rw [get_copyItems_of_lt hput (Nat.lt_succ_self i) (by omega)]
        exact get_put_self i _
      · exact ih hput (by omega) hlt (by omega)

variable [Inhabited α]

theorem capacity_grow (b t : ℕ) (ha : a.capacity < 2 ^ 63) :
    (a.grow b t).capacity = a.capacity * 2 := by
  rw [grow, capacity_copyItems]
  exact Nat.mod_eq_of_lt (by omega)

/-- `grow` preserves the items. -/
theorem get_grow {b t i : ℕ} (ha : a.capacity = 2 ^ e)
    (hmax : a.capacity < 2 ^ 63) (hb : b ≤ t + a.capacity) (hti : t ≤ i)
    (hib : i < b) : (a.grow b t).get i = a.get i := by
  have hnew : (newArray (a.capacity * 2 % 2 ^ 64) :
      CircularArray α).capacity = 2 ^ (e + 1) := by
    change a.capacity * 2 % 2 ^ 64 = 2 ^ (e + 1)
    rw [Nat.mod_eq_of_lt (by omega), ha, Nat.pow_succ]
  refine get_copyItems hnew ?_ hti (by omega)
  rw [Nat.pow_succ, ← ha]
  omega

end CircularArray

/-! ## Masks -/

/-- A mask that is not one less than a power of two misses a bit. -/
theorem exists_testBit_eq_false {n : ℕ} (hn : 1 ≤ n)
    (hpower : ¬n.isPowerOfTwo) :
    ∃ k, 2 ^ k < n ∧ (n - 1).testBit k = false := by
  by_contra hall
  have hbits : ∀ k, 2 ^ k < n → (n - 1).testBit k = true := by
    intro k hk
    by_contra hbit
    exact hall ⟨k, hk, Bool.eq_false_iff.mpr hbit⟩
  have hlow : 2 ^ n.log2 < n :=
    lt_of_le_of_ne (Nat.log2_self_le (by omega))
      fun heq => hpower ⟨n.log2, heq.symm⟩
  have hmask : n - 1 = 2 ^ (n.log2 + 1) - 1 := by
    refine Nat.eq_of_testBit_eq fun k => ?_
    rw [Nat.testBit_two_pow_sub_one]
    by_cases hk : k < n.log2 + 1
    · rw [decide_eq_true hk]
      exact hbits k (lt_of_le_of_lt
        (Nat.pow_le_pow_right Nat.two_pos (Nat.le_of_lt_succ hk)) hlow)
    · rw [decide_eq_false hk]
      refine Nat.testBit_lt_two_pow ?_
      calc n - 1 < n := Nat.sub_lt hn Nat.one_pos
        _ < 2 ^ (n.log2 + 1) := Nat.lt_log2_self
        _ ≤ 2 ^ k := Nat.pow_le_pow_right Nat.two_pos (by omega)
  have hpos := Nat.two_pow_pos (n.log2 + 1)
  exact hpower ⟨n.log2 + 1, by omega⟩

/-- Such a mask maps two indices of a window to one slot. -/
theorem slot_eq_slot_zero {a : CircularArray α} {k : ℕ}
    (hbit : (a.capacity - 1).testBit k = false) :
    a.slot (2 ^ k) = a.slot 0 := by
  unfold CircularArray.slot
  rw [Nat.zero_and, Nat.two_pow_and, hbit]
  simp

/-! ## The items of the deque -/

/-- The deque holds the items of the list after a number of pushes. -/
structure Keeps (vectorMaxSize : ℕ) (d : Deque α) (live : List α)
    (pushed : ℕ) : Prop where
  power : d.array.capacity.isPowerOfTwo
  fits : d.array.capacity ≤ vectorMaxSize
  room : live.length ≤ d.array.capacity
  count : d.bottom = d.top + live.length
  bound : d.bottom ≤ pushed
  contents : ∀ i x, live[i]? = some x → d.array.get (d.top + i) = x

variable {vectorMaxSize pushed : ℕ} {d : Deque α} {live : List α}

theorem Keeps.represents (h : Keeps vectorMaxSize d live pushed)
    (hpushed : pushed < 2 ^ 64) : Represents d live := by
  obtain ⟨e, he⟩ := h.power
  have hcount := h.count
  have hbound := h.bound
  have hroom := h.room
  have hadd : ∀ i, i ≤ live.length → add d.top i = d.top + i :=
    fun i hi => add_eq (by omega)
  refine ⟨?_, fun i j hij hj => ?_, fun i x hx => ?_⟩
  · rw [hadd _ le_rfl]
    exact hcount
  · rw [hadd i (by omega), hadd j (by omega)]
    exact CircularArray.slot_ne_of_lt he (by omega) (by omega)
  · obtain ⟨hi, -⟩ := List.getElem?_eq_some_iff.mp hx
    rw [hadd i hi.le]
    exact h.contents i x hx

/-- What the array holds after an item has been put at the end. -/
theorem contents_put {a : CircularArray α} {e b t : ℕ} {x : α}
    (ha : a.capacity = 2 ^ e) (hb : b = t + live.length)
    (hlength : live.length < a.capacity)
    (hcontents : ∀ i y, live[i]? = some y → a.get (t + i) = y) :
    ∀ i y, (live ++ [x])[i]? = some y → (a.put b x).get (t + i) = y := by
  intro i y hy
  subst hb
  rcases Nat.lt_or_ge i live.length with hlt | hge
  · rw [List.getElem?_append_left hlt] at hy
    rw [CircularArray.get_put_of_lt ha (by omega) (by omega)]
    exact hcontents i y hy
  · rw [List.getElem?_append_right hge] at hy
    obtain ⟨hi, hxy⟩ := List.getElem?_eq_some_iff.mp hy
    have hlast : i = live.length := by
      rw [List.length_singleton] at hi
      omega
    subst hlast
    rw [CircularArray.get_put_self]
    simpa using hxy

/-! ## One call -/

theorem ListCall.result_steal {live' : List α} {r : Result α}
    (h : ListCall vectorMaxSize live .steal r live') :
    r = .taken live.head? := by
  cases h
  rfl

theorem ListCall.live_steal {live' : List α} {r : Result α}
    (h : ListCall vectorMaxSize live .steal r live') : live' = live.tail := by
  cases h
  rfl

/-- The item of a push is in the array that the push leaves. -/
theorem keeps_pushed {a : CircularArray α} {x : α}
    (h : Keeps vectorMaxSize d live pushed) (ha : a.capacity.isPowerOfTwo)
    (hfits : a.capacity ≤ vectorMaxSize) (hroom : live.length < a.capacity)
    (hcontents : ∀ i y, live[i]? = some y → a.get (d.top + i) = y) :
    Keeps vectorMaxSize ⟨d.top, d.bottom + 1, a.put d.bottom x⟩ (live ++ [x])
      (pushed + 1) := by
  obtain ⟨e, he⟩ := ha
  have hcount := h.count
  refine ⟨⟨e, he⟩, hfits, ?_, ?_, Nat.succ_le_succ h.bound,
    contents_put he hcount hroom hcontents⟩
  · rw [List.length_append, List.length_singleton]
    exact hroom
  · rw [List.length_append, List.length_singleton]
    change d.bottom + 1 = d.top + (live.length + 1)
    omega

theorem keeps_pop (h : Keeps vectorMaxSize d live pushed)
    (hpushed : pushed < 2 ^ 64) :
    d.pop.1 = live.getLast? ∧
      Keeps vectorMaxSize d.pop.2 live.dropLast pushed := by
  have hcount := h.count
  have hbound := h.bound
  by_cases hzero : d.bottom = 0
  · have hnil : live = [] := List.length_eq_zero_iff.mp (by omega)
    rw [Deque.pop, if_pos hzero, hnil]
    rw [hnil] at h
    exact ⟨rfl, h⟩
  · have hb : sub d.bottom 1 = d.bottom - 1 := sub_eq (by omega) (by omega)
    have hrestore : add (d.bottom - 1) 1 = d.bottom := by
      rw [add_eq (by omega)]
      omega
    rcases List.eq_nil_or_concat live with rfl | ⟨rest, x, rfl⟩
    · rw [List.length_nil] at hcount
      rw [Deque.pop_of_gt hzero hb (by omega), hrestore]
      exact ⟨rfl, h⟩
    · rw [List.concat_eq_append] at h hcount ⊢
      have hroom := h.room
      rw [List.length_append, List.length_singleton] at hcount hroom
      have hlast : d.array.get (d.bottom - 1) = x := by
        have hget := h.contents rest.length x (by simp)
        rwa [show d.top + rest.length = d.bottom - 1 by omega] at hget
      rw [List.getLast?_concat, List.dropLast_concat]
      by_cases hone : d.top = d.bottom - 1
      · have hrest : rest = [] := List.length_eq_zero_iff.mp (by omega)
        rw [Deque.pop_of_eq hzero hb hone, hrestore, hlast, hrest]
        exact ⟨rfl, h.power, h.fits, Nat.zero_le _, rfl, hbound, by simp⟩
      · rw [Deque.pop_of_lt hzero hb (by omega), hlast]
        refine ⟨rfl, h.power, h.fits, Nat.le_of_succ_le hroom, ?_, ?_, ?_⟩
        · change d.bottom - 1 = d.top + rest.length
          omega
        · exact (Nat.sub_le _ _).trans hbound
        · intro i y hy
          obtain ⟨hi, -⟩ := List.getElem?_eq_some_iff.mp hy
          refine h.contents i y ?_
          rw [List.getElem?_append_left hi]
          exact hy

theorem keeps_steal (h : Keeps vectorMaxSize d live pushed)
    (hpushed : pushed < 2 ^ 64) :
    d.steal.1 = live.head? ∧
      Keeps vectorMaxSize d.steal.2 live.tail pushed := by
  have hcount := h.count
  have hbound := h.bound
  have hroom := h.room
  unfold Deque.steal
  dsimp only
  cases live with
  | nil =>
      rw [List.length_nil] at hcount
      rw [if_neg (by omega)]
      exact ⟨rfl, h⟩
  | cons x rest =>
      rw [List.length_cons] at hcount hroom
      have hfirst : d.array.get d.top = x := h.contents 0 x rfl
      rw [if_pos (by omega), hfirst, add_eq (by omega)]
      refine ⟨rfl, h.power, h.fits, Nat.le_of_succ_le hroom, ?_, hbound, ?_⟩
      · change d.bottom = d.top + 1 + rest.length
        omega
      · intro i y hy
        have hget := h.contents (i + 1) y hy
        rwa [show d.top + (i + 1) = d.top + 1 + i by omega] at hget

variable [Inhabited α]

theorem keeps_new {n : ℕ} (hn : n.isPowerOfTwo) (hfits : n ≤ vectorMaxSize) :
    Keeps vectorMaxSize (Deque.new n : Deque α) [] 0 :=
  ⟨hn, hfits, Nat.zero_le n, rfl, le_rfl, nofun⟩

/-- A push adds the item, or throws because the array would be too large. -/
theorem keeps_push (h : Keeps vectorMaxSize d live pushed)
    (hmax : vectorMaxSize < 2 ^ 63) (hpushed : pushed + 1 < 2 ^ 64) (x : α) :
    ∃ live', ListCall vectorMaxSize live (.push x)
        (d.call vectorMaxSize (.push x)).1 live' ∧
      Keeps vectorMaxSize (d.call vectorMaxSize (.push x)).2 live'
        (pushed + 1) := by
  obtain ⟨e, he⟩ := h.power
  have hcount := h.count
  have hbound := h.bound
  have hroom := h.room
  have hfits := h.fits
  have hpos : 0 < d.array.capacity := he ▸ Nat.two_pow_pos e
  have hlength : sub d.bottom d.top = live.length := by
    rw [sub_eq (by omega) (by omega)]
    omega
  have hbottom : add d.bottom 1 = d.bottom + 1 := add_eq (by omega)
  by_cases hfull : d.array.capacity - 1 < live.length
  · have hdouble : d.array.capacity * 2 % 2 ^ 64 = d.array.capacity * 2 :=
      Nat.mod_eq_of_lt (by omega)
    by_cases hlarge : vectorMaxSize < d.array.capacity * 2
    · rw [Deque.call_push_of_throws hlength hfull hdouble hlarge]
      refine ⟨live, .threw live x (by omega), ?_⟩
      exact ⟨h.power, hfits, hroom, hcount, Nat.le_succ_of_le hbound,
        h.contents⟩
    · have hgrown : (d.array.grow d.bottom d.top).capacity =
          d.array.capacity * 2 :=
        CircularArray.capacity_grow _ _ (by omega)
      rw [Deque.call_push_of_grows hlength hfull hdouble (not_lt.mp hlarge),
        hbottom]
      refine ⟨live ++ [x], .push live x, keeps_pushed h
        ⟨e + 1, by rw [hgrown, he, Nat.pow_succ]⟩ (by omega) (by omega) ?_⟩
      intro i y hy
      obtain ⟨hi, -⟩ := List.getElem?_eq_some_iff.mp hy
      rw [CircularArray.get_grow he (by omega) (by omega) (by omega)
        (by omega)]
      exact h.contents i y hy
  · rw [Deque.call_push_of_fits hlength (not_lt.mp hfull), hbottom]
    exact ⟨live ++ [x], .push live x,
      keeps_pushed h ⟨e, he⟩ hfits (by omega) h.contents⟩

/-- Every call keeps the items and ends like that of the list. -/
theorem keeps_call (h : Keeps vectorMaxSize d live pushed)
    (hmax : vectorMaxSize < 2 ^ 63) (op : Op α)
    (hpushed : pushed + pushes [op] < 2 ^ 64) :
    ∃ live', ListCall vectorMaxSize live op (d.call vectorMaxSize op).1 live' ∧
      Keeps vectorMaxSize (d.call vectorMaxSize op).2 live'
        (pushed + pushes [op]) := by
  cases op with
  | push x => exact keeps_push h hmax hpushed x
  | pop =>
      obtain ⟨hitem, hkeeps⟩ := keeps_pop h hpushed
      refine ⟨live.dropLast, ?_, hkeeps⟩
      change ListCall vectorMaxSize live .pop (.taken d.pop.1) live.dropLast
      rw [hitem]
      exact .pop live
  | steal =>
      obtain ⟨hitem, hkeeps⟩ := keeps_steal h hpushed
      refine ⟨live.tail, ?_, hkeeps⟩
      change ListCall vectorMaxSize live .steal (.taken d.steal.1) live.tail
      rw [hitem]
      exact .steal live

theorem Keeps.behavesAsList (hmax : vectorMaxSize < 2 ^ 63) (ops : List (Op α))
    {d : Deque α} {live : List α} {pushed : ℕ}
    (h : Keeps vectorMaxSize d live pushed)
    (hpushed : pushed + pushes ops < 2 ^ 64) :
    BehavesAsList vectorMaxSize d live ops := by
  induction ops generalizing d live pushed with
  | nil => exact h.represents hpushed
  | cons op ops ih =>
      have hsplit : pushes (op :: ops) = pushes [op] + pushes ops := by
        rw [← List.singleton_append]
        exact List.countP_append
      rw [hsplit] at hpushed
      obtain ⟨live', hcall, hkeeps⟩ := keeps_call h hmax op (by omega)
      exact ⟨h.represents (by omega), live', hcall, ih hkeeps (by omega)⟩

/-! ## Other capacities -/

/-- Pushes that do not fill the array. -/
theorem exists_represents_of_pushes {n : ℕ} (hn : n < 2 ^ 63) (m : ℕ)
    {d : Deque α} {live : List α} (htop : d.top = 0)
    (hbottom : d.bottom = live.length) (hcapacity : d.array.capacity = n)
    (hm : live.length + m ≤ n)
    (h : BehavesAsList vectorMaxSize d live
      (List.replicate m (.push default))) :
    ∃ (d' : Deque α) (live' : List α), Represents d' live' ∧ d'.top = 0 ∧
      d'.array.capacity = n ∧ live'.length = live.length + m := by
  induction m generalizing d live with
  | zero => exact ⟨d, live, h, htop, hcapacity, rfl⟩
  | succ m ih =>
      obtain ⟨-, live', hcall, hrest⟩ := h
      have hlength : sub d.bottom d.top = live.length := by
        rw [sub_eq (by omega) (by omega)]
        omega
      rw [Deque.call_push_of_fits hlength (by omega), add_eq (by omega)]
        at hcall hrest
      cases hcall with
      | push =>
          have hsnoc : (live ++ [(default : α)]).length = live.length + 1 := by
            rw [List.length_append, List.length_singleton]
          have hnext : d.bottom + 1 = (live ++ [(default : α)]).length := by
            omega
          have hroom : (live ++ [(default : α)]).length + m ≤ n := by omega
          obtain ⟨d', live', hrepresents, htop', hcapacity', hlength'⟩ :=
            ih (d := ⟨d.top, d.bottom + 1, d.array.put d.bottom default⟩) htop
              hnext hcapacity hroom hrest
          exact ⟨d', live', hrepresents, htop', hcapacity', by omega⟩

theorem not_behavesAsList_of_not_isPowerOfTwo {n : ℕ} (hn : 1 ≤ n)
    (hmax : n < 2 ^ 63) (hpower : ¬n.isPowerOfTwo) :
    ∃ ops : List (Op α), pushes ops < 2 ^ 64 ∧
      ¬BehavesAsList vectorMaxSize (Deque.new n) [] ops := by
  obtain ⟨k, hk, hbit⟩ := exists_testBit_eq_false hn hpower
  refine ⟨List.replicate (2 ^ k + 1) (.push default), ?_, fun h => ?_⟩
  · have hcount : pushes (List.replicate (2 ^ k + 1)
        (.push default : Op α)) = 2 ^ k + 1 := by
      simp [pushes, List.countP_replicate]
    omega
  · obtain ⟨d, live, hrepresents, htop, hcapacity, hlength⟩ :=
      exists_represents_of_pushes hmax (2 ^ k + 1) rfl rfl rfl
        (by rw [List.length_nil]; omega) h
    rw [List.length_nil] at hlength
    have hpos := Nat.two_pow_pos k
    have hdistinct := hrepresents.distinct 0 (2 ^ k) hpos (by omega)
    rw [htop, add_eq (by omega), add_eq (by omega), Nat.zero_add,
      Nat.zero_add] at hdistinct
    rw [← hcapacity] at hbit
    exact hdistinct (slot_eq_slot_zero hbit).symm

/-- The deque behaves as a double-ended list if and only if its initial
capacity is a power of two. -/
theorem behavesAsList_iff_isPowerOfTwo (n vectorMaxSize : ℕ) (hn : 1 ≤ n)
    (hfits : n ≤ vectorMaxSize) (hmax : vectorMaxSize < 2 ^ 63) :
    (∀ ops : List (Op α), pushes ops < 2 ^ 64 →
      BehavesAsList vectorMaxSize (Deque.new n) [] ops) ↔
        n.isPowerOfTwo := by
  constructor
  · intro hall
    by_contra hpower
    obtain ⟨ops, hops, hnot⟩ := not_behavesAsList_of_not_isPowerOfTwo
      (α := α) hn (by omega) hpower
    exact hnot (hall ops hops)
  · intro hpower ops hops
    exact Keeps.behavesAsList hmax ops (keeps_new hpower hfits)
      (by rwa [Nat.zero_add])

/-- Two slots at first: the third push makes the array larger. -/
theorem behavesAsList_twoSlots :
    BehavesAsList 8 (Deque.new 2) []
      [.push 5, .push 6, .push 7, .steal, .pop, .pop, .pop] :=
  (behavesAsList_iff_isPowerOfTwo 2 8 (by decide) (by decide) (by decide)).mpr
    ⟨1, rfl⟩ _ (by decide)

/-- With three slots the second item replaces the first. -/
theorem not_forall_behavesAsList :
    ¬∀ n vectorMaxSize : ℕ, 1 ≤ n → n ≤ vectorMaxSize →
      vectorMaxSize < 2 ^ 63 → ∀ ops : List (Op ℕ), pushes ops < 2 ^ 64 →
        BehavesAsList vectorMaxSize (Deque.new n) [] ops := by
  intro hall
  obtain ⟨-, live, hfirst, -, live', hsecond, -, live'', hthird, -⟩ :=
    hall 3 8 (by decide) (by decide) (by decide) [.push 5, .push 6, .steal]
      (by decide)
  have hpush : ListCall 8 [] (.push 5) .pushed live := hfirst
  cases hpush
  have hpush : ListCall 8 [5] (.push 6) .pushed live' := hsecond
  cases hpush
  have hsteal : ListCall 8 [5, 6] .steal (.taken (some 6)) live'' := hthird
  exact absurd hsteal.result_steal (by decide)

/-! ## The counters -/

/-- Pushes that are stolen at once. -/
def rounds : ℕ → List (Op α) → List (Op α)
  | 0, ops => ops
  | k + 1, ops => .push default :: .steal :: rounds k ops

theorem pushes_rounds (k : ℕ) (ops : List (Op α)) :
    pushes (rounds k ops) = k + pushes ops := by
  induction k with
  | zero => simp [rounds]
  | succ k ih =>
      simp only [pushes] at ih
      simp [rounds, pushes, ih]
      omega

/-- The counters after rounds that do not wrap around. -/
theorem exists_behavesAsList_of_rounds (k : ℕ) (ops : List (Op α))
    {d : Deque α} (heq : d.bottom = d.top) (hk : d.top + k < 2 ^ 64)
    (h : BehavesAsList vectorMaxSize d [] (rounds k ops)) :
    ∃ d' : Deque α, d'.top = d.top + k ∧ d'.bottom = d.top + k ∧
      BehavesAsList vectorMaxSize d' [] ops := by
  induction k generalizing d with
  | zero => exact ⟨d, rfl, heq, h⟩
  | succ k ih =>
      obtain ⟨-, live, hpush, -, live', hsteal, hrest⟩ := h
      have hzero : sub d.bottom d.top = 0 := by
        rw [heq, sub_eq le_rfl (by omega), Nat.sub_self]
      have hbottom : add d.bottom 1 = d.top + 1 := by
        rw [heq, add_eq (by omega)]
      rw [Deque.call_push_of_fits hzero (Nat.zero_le _), hbottom]
        at hpush hsteal hrest
      cases hpush
      have hstolen : (⟨d.top, d.top + 1, d.array.put d.bottom default⟩ :
          Deque α).steal.2 =
            ⟨d.top + 1, d.top + 1, d.array.put d.bottom default⟩ := by
        simp only [Deque.steal]
        rw [if_pos (Nat.lt_succ_self _), add_eq (by omega)]
      have hnil : live' = [] := hsteal.live_steal
      have hnext : BehavesAsList vectorMaxSize (⟨d.top, d.top + 1,
          d.array.put d.bottom default⟩ : Deque α).steal.2 live'
            (rounds k ops) := hrest
      rw [hstolen, hnil] at hnext
      have hround : d.top + 1 + k < 2 ^ 64 := by omega
      obtain ⟨d', htop, hbottom, hops⟩ := ih rfl hround hnext
      have hshift : d.top + 1 + k = d.top + (k + 1) := by omega
      exact ⟨d', htop.trans hshift, hbottom.trans hshift, hops⟩

/-- For any capacity, there are `2 ^ 64` pushes after which a steal takes
nothing although there is an item: `bottom_` has become zero again. -/
theorem exists_not_behavesAsList_of_wrap (n vectorMaxSize : ℕ) :
    ∃ ops : List (Op α), pushes ops = 2 ^ 64 ∧
      ¬BehavesAsList vectorMaxSize (Deque.new n) [] ops := by
  obtain ⟨k, hk⟩ : ∃ k, k + 1 = 2 ^ 64 := ⟨2 ^ 64 - 1, by omega⟩
  refine ⟨rounds k [.push default, .steal], ?_, fun h => ?_⟩
  · rw [pushes_rounds]
    exact hk
  · have hk' : (Deque.new n : Deque α).top + k < 2 ^ 64 := by
      change 0 + k < 2 ^ 64
      omega
    obtain ⟨d, htop, hbottom, -, live, hpush, -, live', hsteal, -⟩ :=
      exists_behavesAsList_of_rounds k _ rfl hk' h
    have hzero : sub d.bottom d.top = 0 := by
      rw [hbottom, htop, sub_eq le_rfl hk', Nat.sub_self]
    have hwrap : add d.bottom 1 = 0 := by
      have hlast : d.bottom = 0 + k := hbottom
      unfold add
      omega
    rw [Deque.call_push_of_fits hzero (Nat.zero_le _), hwrap] at hpush hsteal
    cases hpush
    have hnothing : ListCall vectorMaxSize ([] ++ [(default : α)]) .steal
        (.taken none) live' := hsteal
    exact nomatch hnothing.result_steal

end WsDeque
end Ethreads
