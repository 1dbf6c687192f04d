import Ethreads.AsyncPrimitive.Ownership

/-!
# The account of the waiter list

Next to the list this module keeps, for every node, how often it was added,
how often it was removed by `wake_one` or reached by `wake_all`, and how often
its coroutine was passed to `schedule_coro_handle`.  The account balances as
long as `wake_one` swings the head to the current successor of the node it
removes.
-/

namespace Ethreads
namespace AsyncPrimitive

variable {τ ν γ : Type*}

/-- The list together with what has happened to each node. -/
structure Account (τ ν γ : Type*) where
  list : State τ ν γ
  added : ν → ℕ
  removed : ν → ℕ
  delivered : ν → ℕ

def initialAccount (τ ν γ : Type*) : Account τ ν γ where
  list := initialState τ ν γ
  added := fun _ => 0
  removed := fun _ => 0
  delivered := fun _ => 0

section Definitions

variable [DecidableEq ν]

def countOne (f : ν → ℕ) (n : ν) : ν → ℕ :=
  Function.update f n (f n + 1)

variable [DecidableEq τ] [DecidableEq γ]

/-- A step of the list, and what it means for the account. -/
def Account.next (gate : ν → Option γ) (s : Account τ ν γ)
    (a : Action τ ν γ) : Account τ ν γ :=
  let list := AsyncPrimitive.next gate s.list a
  match a with
  | .addCas _ n _ => { s with list := list, added := countOne s.added n }
  | .wakeCas _ n _ | .walkNext _ n =>
      { s with list := list, removed := countOne s.removed n }
  | .schedule _ n _ =>
      { s with list := list, delivered := countOne s.delivered n }
  | _ => { s with list := list }

theorem Account.list_next (gate : ν → Option γ) (s : Account τ ν γ)
    (a : Action τ ν γ) :
    (s.next gate a).list = AsyncPrimitive.next gate s.list a := by
  cases a <;> rfl

def accountSystem (gate : ν → Option γ) (τ : Type*) [DecidableEq τ] :
    TransitionSystem (Account τ ν γ) (Action τ ν γ) where
  Initial s := s = initialAccount τ ν γ
  Enabled s a := Enabled gate s.list a
  next := Account.next gate

instance (gate : ν → Option γ) (s : Account τ ν γ) (a : Action τ ν γ) :
    Decidable ((accountSystem gate τ).Enabled s a) :=
  inferInstanceAs (Decidable (Enabled gate s.list a))

def Pc.delivers (n : ν) : Pc ν → Bool
  | deliver h _ => h = n
  | _ => false

/-- How often the node is in the list, or in the rest of a chain that
`wake_all` has taken out of it. -/
def State.waiting (s : State τ ν γ) (n : ν) : ℕ :=
  match s.place n with
  | .listed => 1
  | .taken t => if (s.pc t).delivers n then 0 else 1
  | _ => 0

/-- How often the node is in the hands of a waking thread. -/
def State.inHand (s : State τ ν γ) (n : ν) : ℕ :=
  match s.place n with
  | .taken t => if (s.pc t).delivers n then 1 else 0
  | _ => 0

end Definitions

/-- Every node was added as often as it was removed, but for those that still
wait, and an ungated node was removed as often as it was scheduled, but for
those in the hands of a thread. -/
structure Balanced [DecidableEq ν] (gate : ν → Option γ)
    (s : Account τ ν γ) : Prop where
  removed : ∀ n, s.added n = s.removed n + s.list.waiting n
  delivered : ∀ n, gate n = none →
    s.removed n = s.delivered n + s.list.inHand n

/-- No waiter is lost or duplicated. -/
structure KeepsWaiters (gate : ν → Option γ) (s : Account τ ν γ) : Prop where
  /-- Every add is followed by at most one removal. -/
  removed : ∀ n, s.removed n ≤ s.added n ∧ s.added n ≤ s.removed n + 1
  /-- A removed ungated node is scheduled at most once. -/
  delivered : ∀ n, gate n = none →
    s.delivered n ≤ s.removed n ∧ s.removed n ≤ s.delivered n + 1
  /-- With no call in progress, the nodes reached from `waiters_` are those
  added and not yet removed, each once. -/
  listed : (∀ t, s.list.pc t = .idle) →
    ∃ ns, Linked s.list.next s.list.waiters ns ∧ ns.Nodup ∧
      ∀ n, n ∈ ns ↔ s.removed n < s.added n
  /-- With no call in progress, every removed ungated node was scheduled. -/
  allDelivered : (∀ t, s.list.pc t = .idle) →
    ∀ n, gate n = none → s.delivered n = s.removed n

/-! ## Where a node is -/

section Places

variable {s : State τ ν γ} {t : τ} {n : ν}

/-- With no call in progress nothing is taken. -/
theorem Owned.place_ne_taken (h : Owned s)
    (hidle : s.pc t = .idle) (n : ν) : s.place n ≠ .taken t := by
  intro htaken
  have howns := h.owns t
  rw [hidle] at howns
  obtain ⟨ns, rfl, hns⟩ := howns.taken
  exact List.not_mem_nil ((hns.2 n).mpr htaken)

variable [DecidableEq ν]

theorem waiting_le_one (s : State τ ν γ) (n : ν) : s.waiting n ≤ 1 := by
  unfold State.waiting
  split
  · exact le_rfl
  · split <;> omega
  · exact Nat.zero_le _

theorem inHand_le_one (s : State τ ν γ) (n : ν) : s.inHand n ≤ 1 := by
  unfold State.inHand
  split
  · split <;> omega
  · exact Nat.zero_le _

theorem delivers_walkWith (o : Option ν) (n : ν) :
    (walkWith o).delivers n = false := by
  cases o <;> rfl

theorem delivers_wakeWith (o : Option ν) (n : ν) :
    (wakeWith o).delivers n = false := by
  cases o <;> rfl

theorem account_of_listed (h : s.place n = .listed) :
    s.waiting n = 1 ∧ s.inHand n = 0 := by
  simp [State.waiting, State.inHand, h]

theorem account_of_taken (h : s.place n = .taken t)
    (hp : (s.pc t).delivers n = false) :
    s.waiting n = 1 ∧ s.inHand n = 0 := by
  simp [State.waiting, State.inHand, h, hp]

theorem account_of_delivers (h : s.place n = .taken t)
    (hp : (s.pc t).delivers n = true) :
    s.waiting n = 0 ∧ s.inHand n = 1 := by
  simp [State.waiting, State.inHand, h, hp]

theorem account_of_elsewhere (h : s.place n ≠ .listed)
    (ht : ∀ t, s.place n ≠ .taken t) :
    s.waiting n = 0 ∧ s.inHand n = 0 := by
  cases hp : s.place n with
  | listed => exact absurd hp h
  | taken t => exact absurd hp (ht t)
  | _ => simp [State.waiting, State.inHand, hp]

end Places

/-! ## The step lemma -/

section Steps

variable [DecidableEq τ] [DecidableEq ν] {s s' : State τ ν γ} {t : τ}
  {n m : ν} {p q : Pc ν}

omit [DecidableEq τ] in
theorem countOne_apply (f : ν → ℕ) (n m : ν) :
    countOne f n m = f m + if n = m then 1 else 0 := by
  unfold countOne
  by_cases h : n = m
  · subst h
    simp
  · rw [Function.update_of_ne (Ne.symm h), if_neg h, Nat.add_zero]

/-- What is known of a node is the same in both states. -/
def SameFor (s s' : State τ ν γ) (n : ν) : Prop :=
  s'.waiting n = s.waiting n ∧ s'.inHand n = s.inHand n

theorem SameFor.of_update (hp : s.pc t = p)
    (hpc : s'.pc = Function.update s.pc t q) (hplace : s'.place n = s.place n)
    (hpq : q.delivers n = p.delivers n) : SameFor s s' n := by
  have hpcs : ∀ u, (s'.pc u).delivers n = (s.pc u).delivers n := by
    intro u
    rw [hpc]
    by_cases hu : u = t
    · subst hu
      rw [Function.update_self, hpq, hp]
    · rw [Function.update_of_ne hu]
  unfold SameFor State.waiting State.inHand
  rw [hplace]
  cases s.place n with
  | taken u =>
      simp only [hpcs u]
      exact ⟨trivial, trivial⟩
  | _ => exact ⟨rfl, rfl⟩

theorem SameFor.of_move {r : Place τ} (hp : s.pc t = p)
    (hpc : s'.pc = Function.update s.pc t q)
    (hplace : s'.place = Function.update s.place m r) (hnm : n ≠ m)
    (hpq : q.delivers n = p.delivers n) : SameFor s s' n := by
  refine SameFor.of_update hp hpc ?_ hpq
  rw [hplace, Function.update_of_ne hnm]

end Steps

section StepLemma

variable [DecidableEq τ] [DecidableEq ν] [DecidableEq γ]
  {gate : ν → Option γ} {s : Account τ ν γ} {a : Action τ ν γ}

omit [DecidableEq τ] [DecidableEq γ] in
theorem Balanced.of_sameFor {s' : Account τ ν γ} (h : Balanced gate s)
    (hadded : s'.added = s.added) (hremoved : s'.removed = s.removed)
    (hdelivered : s'.delivered = s.delivered)
    (hsame : ∀ n, SameFor s.list s'.list n) : Balanced gate s' := by
  constructor
  · intro n
    rw [hadded, hremoved, (hsame n).1]
    exact h.removed n
  · intro n hn
    rw [hremoved, hdelivered, (hsame n).2]
    exact h.delivered n hn

omit [DecidableEq τ] [DecidableEq γ] in
theorem Balanced.of_add {s' : Account τ ν γ} {m : ν} (h : Balanced gate s)
    (hadded : s'.added = countOne s.added m) (hremoved : s'.removed = s.removed)
    (hdelivered : s'.delivered = s.delivered)
    (hold : s.list.waiting m = 0 ∧ s.list.inHand m = 0)
    (hnew : s'.list.waiting m = 1 ∧ s'.list.inHand m = 0)
    (hother : ∀ n, n ≠ m → SameFor s.list s'.list n) : Balanced gate s' := by
  constructor
  · intro n
    have hbefore := h.removed n
    rw [hadded, hremoved, countOne_apply]
    by_cases hn : n = m
    · subst hn
      rw [if_pos rfl, hnew.1]
      omega
    · rw [if_neg (Ne.symm hn), (hother n hn).1]
      omega
  · intro n hgate
    have hbefore := h.delivered n hgate
    rw [hremoved, hdelivered]
    by_cases hn : n = m
    · subst hn
      rw [hnew.2]
      omega
    · rw [(hother n hn).2]
      omega

theorem balanced_addCas {t : τ} {m : ν} {o : Option ν}
    (howned : Owned s.list) (h : Balanced gate s)
    (hpc : s.list.pc t = .addCas m o) :
    Balanced gate (Account.next gate s (.addCas t m o)) := by
  have hplace := howned.place_of_addCas hpc
  refine h.of_add (m := m) rfl rfl rfl ?_ ?_ fun n hn => ?_
  · apply account_of_elsewhere <;> simp [hplace]
  · apply account_of_listed
    exact Function.update_self _ _ _
  · exact SameFor.of_move hpc rfl rfl hn rfl

omit [DecidableEq τ] [DecidableEq γ] in
theorem Balanced.of_remove {s' : Account τ ν γ} {m : ν} (h : Balanced gate s)
    (hadded : s'.added = s.added) (hremoved : s'.removed = countOne s.removed m)
    (hdelivered : s'.delivered = s.delivered)
    (hold : s.list.waiting m = 1 ∧ s.list.inHand m = 0)
    (hnew : s'.list.waiting m = 0 ∧ s'.list.inHand m = 1)
    (hother : ∀ n, n ≠ m → SameFor s.list s'.list n) : Balanced gate s' := by
  constructor
  · intro n
    have hbefore := h.removed n
    rw [hadded, hremoved, countOne_apply]
    by_cases hn : n = m
    · subst hn
      rw [if_pos rfl, hnew.1]
      omega
    · rw [if_neg (Ne.symm hn), (hother n hn).1]
      omega
  · intro n hgate
    have hbefore := h.delivered n hgate
    rw [hremoved, hdelivered, countOne_apply]
    by_cases hn : n = m
    · subst hn
      rw [if_pos rfl, hnew.2]
      omega
    · rw [if_neg (Ne.symm hn), (hother n hn).2]
      omega

omit [DecidableEq γ] in
theorem delivers_self {s : State τ ν γ} {t : τ} (m : ν) (rest : Option ν) :
    (Function.update s.pc t (.deliver m rest) t).delivers m = true := by
  rw [Function.update_self]
  exact decide_eq_true rfl

theorem balanced_wakeCas {t : τ} {m : ν} {o : Option ν}
    (howned : Owned s.list) (h : Balanced gate s)
    (hpc : s.list.pc t = .wakeCas m o) (hhead : s.list.waiters = some m) :
    Balanced gate (Account.next gate s (.wakeCas t m o)) := by
  refine h.of_remove (m := m) rfl rfl rfl
    (account_of_listed (howned.place_of_waiters hhead)) ?_ fun n hn => ?_
  · apply account_of_delivers (t := t)
    · exact Function.update_self _ _ _
    · exact delivers_self (s := s.list) m _
  · exact SameFor.of_move hpc rfl rfl hn (decide_eq_false (Ne.symm hn))

theorem balanced_walkNext {t : τ} {m : ν} (howned : Owned s.list)
    (h : Balanced gate s) (hpc : s.list.pc t = .walkNext m) :
    Balanced gate (Account.next gate s (.walkNext t m)) := by
  have hplace := howned.place_of_walkNext hpc
  refine h.of_remove (m := m) rfl rfl rfl
    (account_of_taken hplace (by rw [hpc]; rfl)) ?_ fun n hn => ?_
  · apply account_of_delivers (t := t)
    · exact hplace
    · exact delivers_self (s := s.list) m _
  · exact SameFor.of_update hpc rfl rfl (decide_eq_false (Ne.symm hn))

omit [DecidableEq γ] in
theorem Balanced.of_deliver {s' : Account τ ν γ} {t : τ} {m : ν}
    {rest : Option ν} {r : Place τ} {k : ℕ} (howned : Owned s.list)
    (h : Balanced gate s) (hpc : s.list.pc t = .deliver m rest)
    (hr : r = .scheduled ∨ r = .outside)
    (hpc' : s'.list.pc = Function.update s.list.pc t (walkWith rest))
    (hplace : s'.list.place = Function.update s.list.place m r)
    (hadded : s'.added = s.added) (hremoved : s'.removed = s.removed)
    (hother : ∀ n, n ≠ m → s'.delivered n = s.delivered n)
    (hself : s'.delivered m = s.delivered m + k)
    (hk : gate m = none → k = 1) : Balanced gate s' := by
  have hold := account_of_delivers (howned.place_of_deliver hpc)
    (by rw [hpc]; exact decide_eq_true rfl)
  have hnew : s'.list.waiting m = 0 ∧ s'.list.inHand m = 0 := by
    apply account_of_elsewhere
    · rw [hplace, Function.update_self]
      rcases hr with rfl | rfl <;> simp
    · rw [hplace, Function.update_self]
      rcases hr with rfl | rfl <;> simp
  have hsame : ∀ n, n ≠ m → SameFor s.list s'.list n := by
    intro n hn
    refine SameFor.of_move hpc hpc' hplace hn ?_
    rw [delivers_walkWith]
    exact (decide_eq_false (Ne.symm hn)).symm
  constructor
  · intro n
    have hbefore := h.removed n
    rw [hadded, hremoved]
    by_cases hn : n = m
    · subst hn
      rw [hnew.1]
      omega
    · rw [(hsame n hn).1]
      exact hbefore
  · intro n hgate
    have hbefore := h.delivered n hgate
    rw [hremoved]
    by_cases hn : n = m
    · subst hn
      have hone := hk hgate
      rw [hself, hnew.2]
      omega
    · rw [hother n hn, (hsame n hn).2]
      exact hbefore

theorem sameFor_exchange (gate : ν → Option γ) {t : τ}
    (hpc : s.list.pc t = .exchange) (n : ν) :
    SameFor s.list (AsyncPrimitive.next gate s.list (.exchange t)) n := by
  have hpc' : (AsyncPrimitive.next gate s.list (.exchange t)).pc =
      Function.update s.list.pc t (walkWith s.list.waiters) := rfl
  have hplace : (AsyncPrimitive.next gate s.list (.exchange t)).place n =
      (s.list.place n).takeListed t := rfl
  by_cases hlisted : s.list.place n = .listed
  · have hold := account_of_listed hlisted
    rw [hlisted] at hplace
    have hnew := account_of_taken hplace
      (by rw [hpc', Function.update_self, delivers_walkWith])
    exact ⟨hnew.1.trans hold.1.symm, hnew.2.trans hold.2.symm⟩
  · refine SameFor.of_update hpc hpc' ?_ (delivers_walkWith _ _)
    rw [hplace]
    cases hp : s.list.place n with
    | listed => exact absurd hp hlisted
    | _ => rfl

omit [DecidableEq τ] [DecidableEq γ] in
theorem sameFor_elsewhere {s s' : State τ ν γ} {m : ν} {r : Place τ}
    (hpc : ∀ n u, (s'.pc u).delivers n = (s.pc u).delivers n)
    (hplace : s'.place = Function.update s.place m r)
    (hold : s.place m ≠ .listed ∧ ∀ t, s.place m ≠ .taken t)
    (hnew : r ≠ .listed ∧ ∀ t, r ≠ .taken t) (n : ν) :
    SameFor s s' n := by
  by_cases hn : n = m
  · subst hn
    have h := account_of_elsewhere hold.1 hold.2
    have h' : s'.waiting n = 0 ∧ s'.inHand n = 0 := by
      apply account_of_elsewhere
      · rw [hplace, Function.update_self]
        exact hnew.1
      · rw [hplace, Function.update_self]
        exact hnew.2
    exact ⟨h'.1.trans h.1.symm, h'.2.trans h.2.symm⟩
  · unfold SameFor State.waiting State.inHand
    rw [hplace, Function.update_of_ne hn]
    cases s.place n with
    | taken u =>
        simp only [hpc n u]
        exact ⟨trivial, trivial⟩
    | _ => exact ⟨rfl, rfl⟩

theorem balanced_next (howned : Owned s.list) (h : Balanced gate s)
    (ha : Enabled gate s.list a) (hfresh : AddsFresh s.list a) :
    Balanced gate (Account.next gate s a) := by
  have hmoves : ∀ {t : τ} {p q : Pc ν}, s.list.pc t = p →
      (∀ n, q.delivers n = p.delivers n) →
      ∀ n u, (Function.update s.list.pc t q u).delivers n =
        (s.list.pc u).delivers n := by
    intro t p q hp hpq n u
    by_cases hu : u = t
    · subst hu
      rw [Function.update_self, hpq, hp]
    · rw [Function.update_of_ne hu]
  have hstays : ∀ {t : τ} {p q : Pc ν} {s' : Account τ ν γ},
      s.list.pc t = p → s'.list.pc = Function.update s.list.pc t q →
      s'.list.place = s.list.place → (∀ n, q.delivers n = p.delivers n) →
      s'.added = s.added → s'.removed = s.removed →
      s'.delivered = s.delivered → Balanced gate s' := by
    intro t p q s' hp hpc hplace hpq hadded hremoved hdelivered
    refine h.of_sameFor hadded hremoved hdelivered fun n => ?_
    exact SameFor.of_update hp hpc (by rw [hplace]) (hpq n)
  cases a with
  | addCas t n o => exact balanced_addCas howned h ha.1
  | wakeCas t n o => exact balanced_wakeCas howned h ha.1 ha.2
  | walkNext t n => exact balanced_walkNext howned h ha
  | schedule t n rest =>
      refine h.of_deliver (k := 1) howned ha.1 (Or.inl rfl) rfl rfl rfl rfl ?_
        ?_ fun _ => rfl
      · intro m hm
        exact Function.update_of_ne hm _ _
      · exact Function.update_self _ _ _
  | skip t n rest g =>
      refine h.of_deliver (k := 0) howned ha.1 (Or.inr rfl) rfl rfl rfl rfl
        (fun _ _ => rfl) rfl fun hnone => ?_
      rw [ha.2.1] at hnone
      cases hnone
  | exchange t =>
      exact h.of_sameFor rfl rfl rfl fun n =>
        sameFor_exchange gate ha n
  | callAdd t n =>
      refine h.of_sameFor rfl rfl rfl fun m => ?_
      have hout : s.list.place n = .outside := hfresh
      refine sameFor_elsewhere (m := n) (r := .adding t)
        (hmoves (q := .addLoad n) ha fun _ => rfl) rfl ?_ ?_ m
      · simp [hout]
      · simp
  | resume n =>
      refine h.of_sameFor rfl rfl rfl fun m => ?_
      have hplace : s.list.place n = .scheduled :=
        (howned.scheduled.2 n).mp ha
      refine sameFor_elsewhere (m := n) (r := .outside) ?_ ?_ ?_ ?_ m
      · exact fun _ _ => rfl
      · rfl
      · simp [hplace]
      · simp
  | fire g => exact h.of_sameFor rfl rfl rfl fun _ => ⟨rfl, rfl⟩
  | wakeLoad t =>
      exact hstays ha rfl rfl (delivers_wakeWith _) rfl rfl rfl
  | wakeCasFails t n o =>
      exact hstays ha rfl rfl (delivers_wakeWith _) rfl rfl rfl
  | _ => exact hstays ha rfl rfl (fun _ => rfl) rfl rfl rfl

/-! ## The account of a run -/

theorem balanced_reachable {s : Account τ ν γ}
    (hs : (accountSystem gate τ).ReachableWhere
      (fun s a => AddsFresh s.list a ∧ SwingsToNext s.list a) s) :
    Owned s.list ∧ Balanced gate s := by
  refine hs.invariant (fun s => Owned s.list ∧ Balanced gate s) ?_ ?_
  · rintro s rfl
    refine ⟨?_, fun n => rfl, fun n _ => rfl⟩
    have hinit : (system gate τ).ReachableWhere
        (fun s a => AddsFresh s a ∧ SwingsToNext s a)
        (initialState τ ν γ) := .init rfl
    exact owned_reachable hinit
  · intro s a h ha hP
    refine ⟨?_, balanced_next h.1 h.2 ha hP.1⟩
    change Owned (s.next gate a).list
    rw [Account.list_next]
    exact owned_next h.1 ha hP.1 hP.2

/-- In every run that adds only nodes from outside and swings the head only to
the current successor, the list loses and duplicates no waiter. -/
theorem keepsWaiters_of_swingsToNext {s : Account τ ν γ}
    (hs : (accountSystem gate τ).ReachableWhere
      (fun s a => AddsFresh s.list a ∧ SwingsToNext s.list a) s) :
    KeepsWaiters gate s := by
  obtain ⟨howned, hbalanced⟩ := balanced_reachable hs
  constructor
  · intro n
    have hremoved := hbalanced.removed n
    have hle := waiting_le_one s.list n
    omega
  · intro n hgate
    have hdelivered := hbalanced.delivered n hgate
    have hle := inHand_le_one s.list n
    omega
  · intro hidle
    obtain ⟨ns, hlinked, hns⟩ := howned.listed
    refine ⟨ns, hlinked, hns.1, fun n => ?_⟩
    have hremoved := hbalanced.removed n
    rw [hns.2 n]
    by_cases hlisted : s.list.place n = .listed
    · have haccount := account_of_listed hlisted
      exact iff_of_true hlisted (by omega)
    · have haccount := account_of_elsewhere hlisted
        fun t => howned.place_ne_taken (hidle t) n
      exact iff_of_false hlisted (by omega)
  · intro hidle n hgate
    have hdelivered := hbalanced.delivered n hgate
    have hzero : s.list.inHand n = 0 := by
      unfold State.inHand
      split
      · rename_i t htaken
        exact absurd htaken (howned.place_ne_taken (hidle t) n)
      · rfl
    omega

end StepLemma

/-! ## A head removed and added again -/

/-- Node `1` and then node `0` are added, so that the list is `0`, `1`. -/
def addTwo : List (Action (Fin 2) (Fin 2) Empty) :=
  [.callAdd 0 1, .addLoad 0 1, .addLink 0 1 none, .addCas 0 1 none,
    .callAdd 0 0, .addLoad 0 0, .addLink 0 0 (some 1), .addCas 0 0 (some 1)]

/-- Both nodes are woken and resumed, and node `0` waits again. -/
def wakeTwoAddAgain : List (Action (Fin 2) (Fin 2) Empty) :=
  [.callWakeOne 0, .wakeLoad 0, .wakeNext 0 0, .wakeCas 0 0 (some 1),
    .schedule 0 0 none, .callWakeOne 0, .wakeLoad 0, .wakeNext 0 1,
    .wakeCas 0 1 none, .schedule 0 1 none, .resume 0, .resume 1,
    .callAdd 0 0, .addLoad 0 0, .addLink 0 0 none, .addCas 0 0 none]

/-- Thread `0` does all this while thread `1` is idle. -/
theorem keepsWaiters_wakeTwoAddAgain :
    KeepsWaiters ungated ((accountSystem ungated (Fin 2)).after
      (initialAccount (Fin 2) (Fin 2) Empty) (addTwo ++ wakeTwoAddAgain)) := by
  apply keepsWaiters_of_swingsToNext
  exact TransitionSystem.Executes.reachableWhere (.init rfl) (by decide)

def readSuccessor : List (Action (Fin 2) (Fin 2) Empty) :=
  [.callWakeOne 1, .wakeLoad 1, .wakeNext 1 0]

def installSuccessor : List (Action (Fin 2) (Fin 2) Empty) :=
  [.wakeCas 1 0 (some 1), .schedule 1 0 none]

/-- Thread `1` has read the successor of node `0` before, and exchanges the
head afterwards. -/
def staleSuccessor : List (Action (Fin 2) (Fin 2) Empty) :=
  addTwo ++ readSuccessor ++ wakeTwoAddAgain ++ installSuccessor

theorem not_forall_keepsWaiters :
    ¬∀ s, (accountSystem ungated (Fin 2)).ReachableWhere
      (fun s a => AddsFresh s.list a) s →
        KeepsWaiters (ungated : Fin 2 → Option Empty) s := by
  intro h
  have hreach : (accountSystem ungated (Fin 2)).ReachableWhere
      (fun s a => AddsFresh s.list a)
      ((accountSystem ungated (Fin 2)).after
        (initialAccount (Fin 2) (Fin 2) Empty) staleSuccessor) :=
    TransitionSystem.Executes.reachableWhere (.init rfl) (by decide)
  obtain ⟨ns, hlinked, -, hns⟩ := (h _ hreach).listed (by decide)
  obtain ⟨ms, rfl, -⟩ := linked_some_iff.mp
    (show Linked _ (some (1 : Fin 2)) ns from hlinked)
  exact absurd ((hns 1).mp List.mem_cons_self) (by decide)

end AsyncPrimitive
end Ethreads
