import Ethreads.AsyncPrimitive.Ownership
import Ethreads.GatedWait.Lifetime

/-!
# Waiter lists of timed waits and selects

Only `wake_one` and `wake_all` take nodes out of a list, while a wait may also
end through its timer, another list or its own re-check.  The lists hold the
nodes of waits in progress only, each once, as long as no wait returns before
its nodes are out of all lists and of the hands of the waking threads.
-/

namespace Ethreads
namespace GatedWait

open AsyncPrimitive (Owned SwingsToNext ungated)

variable {ω γ ν κ ι τ : Type*}

/-! ## Live lists -/

def SuspendPc.isRegistered : SuspendPc → Bool
  | recheck | cas | schedule | done => true
  | _ => false

def SuspendPc.hasAdded (j : ℕ) : SuspendPc → Bool
  | setHandle k | setGate k | callAdd k => j < k
  | adding k => j ≤ k
  | recheck | cas | schedule | done => true
  | _ => false

/-- The node is in the list, being added to it, or in the hands of a thread
that has taken it out. -/
def State.InList (s : State ω γ ν κ ι τ) (i : ι) (n : ν) : Prop :=
  (s.lists i).place n ≠ .outside

/-- A wait returns only when all its nodes have been added and none of them is
in a list or in the hands of a thread any more, and `wake_one` swings the head
of a list only to the current successor. -/
def ReturnsUnlinked (cfg : Config ω γ ν κ ι) (s : State ω γ ν κ ι τ) :
    Action ω γ ν κ ι τ → Prop
  | .finish w _ =>
      (s.suspend w).isRegistered = true ∧
        ∀ n ∈ nodes cfg w, ∀ i, ¬s.InList i n
  | .list i a => SwingsToNext (s.view i) a
  | _ => True

/-- The node belongs to a wait that has not returned. -/
def State.Live (cfg : Config ω γ ν κ ι) (s : State ω γ ν κ ι τ) (n : ν) :
    Prop :=
  ∃ w, s.InProgress w ∧ n ∈ nodes cfg w

/-- What is reached from the head of a list, and what a call of `wake_one` or
`wake_all` still has to walk, is a finite chain of distinct nodes of waits that
have not returned. -/
structure ListsLive (cfg : Config ω γ ν κ ι) (s : State ω γ ν κ ι τ) :
    Prop where
  listed : ∀ i, ∃ ns, Linked s.next (s.lists i).waiters ns ∧ ns.Nodup ∧
    ∀ n ∈ ns, s.Live cfg n
  walked : ∀ i t, ∃ ns, ((s.lists i).pc t).Holds s.next ns ∧ ns.Nodup ∧
    ∀ n ∈ ns, s.Live cfg n

/-! ## Nodes and lists -/

structure Placed (s : State ω γ ν κ ι τ) : Prop where
  owned : ∀ i, Owned (s.view i)
  apart : ∀ i k n, s.InList i n → s.InList k n → i = k

/-- The nodes in the lists are nodes that waits in progress have added. -/
def Held (cfg : Config ω γ ν κ ι) (s : State ω γ ν κ ι τ) : Prop :=
  ∀ i n, s.InList i n → ∃ w j, s.InProgress w ∧ cfg.node w j = n ∧
    j < (cfg.lists w).length ∧ (s.suspend w).hasAdded j = true

/-- No wait returns while it is being registered. -/
def Busy (s : State ω γ ν κ ι τ) : Prop :=
  ∀ w, s.suspend w ≠ .idle → (s.suspend w).isRegistered = false →
    s.resume w ≠ .returned

theorem hasAdded_register {cfg : Config ω γ ν κ ι} {w : ω} {j k : ℕ}
    (hj : j < k) :
    (register cfg w k).hasAdded j = true := by
  unfold register
  split
  · exact decide_eq_true hj
  · rfl

section Steps

variable [DecidableEq ω] [DecidableEq γ] [DecidableEq ν] [DecidableEq κ]
  [DecidableEq ι] [DecidableEq τ] {cfg : Config ω γ ν κ ι}
  {s : State ω γ ν κ ι τ} {a : Action ω γ ν κ ι τ} {v w : ω}

theorem isRegistered_next (ha : Enabled cfg s a)
    (hw : (s.suspend w).isRegistered = true) :
    ((next cfg s a).suspend w).isRegistered = true := by
  refine suspend_keeps (P := fun q => q.isRegistered = true) ha ?_ hw
  intro q hmoves hp
  cases a with
  | recheckEmpty v | recheckFound v | casWon v | casLost v | schedule v =>
      cases hmoves
      rfl
  | _ => exact nomatch hp

theorem hasAdded_next {j : ℕ} (ha : Enabled cfg s a)
    (hw : (s.suspend w).hasAdded j = true) :
    ((next cfg s a).suspend w).hasAdded j = true := by
  refine suspend_keeps (P := fun q => q.hasAdded j = true) ha ?_ hw
  intro q hmoves hp
  cases a with
  | setHandle v k | setGate v k =>
      cases hmoves
      exact hp
  | callAdd v k i =>
      cases hmoves
      exact decide_eq_true (of_decide_eq_true hp).le
  | added v k i =>
      cases hmoves
      exact hasAdded_register (Nat.lt_succ_of_le (of_decide_eq_true hp))
  | recheckEmpty v | recheckFound v | casWon v | casLost v | schedule v =>
      cases hmoves
      rfl
  | _ => exact nomatch hp

/-! ## Waits that are being registered -/

theorem busy_next (hfresh : Fresh s) (h : Busy s) (ha : Enabled cfg s a)
    (hreturns : ReturnsUnlinked cfg s a) : Busy (next cfg s a) := by
  intro w hidle hnot hreturned
  have hold : (s.suspend w).isRegistered = false := by
    by_contra hold
    rw [isRegistered_next ha (by simpa using hold)] at hnot
    exact nomatch hnot
  have hbusy : s.resume w ≠ .returned := by
    by_cases hw : s.suspend w = .idle
    · rw [hfresh w (.inl hw)]
      nofun
    · exact h w hw hold
  rcases returned_of_next hreturned with hw | ⟨c, rfl⟩
  · exact hbusy hw
  · rw [hreturns.1] at hold
    exact nomatch hold

/-! ## Steps of the lists -/

omit [DecidableEq ω] [DecidableEq γ] [DecidableEq ν] [DecidableEq κ]
  [DecidableEq τ] in
/-- One list makes a step that writes fields of its own nodes only and takes
only nodes in that are in no list. -/
theorem Placed.of_list {s' : State ω γ ν κ ι τ} (h : Placed s) {i : ι}
    {l : AsyncPrimitive.State (τ ⊕ ω) ν Empty}
    (hlists : s'.lists = Function.update s.lists i l)
    (hnext : s'.next = l.next) (hl : Owned l)
    (hfields : ∀ n, ¬s.InList i n → l.next n = s.next n)
    (hplace : ∀ n, l.place n ≠ .outside →
      s.InList i n ∨ ∀ k, ¬s.InList k n) : Placed s' := by
  have hself : s'.lists i = l := by
    rw [hlists, Function.update_self]
  have hother : ∀ {k}, k ≠ i → s'.lists k = s.lists k := by
    intro k hk
    rw [hlists, Function.update_of_ne hk]
  constructor
  · intro k
    unfold State.view
    rw [hnext]
    by_cases hk : k = i
    · rw [hk, hself]
      exact hl
    · rw [hother hk]
      refine (h.owned k).congr fun n hn => hfields n fun hni => hk ?_
      exact h.apart k i n hn hni
  · have hold : ∀ {k n}, s'.InList k n → k ≠ i → s.InList k n := by
      intro k n hn hk
      unfold State.InList at hn ⊢
      rwa [hother hk] at hn
    have hnew : ∀ {k n}, s'.InList i n → s.InList k n → i = k := by
      intro k n hn hk
      unfold State.InList at hn
      rw [hself] at hn
      rcases hplace n hn with hn | hn
      · exact h.apart i k n hn hk
      · exact absurd hk (hn k)
    intro j k n hj hk
    by_cases hji : j = i
    · subst hji
      by_cases hkj : k = j
      · exact hkj.symm
      · exact hnew hj (hold hk hkj)
    · by_cases hki : k = i
      · subst hki
        exact (hnew hk (hold hj hji)).symm
      · exact h.apart j k n (hold hj hji) (hold hk hki)

omit [DecidableEq ω] [DecidableEq γ] [DecidableEq ν] [DecidableEq κ]
  [DecidableEq ι] [DecidableEq τ] in
theorem Placed.of_fields {s' : State ω γ ν κ ι τ} (h : Placed s)
    (hlists : s'.lists = s.lists)
    (hnext : ∀ i n, s.InList i n → s'.next n = s.next n) : Placed s' := by
  constructor
  · intro i
    unfold State.view
    rw [hlists]
    exact (h.owned i).congr fun n hn => hnext i n hn
  · unfold State.InList
    rw [hlists]
    exact h.apart

omit [DecidableEq ω] [DecidableEq ν] [DecidableEq τ] in
theorem addsFresh_of_isListStep {l : AsyncPrimitive.State (τ ⊕ ω) ν Empty}
    {b : AsyncPrimitive.Action (τ ⊕ ω) ν Empty} (hb : isListStep b = true) :
    AsyncPrimitive.AddsFresh l b := by
  cases b with
  | callAdd u n => exact nomatch hb
  | _ => trivial

theorem inList_of_isListStep {l : AsyncPrimitive.State (τ ⊕ ω) ν Empty}
    {b : AsyncPrimitive.Action (τ ⊕ ω) ν Empty} (hl : Owned l)
    (hb : isListStep b = true)
    (ha : AsyncPrimitive.Enabled ungated l b) {n : ν}
    (hn : (AsyncPrimitive.next ungated l b).place n ≠ .outside) :
    l.place n ≠ .outside := by
  cases hrun : b.runner with
  | none =>
      cases b with
      | callWakeOne u | callWakeAll u => exact hn
      | callAdd u m | fire g | resume m => exact nomatch hb
      | _ => exact nomatch hrun
  | some u =>
      exact fun hout =>
        hn ((AsyncPrimitive.place_eq_outside_iff hl ha hrun n).mpr hout)

omit [DecidableEq γ] [DecidableEq κ] in
theorem placed_delivered (h : Placed s) {i : ι} {t : τ} {n : ν}
    {r : Option ν} (hpc : (s.lists i).pc (.inl t) = .deliver n r)
    {s' : State ω γ ν κ ι τ}
    (hlists : s'.lists = (s.delivered i t n r).lists)
    (hnext : s'.next = s.next) : Placed s' := by
  refine h.of_list (i := i) hlists hnext ?_ (fun _ _ => rfl) fun m hm => ?_
  · have hdeliver : (s.view i).pc (.inl t) = .deliver n r := hpc
    refine AsyncPrimitive.owned_deliver (h.owned i) hdeliver (.inr rfl) rfl
      rfl rfl rfl fun hn => ?_
    exact (h.owned i).scheduled.frame (by simp [hn]) (by simp)
  · left
    by_cases hmn : m = n
    · subst hmn
      exact absurd (Function.update_self _ _ _) hm
    · exact fun hout => hm ((Function.update_of_ne hmn _ _).trans hout)

theorem not_inList_of_callAdd (hs : (system cfg τ).Reachable s)
    (hheld : Held cfg s) (hbusy : Busy s) {j : ℕ}
    (hv : s.suspend v = .callAdd j) (k : ι) :
    ¬s.InList k (cfg.node v j) := by
  intro hin
  obtain ⟨w, l, hw, hnode, hl, hadded⟩ := hheld k _ hin
  have hprogress : s.InProgress v := by
    refine ⟨?_, hbusy v ?_ ?_⟩
    · rw [hv]
      nofun
    · rw [hv]
      nofun
    · rw [hv]
      rfl
  have hj : j < (cfg.lists v).length :=
    inRange_of_reachable hs v j (by rw [hv]; rfl)
  obtain rfl := eq_of_mem_nodes hs hprogress hw (mem_nodes hj)
    (hnode ▸ mem_nodes hl)
  obtain rfl := cfg.node_injective v hnode
  rw [hv] at hadded
  exact absurd (of_decide_eq_true hadded) (lt_irrefl l)

theorem placed_next (hs : (system cfg τ).Reachable s) (h : Placed s)
    (hheld : Held cfg s) (hbusy : Busy s) (ha : Enabled cfg s a)
    (hreturns : ReturnsUnlinked cfg s a) : Placed (next cfg s a) := by
  cases a with
  | construct v =>
      refine h.of_fields rfl fun i n hn => if_neg fun hmem => ?_
      obtain ⟨w, j, hw, rfl, hj, -⟩ := hheld i n hn
      exact (ha.2 w hw).1.2 _ (mem_nodes hj) hmem
  | callAdd v j i =>
      have hout := not_inList_of_callAdd hs hheld hbusy ha.1
      have hlist := ha.2.2
      refine h.of_list (i := i) rfl rfl
        (AsyncPrimitive.owned_callAdd (h.owned i) hlist ?_) (fun _ _ => rfl)
        fun n hn => ?_
      · exact not_not.mp (hout i)
      · by_cases hnode : n = cfg.node v j
        · subst hnode
          exact .inr hout
        · exact .inl fun hout =>
            hn ((Function.update_of_ne hnode _ _).trans hout)
  | list i b =>
      refine h.of_list (i := i) rfl rfl ?_ (fun n hn => ?_) fun n hn => ?_
      · exact AsyncPrimitive.owned_next (h.owned i) ha.2
          (addsFresh_of_isListStep ha.1) hreturns
      · exact AsyncPrimitive.next_eq_of_outside (h.owned i) ha.2
          (not_not.mp hn)
      · exact .inl (inList_of_isListStep (h.owned i) ha.1 ha.2 hn)
  | handleNull i t n r => exact placed_delivered h ha.2.1 rfl rfl
  | gateLost i t n r g => exact placed_delivered h ha.2.1 rfl rfl
  | deliver i t n r g => exact placed_delivered h ha.2 rfl rfl
  | timer b =>
      exact h.of_fields (by simp [next]) fun _ _ _ => by simp [next]
  | _ => exact h.of_fields rfl fun _ _ _ => rfl

/-- Only `add_waiter` brings a node into a list. -/
theorem inList_of_next (h : Placed s) (ha : Enabled cfg s a) {i : ι} {n : ν}
    (hn : (next cfg s a).InList i n) :
    s.InList i n ∨ ∃ v j, a = .callAdd v j i ∧ n = cfg.node v j := by
  have hdelivered : ∀ {k t m r} {s' : State ω γ ν κ ι τ},
      s'.lists = (s.delivered k t m r).lists → s'.InList i n →
        s.InList i n := by
    intro k t m r s' hlists hn
    unfold State.InList at hn ⊢
    rw [hlists] at hn
    by_cases hk : i = k
    · subst hk
      intro hout
      refine hn ?_
      by_cases hm : n = m
      · simp [State.delivered, State.listTo, AsyncPrimitive.State.move, hm]
      · simpa [State.delivered, State.listTo, AsyncPrimitive.State.move,
          AsyncPrimitive.State.goto, State.view, State.deliveryTo, hm]
          using hout
    · simpa [State.delivered, State.listTo, State.deliveryTo, hk] using hn
  cases a with
  | callAdd v j k =>
      by_cases hk : i = k
      · subst hk
        by_cases hnode : n = cfg.node v j
        · exact .inr ⟨v, j, rfl, hnode⟩
        · left
          simpa [State.InList, next, State.listTo, AsyncPrimitive.next,
            AsyncPrimitive.State.move, AsyncPrimitive.State.goto, State.view,
            State.suspendTo, hnode] using hn
      · left
        simpa [State.InList, next, State.listTo, State.suspendTo, hk] using hn
  | list k b =>
      left
      by_cases hk : i = k
      · subst hk
        refine inList_of_isListStep (h.owned i) ha.1 ha.2 ?_
        simpa [State.InList, next, State.listTo] using hn
      · simpa [State.InList, next, State.listTo, hk] using hn
  | handleNull k t m r => exact .inl (hdelivered rfl hn)
  | gateLost k t m r g => exact .inl (hdelivered rfl hn)
  | deliver k t m r g => exact .inl (hdelivered rfl hn)
  | timer b => exact .inl (by simpa [State.InList, next] using hn)
  | _ => exact .inl hn

theorem inProgress_next (ha : Enabled cfg s a)
    (hreturns : ReturnsUnlinked cfg s a) (hw : s.InProgress w) {j : ℕ}
    (hadded : (s.suspend w).hasAdded j = true)
    (hj : j < (cfg.lists w).length) {i : ι}
    (hin : s.InList i (cfg.node w j)) : (next cfg s a).InProgress w := by
  refine ⟨fun hidle => ?_, fun hreturned => ?_⟩
  · have hnext := hasAdded_next ha hadded
    rw [hidle] at hnext
    exact nomatch hnext
  · rcases returned_of_next hreturned with hold | ⟨c, rfl⟩
    · exact hw.2 hold
    · exact hreturns.2 _ (mem_nodes hj) i hin

theorem held_next (hs : (system cfg τ).Reachable s) (hplaced : Placed s)
    (h : Held cfg s) (hbusy : Busy s) (ha : Enabled cfg s a)
    (hreturns : ReturnsUnlinked cfg s a) : Held cfg (next cfg s a) := by
  intro i n hn
  rcases inList_of_next hplaced ha hn with hold | ⟨v, j, rfl, rfl⟩
  · obtain ⟨w, j, hw, rfl, hj, hadded⟩ := h i n hold
    exact ⟨w, j, inProgress_next ha hreturns hw hadded hj hold, rfl, hj,
      hasAdded_next ha hadded⟩
  · have hv : s.suspend v = .callAdd j := ha.1
    refine ⟨v, j, ⟨?_, hbusy v ?_ ?_⟩, rfl, ?_, ?_⟩
    · simp [next, State.listTo, State.suspendTo]
    · simp [hv]
    · rw [hv]
      rfl
    · exact inRange_of_reachable hs v j (by rw [hv]; rfl)
    · simp [next, State.listTo, State.suspendTo, SuspendPc.hasAdded]

/-! ## All lists are live -/

theorem placed_of_reachable
    (hs : (system cfg τ).ReachableWhere (ReturnsUnlinked cfg) s) :
    Placed s ∧ Held cfg s ∧ Busy s := by
  refine hs.invariant_of (J := (system cfg τ).Reachable)
    (fun s => Placed s ∧ Held cfg s ∧ Busy s) (fun s hs => hs.reachable)
    ?_ ?_
  · rintro s ⟨clock, rfl⟩
    exact ⟨⟨fun i => AsyncPrimitive.owned_initialState,
      fun i k n hn => absurd rfl hn⟩, fun i n hn => absurd rfl hn,
        fun w hw => absurd rfl hw⟩
  · rintro s a hs ⟨hplaced, hheld, hbusy⟩ ha hreturns
    exact ⟨placed_next hs hplaced hheld hbusy ha hreturns,
      held_next hs hplaced hheld hbusy ha hreturns,
      busy_next (fresh_of_reachable hs) hbusy ha hreturns⟩

/-- As long as no wait returns before its nodes are out of all lists and of
the hands of the waking threads, and `wake_one` installs only the current
successor of the head, the lists hold live nodes only, and walking them
ends. -/
theorem listsLive_of_returnsUnlinked
    (hs : (system cfg τ).ReachableWhere (ReturnsUnlinked cfg) s) :
    ListsLive cfg s := by
  obtain ⟨hplaced, hheld, -⟩ := placed_of_reachable hs
  have hlive : ∀ {i n}, s.InList i n → s.Live cfg n := by
    intro i n hn
    obtain ⟨w, j, hw, rfl, hj, -⟩ := hheld i n hn
    exact ⟨w, hw, mem_nodes hj⟩
  constructor
  · intro i
    obtain ⟨ns, hlinked, hns⟩ := (hplaced.owned i).listed
    refine ⟨ns, hlinked, hns.1, fun n hn => hlive (i := i) ?_⟩
    have hplace := (hns.2 n).mp hn
    exact fun hout => nomatch hplace.symm.trans hout
  · intro i t
    obtain ⟨ns, hholds, hns⟩ := ((hplaced.owned i).owns t).taken
    refine ⟨ns, hholds, hns.1, fun n hn => hlive (i := i) ?_⟩
    have hplace := (hns.2 n).mp hn
    exact fun hout => nomatch hplace.symm.trans hout

end Steps

/-! ## A node that stays in its list -/

instance [DecidableEq ω] [DecidableEq τ] (s : State ω γ ν κ ι τ) (i : ι)
    (n : ν) : Decidable (s.InList i n) :=
  inferInstanceAs (Decidable (_ ≠ _))

instance [DecidableEq ω] [DecidableEq ν] [DecidableEq τ] [Fintype ι]
    (cfg : Config ω γ ν κ ι) (s : State ω γ ν κ ι τ)
    (a : Action ω γ ν κ ι τ) : Decidable (ReturnsUnlinked cfg s a) := by
  induction a using Action.casesOn <;> dsimp only [ReturnsUnlinked] <;>
    infer_instance

/-- The first wait is woken, and a second one has registered its node. -/
def wakeAndWait : List (Action Bool Unit ℕ Unit Unit Unit) :=
  registerBoth false ++ wakeWait false ++ registerBoth true

theorem listsLive_wakeAndWait :
    let s := (system waitTwice Unit).after
      (initialState Bool Unit ℕ Unit Unit Unit 0) wakeAndWait
    ListsLive waitTwice s ∧ (s.lists ()).waiters = some 0 := by
  intro s
  refine ⟨listsLive_of_returnsUnlinked ?_, by decide⟩
  exact TransitionSystem.Executes.reachableWhere (.init ⟨_, rfl⟩) (by decide)

/-- The first wait reports a time-out, and the second one registers its timer
and its node. -/
def timeOutAndAdd : List (Action Bool Unit ℕ Unit Unit Unit) :=
  [.resume false, .finish false true, .construct true, .readyFalse true,
    .storeGate true, .timer .relock, .timer .loadRunningTrue,
    .timer .heapEmpty, .timer .predicateHeapFalse, .timer .predicateRunning,
    .timer .wait, .timer (.callAdd true), .timer (.lockAdd true),
    .timer (.push true), .timer (.unlockAdd true), .timer (.notifyAdd true),
    .addedTimer true, .setHandle true 0, .setGate true 0,
    .callAdd true 0 (), .list () (.addLoad (.inr true) 0),
    .list () (.addLink (.inr true) 0 (some 0)),
    .list () (.addCas (.inr true) 0 (some 0))]

/-- The first wait times out and leaves its node in the list.  The second one
adds its node at the same address, whose successor is then the node itself. -/
def addAgain : List (Action Bool Unit ℕ Unit Unit Unit) :=
  registerBoth false ++ fireEntry false 1 ++ timeOutAndAdd

theorem not_forall_listsLive :
    ¬∀ s, (system waitTwice Unit).Reachable s → ListsLive waitTwice s := by
  intro h
  have hlive := h ((system waitTwice Unit).after
    (initialState Bool Unit ℕ Unit Unit Unit 0) addAgain)
    (TransitionSystem.Executes.reachable (.init ⟨_, rfl⟩) (by decide))
  obtain ⟨ns, hlinked, hnodup, -⟩ := hlive.listed ()
  obtain ⟨ms, rfl, hms⟩ := linked_some_iff.mp hlinked
  obtain ⟨ks, rfl, -⟩ := linked_some_iff.mp hms
  exact absurd List.mem_cons_self (List.nodup_cons.mp hnodup).1

end GatedWait
end Ethreads
