import Ethreads.WsDeque.Histories
import Ethreads.Support.Variant

/-!
# The deque does not block

No call of `ws_deque` waits for another one: whoever is in a call can go on, and
ends it after a bounded number of its own steps, whatever the others do.  A
thief that gives up because `top_` has moved has lost a race that somebody else
has won.
-/

namespace Ethreads
namespace WsDeque

variable {τ α : Type*}

/-! ## Who takes a step -/

/-- The agent of a step: the owner, who is `none`, or a thief. -/
def Action.agent : Action τ α → Option τ
  | callSteal u => some u
  | stealLoadTop u => some u
  | stealLoadBottom u _ => some u
  | stealEmpty u _ => some u
  | stealLoadArray u _ => some u
  | stealGet u _ _ => some u
  | stealCas u _ _ => some u
  | stealCasFails u _ _ => some u
  | _ => none

def Action.begins : Action τ α → Bool
  | callPush _ => true
  | callPop => true
  | callSteal _ => true
  | _ => false

def State.inCall (s : State τ α) : Option τ → Prop
  | none => s.owner ≠ .idle
  | some u => s.thief u ≠ .idle

def OwnerPc.stepsLeft (capacity : ℕ) : OwnerPc α → ℕ
  | idle => 0
  | pushLoadBottom _ => capacity + 7
  | pushLoadTop _ _ => capacity + 6
  | pushLoadArray _ _ _ => capacity + 5
  | grow _ b _ _ _ i => b - i + 4
  | storeArray _ _ _ => 3
  | put _ _ _ => 2
  | pushStoreBottom _ _ => 1
  | popLoadBottom => 7
  | popLoadArray _ => 6
  | popStoreBottom _ _ => 5
  | popLoadTop _ _ => 4
  | popGet _ _ _ => 3
  | popCas _ _ _ => 2
  | restore _ _ => 1

def ThiefPc.stepsLeft : ThiefPc α → ℕ
  | idle => 0
  | loadTop => 5
  | loadBottom _ => 4
  | loadArray _ => 3
  | get _ _ => 2
  | cas _ _ => 1

theorem ThiefPc.stepsLeft_le (p : ThiefPc α) : p.stepsLeft ≤ 5 := by
  cases p <;> simp [stepsLeft]

theorem OwnerPc.stepsLeft_le {c : Config} {s : State τ α}
    (h : s.owner.Counts c s) :
    s.owner.stepsLeft s.capacity ≤ s.capacity + 7 := by
  cases hp : s.owner with
  | grow x b t arr new i =>
      rw [hp] at h
      obtain ⟨-, -, hle, hti, -⟩ := h
      change b - i + 4 ≤ _
      omega
  | _ => simp [stepsLeft]

variable {c : Config} {s : State τ α} {a : Action τ α} {u : τ}

/-! ## Calls go on -/

theorem exists_owner_step (h : s.owner ≠ .idle) :
    ∃ a, Enabled c s a ∧ a.agent = none ∧ a.begins = false := by
  cases hp : s.owner with
  | idle => exact absurd hp h
  | pushLoadBottom x => exact ⟨.pushLoadBottom x, hp, rfl, rfl⟩
  | pushLoadTop x b => exact ⟨.pushLoadTop x b, hp, rfl, rfl⟩
  | pushLoadArray x b t =>
      by_cases hfits : sub b t ≤ s.capacity - 1
      · exact ⟨.pushFits x b t, ⟨hp, hfits⟩, rfl, rfl⟩
      · have hfull := not_le.mp hfits
        by_cases hmax : s.grownCapacity ≤ c.vectorMaxSize
        · exact ⟨.pushGrows x b t, ⟨hp, hfull, hmax⟩, rfl, rfl⟩
        · exact ⟨.pushThrows x b t, ⟨hp, hfull, not_le.mp hmax⟩, rfl, rfl⟩
  | grow x b t arr new i =>
      rcases Nat.lt_or_ge i b with hlt | hge
      · exact ⟨.copy x b t arr new i, ⟨hp, hlt⟩, rfl, rfl⟩
      · exact ⟨.copied x b t arr new i, ⟨hp, hge⟩, rfl, rfl⟩
  | storeArray x b new => exact ⟨.storeArray x b new, hp, rfl, rfl⟩
  | put x b arr => exact ⟨.put x b arr, hp, rfl, rfl⟩
  | pushStoreBottom x b => exact ⟨.pushStoreBottom x b, hp, rfl, rfl⟩
  | popLoadBottom =>
      by_cases hzero : s.bottom = 0
      · exact ⟨.popZero, ⟨hp, hzero⟩, rfl, rfl⟩
      · exact ⟨.popLoadBottom, ⟨hp, hzero⟩, rfl, rfl⟩
  | popLoadArray b => exact ⟨.popLoadArray b, hp, rfl, rfl⟩
  | popStoreBottom b arr => exact ⟨.popStoreBottom b arr, hp, rfl, rfl⟩
  | popLoadTop b arr =>
      rcases Nat.lt_trichotomy s.top b with hlt | heq | hgt
      · exact ⟨.popMany b arr, ⟨hp, hlt⟩, rfl, rfl⟩
      · exact ⟨.popLast b arr, ⟨hp, heq⟩, rfl, rfl⟩
      · exact ⟨.popEmpty b arr, ⟨hp, hgt⟩, rfl, rfl⟩
  | popGet b arr t =>
      by_cases htb : t = b
      · exact ⟨.popGetLast b arr t, ⟨hp, htb⟩, rfl, rfl⟩
      · exact ⟨.popGet b arr t, ⟨hp, htb⟩, rfl, rfl⟩
  | popCas b t x =>
      by_cases htop : s.top = t
      · exact ⟨.popCas b t x, ⟨hp, htop⟩, rfl, rfl⟩
      · exact ⟨.popCasFails b t x, ⟨hp, htop⟩, rfl, rfl⟩
  | restore b r => exact ⟨.restore b r, hp, rfl, rfl⟩

theorem exists_thief_step (h : s.thief u ≠ .idle) :
    ∃ a, Enabled c s a ∧ a.agent = some u ∧ a.begins = false := by
  cases hp : s.thief u with
  | idle => exact absurd hp h
  | loadTop => exact ⟨.stealLoadTop u, hp, rfl, rfl⟩
  | loadBottom t =>
      rcases Nat.lt_or_ge t s.bottom with hlt | hge
      · exact ⟨.stealLoadBottom u t, ⟨hp, hlt⟩, rfl, rfl⟩
      · exact ⟨.stealEmpty u t, ⟨hp, hge⟩, rfl, rfl⟩
  | loadArray t => exact ⟨.stealLoadArray u t, hp, rfl, rfl⟩
  | get t arr => exact ⟨.stealGet u t arr, hp, rfl, rfl⟩
  | cas t x =>
      by_cases htop : s.top = t
      · exact ⟨.stealCas u t x, ⟨hp, htop⟩, rfl, rfl⟩
      · exact ⟨.stealCasFails u t x, ⟨hp, htop⟩, rfl, rfl⟩

/-! ## Calls end -/

variable [DecidableEq τ] [Inhabited α]

theorem thief_next_of_ne (ha : a.agent ≠ some u) :
    (next s a).thief u = s.thief u := by
  have hne : ∀ v, some v ≠ some u → ∀ q : ThiefPc α,
      Function.update s.thief v q u = s.thief u := by
    intro v hv q
    exact Function.update_of_ne (fun huv => hv (congrArg some huv.symm)) _ _
  cases a with
  | callSteal v => exact hne v ha _
  | stealLoadTop v => exact hne v ha _
  | stealLoadBottom v t => exact hne v ha _
  | stealEmpty v t => exact hne v ha _
  | stealLoadArray v t => exact hne v ha _
  | stealGet v t arr => exact hne v ha _
  | stealCas v t x => exact hne v ha _
  | stealCasFails v t x => exact hne v ha _
  | _ => rfl

theorem thief_stepsLeft_next (ha : Enabled c s a) (hagent : a.agent = some u)
    (hbegins : a.begins = false) :
    ((next s a).thief u).stepsLeft < (s.thief u).stepsLeft := by
  cases a <;> simp only [Action.agent, Option.some.injEq, reduceCtorEq]
    at hagent <;> subst hagent
  case callSteal => cases hbegins
  all_goals
    simp only [Enabled] at ha
    simp [next, State.thiefTo, ha, ThiefPc.stepsLeft]

/-- A step of the owner in its call brings it closer to the end. -/
theorem owner_stepsLeft_next (h : Counters c s)
    (hlt : s.pushed.length < 2 ^ 64) (ha : Enabled c s a)
    (hagent : a.agent = none) (hbegins : a.begins = false) :
    (next s a).owner.stepsLeft (next s a).capacity <
      s.owner.stepsLeft s.capacity := by
  have hback := h.back
  have hbound := h.bound
  have howner := h.owner
  cases a with
  | pushGrows x b t =>
      rw [ha.1] at howner ⊢
      obtain ⟨-, -, hle⟩ := howner
      change b - t + 4 < s.capacity + 5
      omega
  | copy x b t arr new i =>
      have hend : s.back = s.bottom := State.back_eq ha.1
      rw [ha.1] at howner ⊢
      have hb : b = s.bottom := howner.1
      have hi : i < b := ha.2
      have hadd : add i 1 = i + 1 := add_eq (by omega)
      change b - add i 1 + 4 < b - i + 4
      omega
  | callPush x => cases hbegins
  | callPop => cases hbegins
  | callSteal v => cases hbegins
  | stealLoadTop v => cases hagent
  | stealLoadBottom v t => cases hagent
  | stealEmpty v t => cases hagent
  | stealLoadArray v t => cases hagent
  | stealGet v t arr => cases hagent
  | stealCas v t x => cases hagent
  | stealCasFails v t x => cases hagent
  | _ =>
      simp only [Enabled] at ha
      simp [next, ha, OwnerPc.stepsLeft, State.claimBack, State.capacity]

theorem owner_next_of_ne (ha : a.agent ≠ none) :
    (next s a).owner = s.owner ∧ (next s a).capacity = s.capacity := by
  cases a with
  | callSteal v => exact ⟨rfl, rfl⟩
  | stealLoadTop v => exact ⟨rfl, rfl⟩
  | stealLoadBottom v t => exact ⟨rfl, rfl⟩
  | stealEmpty v t => exact ⟨rfl, rfl⟩
  | stealLoadArray v t => exact ⟨rfl, rfl⟩
  | stealGet v t arr => exact ⟨rfl, rfl⟩
  | stealCas v t x => exact ⟨rfl, rfl⟩
  | stealCasFails v t x => exact ⟨rfl, rfl⟩
  | _ => exact absurd rfl ha

/-- A call that goes on has not pushed yet. -/
theorem pushed_next (h : (next s a).owner ≠ .idle) :
    (next s a).pushed = s.pushed := by
  cases a with
  | pushStoreBottom x b => exact absurd rfl h
  | _ => rfl

/-- The deque when an agent begins no new call. -/
def withoutCallsOf (c : Config) (τ α : Type*) [DecidableEq τ] [Inhabited α]
    (p : Option τ) : TransitionSystem (State τ α) (Action τ α) :=
  (system c τ).restrict fun _ a => a.agent = p → a.begins = false

/-- While the owner is in a call, the counters are in order. -/
def Orderly (c : Config) (s : State τ α) : Prop :=
  s.owner ≠ .idle → Counters c s ∧ s.pushed.length < 2 ^ 64

omit [DecidableEq τ] [Inhabited α] in
/-- Only calls begin outside a call. -/
theorem owner_ne_idle (ha : Enabled c s a) (hagent : a.agent = none)
    (hbegins : a.begins = false) : s.owner ≠ .idle := by
  intro hidle
  cases a <;> simp_all [Enabled, Action.agent, Action.begins]

theorem owner_ne_idle_of_next (ha : Enabled c s a)
    (hbegins : a.agent = none → a.begins = false)
    (h : (next s a).owner ≠ .idle) : s.owner ≠ .idle := by
  by_cases hagent : a.agent = none
  · exact owner_ne_idle ha hagent (hbegins hagent)
  · rw [(owner_next_of_ne hagent).1] at h
    exact h

theorem orderly_next (h : Orderly c s)
    (ha : (withoutCallsOf c τ α none).Enabled s a) :
    Orderly c (next s a) := by
  intro howner
  obtain ⟨hcounts, hlt⟩ := h (owner_ne_idle_of_next ha.1 ha.2 howner)
  have hnext : (next s a).pushed.length < 2 ^ 64 := by
    rw [pushed_next howner]
    exact hlt
  exact ⟨counters_next hcounts ha.1 hnext, hnext⟩

/-- Calls do not wait for each other: whoever is in a call can go on, a call of
the owner takes at most seven steps more than the array has slots, and a call of
a thief takes at most five. -/
structure WaitFree (c : Config) (s : State τ α) : Prop where
  goesOn : ∀ p, s.inCall p →
    ∃ a, Enabled c s a ∧ a.agent = p ∧ a.begins = false
  owner : ∀ l, (withoutCallsOf c τ α none).Executes s l →
    l.countP (fun a => a.agent = none) ≤ s.capacity + 7
  thief : ∀ u l, (withoutCallsOf c τ α (some u)).Executes s l →
    l.countP (fun a => a.agent = some u) ≤ 5

theorem countP_owner_le {l : List (Action τ α)} (h : Orderly c s)
    (hl : (withoutCallsOf c τ α none).Executes s l) :
    l.countP (fun a => a.agent = none) ≤
      s.owner.stepsLeft s.capacity := by
  have hcount := hl.countP_add_le (I := Orderly c)
    (fun s => s.owner.stepsLeft s.capacity) (fun a => a.agent = none)
    (fun s a hs ha => orderly_next hs ha) ?_ h
  · exact (Nat.le_add_right _ _).trans hcount
  · intro s a hs ha
    by_cases hagent : a.agent = none
    · have hbegins := ha.2 hagent
      obtain ⟨hcounts, hlt⟩ := hs (owner_ne_idle ha.1 hagent hbegins)
      have hless := owner_stepsLeft_next hcounts hlt ha.1 hagent hbegins
      simp only [hagent, decide_true, Bool.toNat_true]
      exact hless
    · obtain ⟨howner, hcapacity⟩ := owner_next_of_ne (s := s) hagent
      simp only [hagent, decide_false, Bool.toNat_false, Nat.add_zero]
      change (next s a).owner.stepsLeft (next s a).capacity ≤ _
      rw [howner, hcapacity]

theorem countP_thief_le {l : List (Action τ α)}
    (hl : (withoutCallsOf c τ α (some u)).Executes s l) :
    l.countP (fun a => a.agent = some u) ≤ (s.thief u).stepsLeft := by
  have hcount := hl.countP_add_le (I := fun _ => True)
    (fun s => (s.thief u).stepsLeft) (fun a => a.agent = some u)
    (fun _ _ _ _ => trivial) ?_ trivial
  · exact (Nat.le_add_right _ _).trans hcount
  · intro s a _ ha
    by_cases hagent : a.agent = some u
    · have hless := thief_stepsLeft_next ha.1 hagent (ha.2 hagent)
      simp only [hagent, decide_true, Bool.toNat_true]
      exact hless
    · simp only [hagent, decide_false, Bool.toNat_false, Nat.add_zero]
      change ((next s a).thief u).stepsLeft ≤ _
      rw [thief_next_of_ne hagent]

/-- `ws_deque` is wait-free, for every initial capacity that is a power of two,
any number of thieves and every interleaving with fewer than `2 ^ 64` pushes. -/
theorem waitFree_of_reachable (hs : (system c τ).Reachable s)
    (hlt : s.pushed.length < 2 ^ 64) : WaitFree c s where
  goesOn p hp := by
    cases p with
    | none => exact exists_owner_step hp
    | some u => exact exists_thief_step hp
  owner l hl := by
    have hcounts := (sound_reachable hs hlt).counters
    have hcount := countP_owner_le (fun _ => ⟨hcounts, hlt⟩) hl
    exact hcount.trans (OwnerPc.stepsLeft_le hcounts.owner)
  thief u l hl := (countP_thief_le hl).trans (s.thief u).stepsLeft_le

theorem waitFree_stealAcrossGrowth :
    WaitFree singleSlot ((system singleSlot (Fin 1)).after
      (initialState singleSlot) stealAcrossGrowth) :=
  waitFree_of_reachable
    (TransitionSystem.Executes.reachable (.init rfl) (by decide)) (by decide)

/-! ## Races -/

/-- How far `top_` has moved since a thief has read it. -/
def ThiefPc.behind (top : ℕ) : ThiefPc α → ℕ
  | idle => 0
  | loadTop => 0
  | loadBottom t => top - t
  | loadArray t => top - t
  | get t _ => top - t
  | cas t _ => top - t

/-- A compare-exchange on `top_` that fails. -/
def Action.losesRace : Action τ α → Bool
  | stealCasFails _ _ _ => true
  | _ => false

/-- A compare-exchange on `top_` that takes an item. -/
def Action.winsRace : Action τ α → Bool
  | popCas _ _ _ => true
  | stealCas _ _ _ => true
  | _ => false

omit [DecidableEq τ] [Inhabited α] in
theorem ThiefPc.behind_le {p : ThiefPc α} {m n k : ℕ} (h : n ≤ m + k) :
    p.behind n ≤ p.behind m + k := by
  cases p <;> simp only [behind] <;> omega

theorem top_next_le (ha : Enabled c s a) :
    (next s a).top ≤ s.top + a.winsRace.toNat := by
  cases a with
  | popCas b t x =>
      have htop := ha.2
      change add t 1 ≤ s.top + 1
      have hle : add t 1 ≤ t + 1 := Nat.mod_le _ _
      omega
  | stealCas v t x =>
      have htop := ha.2
      change add t 1 ≤ s.top + 1
      have hle : add t 1 ≤ t + 1 := Nat.mod_le _ _
      omega
  | _ => exact le_rfl

/-- A thief that loses a race is behind, and afterwards it no longer is. -/
theorem behind_next (h : Counters c s) (ha : Enabled c s a) :
    ((next s a).thief u).behind (next s a).top +
        (decide (a.agent = some u) && a.losesRace).toNat ≤
      (s.thief u).behind s.top +
        (!decide (a.agent = some u) && a.winsRace).toNat := by
  by_cases hagent : a.agent = some u
  · have hu := h.thief u
    cases a <;> simp only [Action.agent, Option.some.injEq, reduceCtorEq]
      at hagent <;> subst hagent
    case stealCasFails v t x =>
      rw [ha.1] at hu ⊢
      have hle : t ≤ s.top := hu.1
      have hne : s.top ≠ t := ha.2
      have hidle : (next s (.stealCasFails v t x)).thief v = .idle :=
        Function.update_self _ _ _
      have hlost : (decide ((Action.stealCasFails v t x).agent = some v) &&
          (Action.stealCasFails v t x).losesRace).toNat = 1 := by
        simp [Action.agent, Action.losesRace]
      rw [hidle, hlost]
      change 0 + 1 ≤ s.top - t + _
      omega
    all_goals
      simp only [Enabled] at ha
      simp [next, State.thiefTo, State.takeFront, ha, ThiefPc.behind,
        Action.losesRace, Action.winsRace, Action.agent]
  · rw [thief_next_of_ne hagent]
    simp only [hagent, decide_false, Bool.false_and, Bool.toNat_false,
      Nat.add_zero, Bool.not_false, Bool.true_and]
    exact ThiefPc.behind_le (top_next_le ha)

/-- Every race that a thief loses has been won by somebody else meanwhile. -/
theorem countP_losesRace_le {l : List (Action τ α)} (h : Counters c s)
    (hidle : s.thief u = .idle) (hl : (boundedSystem c τ α).Executes s l) :
    l.countP (fun a => a.agent = some u && a.losesRace) ≤
      l.countP fun a => !decide (a.agent = some u) && a.winsRace := by
  have hkeep : ∀ s a, Counters c s → (boundedSystem c τ α).Enabled s a →
      Counters c (next s a) := fun s a h ha => counters_next h ha.1 ha.2
  have hcount := hl.countP_add_le_countP (fun s => (s.thief u).behind s.top)
    (fun a => a.agent = some u && a.losesRace)
    (fun a => !decide (a.agent = some u) && a.winsRace) hkeep
    (fun s a h ha => behind_next h ha.1) h
  have hnone : (s.thief u).behind s.top = 0 := by
    rw [hidle]
    rfl
  omega

/-! ## Why a steal returns nothing -/

/-- The owner may be about to take the last item. -/
def OwnerPc.takesLast : OwnerPc α → Prop
  | popLoadTop _ _ => True
  | popGet b _ t => t = b
  | popCas _ _ _ => True
  | _ => False

omit [DecidableEq τ] [Inhabited α] in
/-- Where the live items end beyond `bottom_`, there is one at most. -/
theorem live_of_stealEmpty {t : ℕ} (h : Counters c s)
    (hpassed : s.owner.Passed s.top) (ha : Enabled c s (.stealEmpty u t)) :
    s.live = [] ∨ s.live.length = 1 ∧ s.owner.takesLast := by
  have hback := h.back
  have howner := h.owner
  have hu := h.thief u
  rw [ha.1] at hu
  have ht : t ≤ s.top := hu
  have hbottom := ha.2
  by_cases hnil : s.live = []
  · exact Or.inl hnil
  have hpos := List.length_pos_of_ne_nil hnil
  have hend : s.bottom < s.back := by omega
  refine Or.inr ?_
  unfold State.back at hend hback
  cases hp : s.owner with
  | popLoadTop b arr =>
      rw [hp] at howner hback
      have hb : s.bottom = b := howner.1
      have hlast : s.top + s.live.length = b + 1 := hback
      exact ⟨by omega, trivial⟩
  | popGet b arr t' =>
      rw [hp] at howner hback hend
      have hb : s.bottom = b := howner.1
      by_cases htb : t' = b
      · have hlast : s.top + s.live.length = b + 1 := hback.trans (if_pos htb)
        exact ⟨by omega, htb⟩
      · rw [show OwnerPc.back s.bottom (.popGet b arr t') = s.bottom from
          if_neg htb] at hend
        omega
  | popCas b t' x =>
      rw [hp] at howner hback
      have hb : s.bottom = b := howner.1
      have hlast : s.top + s.live.length = b + 1 := hback
      exact ⟨by omega, trivial⟩
  | restore b r =>
      rw [hp] at hpassed hback
      have hlow : b < s.top := hpassed
      have hlast : s.top + s.live.length = b + 1 := hback
      omega
  | _ =>
      rw [hp] at hend
      exact absurd hend (lt_irrefl _)

/-- A steal that returns nothing has found no item, except one that the owner is
about to take, or it has lost a race that another call has won. -/
structure FailsWithReason (c : Config) (s : State τ α) (u : τ) : Prop where
  empty : ∀ t, Enabled c s (.stealEmpty u t) →
    s.live = [] ∨ s.live.length = 1 ∧ s.owner.takesLast
  lost : s.thief u = .idle → ∀ l, (boundedSystem c τ α).Executes s l →
    l.countP (fun a => a.agent = some u && a.losesRace) ≤
      l.countP fun a => !decide (a.agent = some u) && a.winsRace

/-- No steal of `ws_deque` fails without a reason, for every initial capacity
that is a power of two, any number of thieves and every interleaving with fewer
than `2 ^ 64` pushes. -/
theorem failsWithReason_of_reachable (hs : (system c τ).Reachable s)
    (hlt : s.pushed.length < 2 ^ 64) (u : τ) : FailsWithReason c s u where
  empty _ ha :=
    live_of_stealEmpty (sound_reachable hs hlt).counters
      (passed_reachable hs hlt) ha
  lost hidle _ hl :=
    countP_losesRace_le (sound_reachable hs hlt).counters hidle hl

/-- Two thieves want the same item. -/
def twoThieves : List (Action (Fin 2) ℕ) :=
  [.callPush 5, .pushLoadBottom 5, .pushLoadTop 5 0, .pushFits 5 0 0,
    .put 5 0 0, .pushStoreBottom 5 0,
    .callSteal 0, .stealLoadTop 0, .stealLoadBottom 0 0, .stealLoadArray 0 0,
    .callSteal 1, .stealLoadTop 1, .stealLoadBottom 1 0, .stealLoadArray 1 0,
    .stealGet 0 0 0, .stealGet 1 0 0, .stealCas 1 0 5, .stealCasFails 0 0 5]

theorem failsWithReason_twoThieves :
    FailsWithReason singleSlot ((system singleSlot (Fin 2)).after
      (initialState singleSlot) twoThieves) 0 :=
  failsWithReason_of_reachable
    (TransitionSystem.Executes.reachable (.init rfl) (by decide)) (by decide) 0

end WsDeque
end Ethreads
