import Ethreads.AsyncPrimitive.Waking
import Ethreads.CancellationAwaiter.Model

/-!
# The coroutines that await a cancellation

Each agent is in the function of the waiter list that its program point says.
The node of a coroutine comes from outside and is added once, and nobody wakes a
single coroutine, so that the account of the list balances.
-/

namespace Ethreads
namespace CancellationAwaiter

open AsyncPrimitive (Account ungated)

variable {τ : Type*}

/-- The program point in the waiter list that belongs to one of agent `t`. -/
def Pc.Matches (t : τ) (q : AsyncPrimitive.Pc τ) : Pc → Prop
  | adding => q.adding = [t]
  | waking | wakingAll => q.wakesAll = true
  | _ => q = .idle

/-- The coroutine has been or is being suspended. -/
def Pc.onWay : Pc → Bool
  | adding | recheck | waking | suspended => true
  | _ => false

/-- The node of the coroutine has been pushed. -/
def Pc.added : Pc → Bool
  | recheck | waking | suspended => true
  | _ => false

/-- The agents are where the waiter list says, and each node is added once. -/
structure Registered [DecidableEq τ] (s : State τ) : Prop where
  owned : AsyncPrimitive.Owned s.account.list
  balanced : AsyncPrimitive.Balanced ungated s.account
  matched : ∀ t, (s.pc t).Matches t (s.account.list.pc t)
  fresh : ∀ t, (s.pc t).onWay = false → s.account.list.place t = .outside
  added : ∀ t, s.account.added t = if (s.pc t).added then 1 else 0

def Action.agent : Action τ → τ
  | coAwait t | ready t | suspend t | list t _ | recheck t | callCancel t
  | exchange t | callbacksDone t | resume t => t

theorem Pc.Matches.wakesOne {t : τ} {q : AsyncPrimitive.Pc τ} {p : Pc}
    (h : p.Matches t q) : q.wakesOne = false := by
  cases q with
  | wakeLoad | wakeNext n | wakeCas n o =>
      cases p <;> exact nomatch h
  | _ => rfl

section Steps

variable [DecidableEq τ] {s : State τ} {a : Action τ}

theorem account_next_cases (h : Registered s) (ha : Enabled s a) :
    (next s a).account = s.account ∨
      ∃ b, (next s a).account = s.account.next ungated b ∧
        AsyncPrimitive.Enabled ungated s.account.list b ∧
          (a = .list a.agent b ∧ b.runner = some a.agent ∨
            a = .suspend a.agent ∧ b = .callAdd a.agent a.agent ∨
              b = .callWakeAll a.agent ∨ b = .resume a.agent) := by
  have hmatched : ∀ {t} p, s.pc t = p →
      p.Matches t (s.account.list.pc t) := by
    rintro t _ rfl
    exact h.matched t
  cases a with
  | suspend t =>
      exact .inr ⟨.callAdd t t, rfl, hmatched .notReady ha,
        .inr (.inl ⟨rfl, rfl⟩)⟩
  | list t b =>
      refine .inr ⟨b, ?_, ha.2, .inl ⟨rfl, ha.1⟩⟩
      simp only [next]
      split <;> rfl
  | recheck t =>
      simp only [next]
      split
      · exact .inr ⟨.callWakeAll t, rfl, hmatched .recheck ha,
          .inr (.inr (.inl rfl))⟩
      · exact .inl rfl
  | callbacksDone t =>
      exact .inr ⟨.callWakeAll t, rfl, hmatched .callbacks ha,
        .inr (.inr (.inl rfl))⟩
  | resume t => exact .inr ⟨.resume t, rfl, ha, .inr (.inr (.inr rfl))⟩
  | _ => exact .inl rfl

def State.pcAfter (s : State τ) : Action τ → Pc
  | .coAwait _ => .ready
  | .ready _ => if s.cancelled then .passed else .notReady
  | .suspend _ => .adding
  | .list t b =>
      if (AsyncPrimitive.next ungated s.account.list b).pc t = .idle then
        (s.pc t).afterList
      else s.pc t
  | .recheck _ => if s.cancelled then .waking else .suspended
  | .callCancel _ => .exchange
  | .exchange _ => if s.cancelled then .returned false else .callbacks
  | .callbacksDone _ => .wakingAll
  | .resume t => s.pc t

theorem next_pc_self (s : State τ) (a : Action τ) :
    (next s a).pc a.agent = s.pcAfter a := by
  cases a with
  | list t b =>
      have hlist : (s.withList b).account.list =
          AsyncPrimitive.next ungated s.account.list b := Account.list_next ..
      simp only [next, State.pcAfter]
      rw [hlist]
      split
      · exact Function.update_self ..
      · rfl
  | recheck t =>
      simp only [next, State.pcAfter]
      split <;> exact Function.update_self ..
  | resume t => rfl
  | _ => exact Function.update_self ..

theorem pc_next_of_ne {u : τ} (hu : u ≠ a.agent) :
    (next s a).pc u = s.pc u := by
  cases a with
  | recheck t | list t b =>
      simp only [next]
      split <;> first | exact Function.update_of_ne hu .. | rfl
  | resume t => rfl
  | _ => exact Function.update_of_ne hu ..

theorem list_pc_next_of_ne (h : Registered s) (ha : Enabled s a) {u : τ}
    (hu : u ≠ a.agent) :
    (next s a).account.list.pc u = s.account.list.pc u := by
  rcases account_next_cases h ha with hsame | ⟨b, hb, -, hcase⟩
  · rw [hsame]
  rw [hb, Account.list_next]
  rcases hcase with ⟨-, hrun⟩ | ⟨-, rfl⟩ | rfl | rfl
  · obtain ⟨q, hq⟩ := AsyncPrimitive.exists_pc_next_of_runner
      (ungated : τ → Option Empty) (s := s.account.list) hrun
    rw [hq]
    exact Function.update_of_ne hu ..
  · exact Function.update_of_ne hu ..
  · exact Function.update_of_ne hu ..
  · rfl

/-- A step inside a function of the list is one of `add_waiter` with the
agent's own node, or one of `wake_all`. -/
theorem Registered.list_cases (h : Registered s) {t : τ}
    {b : AsyncPrimitive.Action τ τ Empty} (ha : Enabled s (.list t b)) :
    s.pc t = .adding ∧ (s.account.list.pc t).adding = [t] ∨
      (s.pc t = .waking ∨ s.pc t = .wakingAll) ∧
        (s.account.list.pc t).wakesAll = true := by
  have hbusy := AsyncPrimitive.pc_ne_idle_of_runner ha.1 ha.2
  have hmatched := h.matched t
  cases hpc : s.pc t with
  | adding =>
      rw [hpc] at hmatched
      exact .inl ⟨rfl, hmatched⟩
  | waking =>
      rw [hpc] at hmatched
      exact .inr ⟨.inl rfl, hmatched⟩
  | wakingAll =>
      rw [hpc] at hmatched
      exact .inr ⟨.inr rfl, hmatched⟩
  | _ =>
      rw [hpc] at hmatched
      exact absurd hmatched hbusy

theorem next_list_account (t : τ) (b : AsyncPrimitive.Action τ τ Empty) :
    (next s (.list t b)).account = s.account.next ungated b := by
  simp only [next]
  split <;> rfl

theorem matched_list (h : Registered s) {t : τ}
    {b : AsyncPrimitive.Action τ τ Empty} (ha : Enabled s (.list t b)) :
    ((next s (.list t b)).pc t).Matches t
      ((next s (.list t b)).account.list.pc t) := by
  rw [next_list_account, Account.list_next]
  change Pc.Matches t _ ((next s (.list t b)).pc (Action.list t b).agent)
  rw [next_pc_self, State.pcAfter]
  rcases h.list_cases ha with ⟨hpc, hadding⟩ | ⟨hpc, hwakes⟩
  · rcases AsyncPrimitive.adding_next_cases ha.2 ha.1 hadding with
      ⟨hstill, -⟩ | ⟨hidle, -⟩
    · have hbusy : (AsyncPrimitive.next ungated s.account.list b).pc t ≠
          .idle := fun hidle => by rw [hidle] at hstill; cases hstill
      rw [if_neg hbusy, hpc]
      exact hstill
    · rw [if_pos hidle, hpc]
      exact hidle
  · rcases (AsyncPrimitive.wakesAll_next ha.2 ha.1 hwakes).1 with
      hstill | hidle
    · have hbusy : (AsyncPrimitive.next ungated s.account.list b).pc t ≠
          .idle := fun hidle => by rw [hidle] at hstill; cases hstill
      rw [if_neg hbusy]
      rcases hpc with hpc | hpc <;> rw [hpc] <;> exact hstill
    · rw [if_pos hidle]
      rcases hpc with hpc | hpc <;> rw [hpc] <;> exact hidle

theorem matched_next_self (h : Registered s) (ha : Enabled s a) :
    ((next s a).pc a.agent).Matches a.agent
      ((next s a).account.list.pc a.agent) := by
  have hmatched : ∀ {t} p, s.pc t = p →
      p.Matches t (s.account.list.pc t) := by
    rintro t _ rfl
    exact h.matched t
  have hgoto : ∀ {s' : State τ} {t q r}, s'.pc = Function.update s.pc t q →
      s'.account.list.pc t = r → q.Matches t r →
        (s'.pc t).Matches t (s'.account.list.pc t) := by
    intro s' t q r hpc hlist hq
    rwa [hpc, Function.update_self, hlist]
  cases a with
  | list t b => exact matched_list h ha
  | coAwait t => exact hgoto (q := .ready) rfl rfl (hmatched .idle ha)
  | callCancel t => exact hgoto (q := .exchange) rfl rfl (hmatched .idle ha)
  | ready t =>
      have hidle := hmatched .ready ha
      refine hgoto rfl rfl ?_
      cases s.cancelled <;> exact hidle
  | suspend t =>
      exact hgoto (q := .adding) (r := .addLoad t) rfl
        (Function.update_self ..) rfl
  | recheck t =>
      simp only [next]
      split
      · exact hgoto (q := .waking) (r := .exchange) rfl
          (Function.update_self ..) rfl
      · exact hgoto (q := .suspended) rfl rfl (hmatched .recheck ha)
  | exchange t =>
      have hidle := hmatched .exchange ha
      refine hgoto rfl rfl ?_
      cases s.cancelled <;> exact hidle
  | callbacksDone t =>
      exact hgoto (q := .wakingAll) (r := .exchange) rfl
        (Function.update_self ..) rfl
  | resume t => exact h.matched t

theorem matched_next (h : Registered s) (ha : Enabled s a) (u : τ) :
    ((next s a).pc u).Matches u ((next s a).account.list.pc u) := by
  by_cases hu : u = a.agent
  · rw [hu]
    exact matched_next_self h ha
  · rw [pc_next_of_ne hu, list_pc_next_of_ne h ha hu]
    exact h.matched u

/-- The list loses and duplicates no node, and its account balances. -/
theorem account_next (h : Registered s) (ha : Enabled s a) :
    AsyncPrimitive.Owned (next s a).account.list ∧
      AsyncPrimitive.Balanced ungated (next s a).account := by
  rcases account_next_cases h ha with hsame | ⟨b, hb, hen, hcase⟩
  · rw [hsame]
    exact ⟨h.owned, h.balanced⟩
  have hfresh : AsyncPrimitive.AddsFresh s.account.list b := by
    rcases hcase with ⟨-, hrun⟩ | ⟨hsuspend, rfl⟩ | rfl | rfl
    · cases b with
      | callAdd t n => cases hrun
      | _ => trivial
    · refine h.fresh a.agent ?_
      rw [hsuspend] at ha
      rw [show s.pc a.agent = .notReady from ha]
      rfl
    · trivial
    · trivial
  have hswing : AsyncPrimitive.SwingsToNext s.account.list b := by
    cases b with
    | wakeCas t n o =>
        have hone := (h.matched t).wakesOne
        rw [hen.1] at hone
        cases hone
    | _ => trivial
  rw [hb]
  refine ⟨?_, AsyncPrimitive.balanced_next h.owned h.balanced hen hfresh⟩
  rw [Account.list_next]
  exact AsyncPrimitive.owned_next h.owned hen hfresh hswing

theorem onWay_of_next (ha : Enabled s a) {u : τ}
    (hu : ((next s a).pc u).onWay = false) : (s.pc u).onWay = false := by
  by_cases hagent : u = a.agent
  · subst hagent
    rw [next_pc_self] at hu
    have hold : ∀ {t p}, s.pc t = p → p.onWay = false →
        (s.pc t).onWay = false := by
      rintro t _ rfl hp
      exact hp
    cases a with
    | list t b =>
        change (s.pc t).onWay = false
        revert hu
        simp only [State.pcAfter]
        split <;> cases s.pc t <;> simp [Pc.afterList, Pc.onWay]
    | recheck t =>
        revert hu
        simp only [State.pcAfter]
        split <;> nofun
    | resume t => exact hu
    | _ => exact hold ha rfl
  · rwa [pc_next_of_ne hagent] at hu

theorem fresh_next (h : Registered s) (ha : Enabled s a) {u : τ}
    (hu : ((next s a).pc u).onWay = false) :
    (next s a).account.list.place u = .outside := by
  have hplace := h.fresh u (onWay_of_next ha hu)
  rcases account_next_cases h ha with hsame | ⟨b, hb, hen, hcase⟩
  · rwa [hsame]
  rw [hb, Account.list_next]
  rcases hcase with ⟨-, hrun⟩ | ⟨hsuspend, rfl⟩ | rfl | rfl
  · exact (AsyncPrimitive.place_eq_outside_iff h.owned hen hrun u).mpr hplace
  · have hne : u ≠ a.agent := by
      rintro rfl
      rw [hsuspend] at hu
      exact nomatch (congrArg Pc.onWay (Function.update_self ..)).symm.trans hu
    exact (Function.update_of_ne hne ..).trans hplace
  · exact hplace
  · by_cases hagent : u = a.agent
    · rw [hagent]
      exact Function.update_self ..
    · exact (Function.update_of_ne hagent ..).trans hplace

theorem added_next_of_ne (b : AsyncPrimitive.Action τ τ Empty)
    (c : Account τ τ Empty) {u : τ} (hb : ∀ t o, b ≠ .addCas t u o) :
    (c.next ungated b).added u = c.added u := by
  cases b with
  | addCas t n o =>
      exact Function.update_of_ne (fun hu => hb t o (by rw [hu])) _ _
  | _ => rfl

theorem added_list (h : Registered s) {t : τ}
    {b : AsyncPrimitive.Action τ τ Empty} (ha : Enabled s (.list t b)) (u : τ) :
    (next s (.list t b)).account.added u =
      if ((next s (.list t b)).pc u).added then 1 else 0 := by
  rw [next_list_account]
  have hadded := h.added u
  have hkeep : (∀ n o, b ≠ .addCas t n o) →
      ((next s (.list t b)).pc u).added = (s.pc u).added →
        (s.account.next ungated b).added u =
          if ((next s (.list t b)).pc u).added then 1 else 0 := by
    intro hne hpc
    rw [hpc, ← hadded]
    refine added_next_of_ne b s.account fun v o hb => ?_
    have hrun := ha.1
    rw [hb] at hrun
    obtain rfl := Option.some.inj hrun
    exact hne u o hb
  by_cases hut : u = t
  · subst hut
    have hself : (next s (.list u b)).pc u = s.pcAfter (.list u b) :=
      next_pc_self s (.list u b)
    rw [State.pcAfter] at hself
    rcases h.list_cases ha with ⟨hpc, hadding⟩ | ⟨hpc, hwakes⟩
    · rcases AsyncPrimitive.adding_next_cases ha.2 ha.1 hadding with
        ⟨hstill, hne⟩ | ⟨hidle, o, rfl⟩
      · have hbusy : (AsyncPrimitive.next ungated s.account.list b).pc u ≠
            .idle := fun hidle => by rw [hidle] at hstill; cases hstill
        refine hkeep hne ?_
        rw [hself, if_neg hbusy]
      · rw [hself, if_pos hidle, hpc]
        rw [hpc] at hadded
        exact (AsyncPrimitive.countOne_apply ..).trans (by simp [hadded,
          Pc.added, Pc.afterList])
    · refine hkeep (AsyncPrimitive.wakesAll_next ha.2 ha.1 hwakes).2 ?_
      rw [hself]
      split
      · rcases hpc with hpc | hpc <;> rw [hpc] <;> rfl
      · rfl
  · rw [pc_next_of_ne hut, ← hadded]
    refine added_next_of_ne b s.account fun v o hb => ?_
    have hrun := ha.1
    rw [hb] at hrun
    obtain rfl := Option.some.inj hrun
    have hself := ha.2
    rw [hb] at hself
    rcases h.list_cases ha with ⟨-, hadding⟩ | ⟨-, hwakes⟩
    · rw [hself.1] at hadding
      exact hut (List.singleton_inj.mp hadding)
    · rw [hself.1] at hwakes
      cases hwakes

theorem added_next (h : Registered s) (ha : Enabled s a) (u : τ) :
    (next s a).account.added u =
      if ((next s a).pc u).added then 1 else 0 := by
  have hgoto : ∀ {s' : State τ} {t p q}, s.pc t = p →
      s'.pc = Function.update s.pc t q → q.added = p.added →
        s'.account.added = s.account.added →
          s'.account.added u = if (s'.pc u).added then 1 else 0 := by
    intro s' t p q hp hpc hq hadded
    rw [hadded, hpc, h.added u]
    by_cases hut : u = t
    · subst hut
      rw [Function.update_self, hq, hp]
    · rw [Function.update_of_ne hut]
  cases a with
  | list t b => exact added_list h ha u
  | ready t =>
      refine hgoto ha rfl ?_ rfl
      cases s.cancelled <;> rfl
  | suspend t => exact hgoto (q := .adding) ha rfl rfl rfl
  | recheck t =>
      simp only [next]
      split
      · exact hgoto (q := .waking) ha rfl rfl rfl
      · exact hgoto (q := .suspended) ha rfl rfl rfl
  | exchange t =>
      refine hgoto ha rfl ?_ rfl
      cases s.cancelled <;> rfl
  | resume t => exact h.added u
  | coAwait t => exact hgoto (q := .ready) ha rfl rfl rfl
  | callCancel t => exact hgoto (q := .exchange) ha rfl rfl rfl
  | callbacksDone t => exact hgoto (q := .wakingAll) ha rfl rfl rfl

theorem registered_next (h : Registered s) (ha : Enabled s a) :
    Registered (next s a) :=
  ⟨(account_next h ha).1, (account_next h ha).2, matched_next h ha,
    fun _ hu => fresh_next h ha hu, added_next h ha⟩

theorem registered_reachable (hs : (system τ).Reachable s) :
    Registered s := by
  refine hs.invariant Registered ?_ fun s a h ha => registered_next h ha
  rintro s rfl
  exact ⟨AsyncPrimitive.owned_initialState, ⟨fun _ => rfl, fun _ _ => rfl⟩,
    fun _ => rfl, fun _ _ => rfl, fun _ => rfl⟩

end Steps

end CancellationAwaiter
end Ethreads
