import Ethreads.CancellationAwaiter.Registration

/-!
# Awaiting a cancellation misses no cancel

A node that is in the list after the state was cancelled will be taken out of
it: by the coroutine itself, which has not tested again, or by an agent that is
about to exchange the list head.
-/

namespace Ethreads
namespace CancellationAwaiter

open AsyncPrimitive (Account ungated)

variable {τ : Type*}

/-- The agent has found the state cancelled, or has cancelled it. -/
def Pc.sees : Pc → Bool
  | waking | callbacks | wakingAll | returned _ => true
  | _ => false

def Pc.won : Pc → Bool
  | callbacks | wakingAll | returned true => true
  | _ => false

def Pc.suspending : Pc → Bool
  | adding | recheck | waking => true
  | _ => false

def WillExchange (s : State τ) (t : τ) : Prop :=
  s.pc t = .callbacks ∨ s.account.list.pc t = .exchange

/-- Whoever wakes has seen the state cancelled, and nobody stays in the list of
a cancelled state. -/
structure Covered (s : State τ) : Prop where
  cancelled : ∀ t, (s.pc t).sees = true → s.cancelled = true
  delivered : ∀ t, s.account.delivered t ≠ 0 → s.cancelled = true
  unique : ∀ c d, (s.pc c).won = true → (s.pc d).won = true → c = d
  listed : ∀ t, s.account.list.place t = .listed →
    s.cancelled = false ∨ s.pc t = .recheck ∨ ∃ u, WillExchange s u

structure MissesNone (s : State τ) : Prop where
  atMostOnce : ∀ t, s.account.delivered t ≤ 1
  onlyAfter : ∀ t, s.account.delivered t ≠ 0 → s.cancelled = true
  complete : (∃ c, s.pc c = .returned true) →
    (∀ t, (s.pc t).suspending = false) →
      (∀ t, s.pc t = .suspended → s.account.delivered t = 1) ∧
        s.account.list.waiters = none

section Steps

variable [DecidableEq τ] {s : State τ} {a : Action τ}

theorem cancelled_next (h : s.cancelled = true) :
    (next s a).cancelled = true := by
  cases a with
  | recheck t | list t b =>
      simp only [next]
      split <;> exact h
  | exchange t => rfl
  | _ => exact h

theorem cancelled_of_next (h : (next s a).cancelled = true) :
    s.cancelled = true ∨ ∃ t, a = .exchange t := by
  cases a with
  | recheck t | list t b =>
      left
      revert h
      simp only [next]
      split <;> exact fun h => h
  | exchange t => exact .inr ⟨t, rfl⟩
  | _ => exact .inl h

theorem sees_of_next {t : τ} (ha : Enabled s a)
    (ht : ((next s a).pc t).sees = true) :
    (s.pc t).sees = true ∨ (next s a).cancelled = true := by
  by_cases hagent : t = a.agent
  · subst hagent
    rw [next_pc_self] at ht
    cases a with
    | list t b =>
        left
        change (s.pc t).sees = true
        revert ht
        simp only [State.pcAfter]
        split <;> cases s.pc t <;> simp [Pc.afterList, Pc.sees]
    | ready t =>
        revert ht
        simp only [State.pcAfter]
        split <;> rintro ⟨⟩
    | recheck t =>
        simp only [State.pcAfter] at ht
        split at ht
        · rename_i hc
          exact .inr (cancelled_next hc)
        · cases ht
    | exchange t => exact .inr rfl
    | callbacksDone t => exact .inl (congrArg Pc.sees ha)
    | resume t => exact .inl ht
    | _ => cases ht
  · rw [pc_next_of_ne hagent] at ht
    exact .inl ht

theorem won_of_next {t : τ} (ha : Enabled s a)
    (ht : ((next s a).pc t).won = true) :
    (s.pc t).won = true ∨ a = .exchange t ∧ s.cancelled = false := by
  by_cases hagent : t = a.agent
  · subst hagent
    rw [next_pc_self] at ht
    cases a with
    | list t b =>
        left
        change (s.pc t).won = true
        revert ht
        simp only [State.pcAfter]
        split <;> cases s.pc t <;> simp [Pc.afterList, Pc.won]
    | ready t | recheck t =>
        revert ht
        simp only [State.pcAfter]
        split <;> rintro ⟨⟩
    | exchange t =>
        simp only [State.pcAfter] at ht
        split at ht
        · cases ht
        · rename_i hc
          exact .inr ⟨rfl, Bool.eq_false_iff.mpr hc⟩
    | callbacksDone t => exact .inl (congrArg Pc.won ha)
    | resume t => exact .inl ht
    | _ => cases ht
  · rw [pc_next_of_ne hagent] at ht
    exact .inl ht

/-- A handle is scheduled by an agent that has seen the state cancelled. -/
theorem delivered_of_next (h : Registered s) (hsees : ∀ t,
    (s.pc t).sees = true → s.cancelled = true) (ha : Enabled s a) {u : τ}
    (hu : (next s a).account.delivered u ≠ 0) :
    s.account.delivered u ≠ 0 ∨ s.cancelled = true := by
  rcases account_next_cases h ha with hsame | ⟨b, hb, hen, hcase⟩
  · rw [hsame] at hu
    exact .inl hu
  rw [hb] at hu
  cases b with
  | schedule t n o =>
      right
      rcases hcase with ⟨hlist, hrun⟩ | ⟨-, hcall⟩ | hcall | hcall
      · rw [hlist] at ha
        refine hsees a.agent ?_
        rcases h.list_cases ha with ⟨-, hadding⟩ | ⟨hpc, -⟩
        · obtain rfl := Option.some.inj hrun
          rw [hen.1] at hadding
          cases hadding
        · rcases hpc with hpc | hpc <;> rw [hpc] <;> rfl
      · cases hcall
      · cases hcall
      · cases hcall
  | _ => exact .inl hu

/-- An agent that is going to exchange the list head does so, or it goes on as
before. -/
theorem willExchange_next (h : Registered s) (ha : Enabled s a) {t : τ}
    (ht : WillExchange s t) :
    WillExchange (next s a) t ∨ a = .list t (.exchange t) := by
  by_cases hagent : t = a.agent
  · subst hagent
    have hquiet : ∀ {t p}, s.pc t = p → p ≠ .callbacks →
        ¬p.Matches t .exchange → ¬WillExchange s t := by
      rintro t _ rfl hne hnot (hcallbacks | hexchange)
      · exact hne hcallbacks
      · exact hnot (hexchange ▸ h.matched t)
    cases a with
    | list t b =>
        right
        rcases ht with hcallbacks | hexchange
        · exfalso
          rcases h.list_cases ha with ⟨hpc, -⟩ | ⟨hpc | hpc, -⟩ <;>
            exact nomatch hpc.symm.trans hcallbacks
        · rw [AsyncPrimitive.eq_exchange ha.2 ha.1 hexchange]
          rfl
    | callbacksDone t => exact .inl (.inr (Function.update_self ..))
    | resume t => exact .inl ht
    | _ => exact absurd ht (hquiet ha nofun nofun)
  · left
    unfold WillExchange
    rw [pc_next_of_ne hagent, list_pc_next_of_ne h ha hagent]
    exact ht

theorem listed_of_next (h : Registered s) (ha : Enabled s a) {t : τ}
    (ht : (next s a).account.list.place t = .listed) :
    s.account.list.place t = .listed ∧ (∀ u, a ≠ .list u (.exchange u)) ∨
      (next s a).pc t = .recheck := by
  rcases account_next_cases h ha with hsame | ⟨b, hb, hen, hcase⟩
  · rw [hsame] at ht
    refine .inl ⟨ht, ?_⟩
    rintro u rfl
    rw [← hsame, next_list_account, Account.list_next] at ht
    exact AsyncPrimitive.place_exchange _ _ _ _ ht
  rw [hb, Account.list_next] at ht
  rcases AsyncPrimitive.listed_next ht with hold | ⟨u, o, rfl⟩
  · refine .inl ⟨hold, ?_⟩
    rintro u rfl
    rw [← Account.list_next, ← hb, next_list_account, Account.list_next] at ht
    exact AsyncPrimitive.place_exchange _ _ _ _ ht
  · right
    rcases hcase with ⟨hlist, hrun⟩ | ⟨-, hcall⟩ | hcall | hcall
    · obtain rfl := Option.some.inj hrun
      have hself := next_pc_self s a
      rw [hlist] at ha
      rcases h.list_cases ha with ⟨hpc, hadding⟩ | ⟨-, hwakes⟩
      · rw [hen.1] at hadding
        obtain rfl := List.singleton_inj.mp hadding
        rw [hself, hlist]
        have hidle : (AsyncPrimitive.next ungated s.account.list
            (.addCas a.agent a.agent o)).pc a.agent = .idle :=
          Function.update_self ..
        refine (if_pos hidle).trans ?_
        rw [hpc]
        rfl
      · rw [hen.1] at hwakes
        cases hwakes
    · cases hcall
    · cases hcall
    · cases hcall

theorem listed_next (h : Registered s) (hcovered : Covered s)
    (ha : Enabled s a) {t : τ}
    (ht : (next s a).account.list.place t = .listed) :
    (next s a).cancelled = false ∨ (next s a).pc t = .recheck ∨
      ∃ u, WillExchange (next s a) u := by
  rcases listed_of_next h ha ht with ⟨hold, hnone⟩ | hrecheck
  · rcases hcovered.listed t hold with hfalse | hrecheck | ⟨u, hu⟩
    · by_cases hc : (next s a).cancelled = true
      · rcases cancelled_of_next hc with htrue | ⟨u, rfl⟩
        · cases hfalse.symm.trans htrue
        · refine .inr (.inr ⟨u, .inl ?_⟩)
          refine (next_pc_self s (.exchange u)).trans ?_
          simp [State.pcAfter, hfalse]
      · exact .inl (Bool.eq_false_iff.mpr hc)
    · by_cases hagent : t = a.agent
      · subst hagent
        have hne : ∀ {t p}, s.pc t = p → p ≠ .recheck →
            s.pc t ≠ .recheck := by
          rintro t _ rfl hp
          exact hp
        cases a with
        | recheck t =>
            cases hc : s.cancelled with
            | true =>
                refine .inr (.inr ⟨t, .inr ?_⟩)
                simp only [next, hc]
                exact Function.update_self ..
            | false =>
                left
                simp only [next, hc]
                exact hc
        | resume t => exact .inr (.inl hrecheck)
        | list t b =>
            exfalso
            rcases h.list_cases ha with ⟨hpc, -⟩ | ⟨hpc | hpc, -⟩ <;>
              cases hpc.symm.trans hrecheck
        | _ => exact absurd hrecheck (hne ha (by simp))
      · exact .inr (.inl ((pc_next_of_ne hagent).trans hrecheck))
    · rcases willExchange_next h ha hu with hstill | heq
      · exact .inr (.inr ⟨u, hstill⟩)
      · exact absurd heq (hnone u)
  · exact .inr (.inl hrecheck)

theorem covered_next (h : Registered s) (hcovered : Covered s)
    (ha : Enabled s a) : Covered (next s a) := by
  have hwon : ∀ {p : Pc}, p.won = true → p.sees = true := by
    intro p hp
    cases p with
    | callbacks | wakingAll | returned first => rfl
    | _ => cases hp
  refine ⟨fun t ht => ?_, fun t ht => ?_, fun c d hc hd => ?_,
    fun t ht => listed_next h hcovered ha ht⟩
  · rcases sees_of_next ha ht with hold | hnow
    · exact cancelled_next (hcovered.cancelled t hold)
    · exact hnow
  · rcases delivered_of_next h hcovered.cancelled ha ht with hold | hnow
    · exact cancelled_next (hcovered.delivered t hold)
    · exact cancelled_next hnow
  · have hfirst : ∀ {e}, s.cancelled = false → (s.pc e).won = false := by
      intro e hfalse
      rw [Bool.eq_false_iff]
      intro he
      have htrue := hcovered.cancelled e (hwon he)
      exact nomatch hfalse.symm.trans htrue
    rcases won_of_next ha hc with hcold | ⟨rfl, hfalse⟩
    · rcases won_of_next ha hd with hdold | ⟨rfl, hfalse⟩
      · exact hcovered.unique c d hcold hdold
      · exact nomatch (hfirst hfalse).symm.trans hcold
    · rcases won_of_next ha hd with hdold | ⟨hexchange, -⟩
      · exact nomatch (hfirst hfalse).symm.trans hdold
      · exact Action.exchange.inj hexchange

theorem covered_reachable (hs : (system τ).Reachable s) : Covered s := by
  refine hs.invariant_of (J := Registered) Covered
    (fun s hs => registered_reachable hs) ?_
    fun s a h hcovered ha => covered_next h hcovered ha
  rintro s rfl
  exact ⟨nofun, fun t ht => absurd rfl ht, nofun, nofun⟩

/-! ## Nobody is left -/

/-- When the first call of `cancel` and every `suspend_impl` has returned, no
agent is in a function of the list, and nobody is going to be. -/
theorem idle_of_returned (h : Registered s) (hcovered : Covered s) {c : τ}
    (hc : s.pc c = .returned true)
    (hreturned : ∀ t, (s.pc t).suspending = false) (t : τ) :
    s.account.list.pc t = .idle ∧ s.pc t ≠ .callbacks := by
  have hlost : ∀ {p}, s.pc t = p → p.won = true → p ≠ .returned true →
      False := by
    rintro _ rfl hwon hne
    obtain rfl := hcovered.unique t c hwon (by rw [hc]; rfl)
    exact hne hc
  have hmatched := h.matched t
  cases hpc : s.pc t with
  | adding | waking =>
      have hsuspending := hreturned t
      rw [hpc] at hsuspending
      cases hsuspending
  | callbacks | wakingAll => exact absurd (hlost hpc rfl nofun) id
  | _ =>
      rw [hpc] at hmatched
      exact ⟨hmatched, nofun⟩

/-- Then nobody is in the list. -/
theorem not_listed_of_returned (h : Registered s) (hcovered : Covered s)
    {c : τ} (hc : s.pc c = .returned true)
    (hreturned : ∀ t, (s.pc t).suspending = false) (t : τ) :
    s.account.list.place t ≠ .listed := by
  intro ht
  rcases hcovered.listed t ht with hfalse | hrecheck | ⟨u, hu | hu⟩
  · have htrue := hcovered.cancelled c (by rw [hc]; rfl)
    exact nomatch hfalse.symm.trans htrue
  · have hsuspending := hreturned t
    rw [hrecheck] at hsuspending
    cases hsuspending
  · exact (idle_of_returned h hcovered hc hreturned u).2 hu
  · exact nomatch (idle_of_returned h hcovered hc hreturned u).1.symm.trans hu

/-- Awaiting a cancellation misses no cancel. -/
theorem missesNone (τ : Type*) [DecidableEq τ] :
    ∀ s : State τ, (system τ).Reachable s → MissesNone s := by
  intro s hs
  have h := registered_reachable hs
  have hcovered := covered_reachable hs
  have haccount : ∀ t, s.account.delivered t + s.account.list.inHand t +
      s.account.list.waiting t = if (s.pc t).added then 1 else 0 := by
    intro t
    rw [← h.added t, h.balanced.removed t, h.balanced.delivered t rfl]
  refine ⟨fun t => ?_, hcovered.delivered, ?_⟩
  · have htotal := haccount t
    split at htotal <;> omega
  · rintro ⟨c, hc⟩ hreturned
    have hnone := not_listed_of_returned h hcovered hc hreturned
    refine ⟨fun t ht => ?_, ?_⟩
    · have hzero := AsyncPrimitive.account_of_elsewhere (hnone t) fun u =>
        h.owned.place_ne_taken (idle_of_returned h hcovered hc hreturned u).1 t
      have htotal := haccount t
      rw [ht, hzero.1, hzero.2] at htotal
      exact htotal
    · obtain ⟨ns, hlinked, hns⟩ := h.owned.listed
      cases hw : s.account.list.waiters with
      | none => rfl
      | some n => exact absurd (h.owned.place_of_waiters hw) (hnone n)

end Steps

/-- One coroutine is pushed between the exchange of `cancel` and its `wake_all`,
and is scheduled by its own `wake_all`; another one by that of `cancel`. -/
def suspendsWhileCancelled : List (Action (Fin 3)) :=
  [.coAwait 0, .ready 0, .suspend 0, .list 0 (.addLoad 0 0),
    .list 0 (.addLink 0 0 none), .coAwait 1, .ready 1, .suspend 1,
    .list 1 (.addLoad 1 1), .callCancel 2, .exchange 2,
    .list 0 (.addCas 0 0 none), .recheck 0, .list 0 (.exchange 0),
    .list 1 (.addLink 1 1 none), .list 1 (.addCas 1 1 none),
    .callbacksDone 2, .list 2 (.exchange 2), .list 2 (.walkNext 2 1),
    .list 0 (.walkNext 0 0), .list 0 (.schedule 0 0 none), .resume 0,
    .recheck 1, .list 1 (.exchange 1), .list 2 (.schedule 2 1 none)]

theorem missesNone_suspendsWhileCancelled :
    MissesNone ((system (Fin 3)).after (initialState (Fin 3))
      suspendsWhileCancelled) :=
  missesNone (Fin 3) _
    (TransitionSystem.Executes.reachable (.init rfl) (by decide))

end CancellationAwaiter
end Ethreads
