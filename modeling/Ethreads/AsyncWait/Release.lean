import Ethreads.AsyncWait.Stranding

/-!
# Coroutines continue when their wait is over

For primitives with waits that stay over.  A coroutine that `wake_all` has
taken out of the list is resumed without another test.  It continues in time in
runs in which `wake_all` only ever takes coroutines whose wait is over; if it
takes another one, its chain can be walked up to that coroutine, which is
resumed at once.
-/

namespace Ethreads
namespace AsyncWait

variable {τ σ ε κ : Type*}

/-- A wait that goes on once it has begun is over for good when it is over. -/
def Protocol.Permanent {P : Primitive σ ε κ} (R : Protocol P) : Prop :=
  ∀ k x, ¬P.Over k x → R.Issued k x

/-- What a coroutine has waited for that continues with this step. -/
def Action.continues : Action τ ε κ → Option κ
  | readyTrue _ k | resume _ k _ => some k
  | _ => none

/-- A coroutine that continues does so only when its wait is over. -/
def ContinuesInTime (P : Primitive σ ε κ) (s : State τ σ κ) : Prop :=
  ∀ a, Enabled P s a → ∀ k ∈ a.continues, P.Over k s.shared

/-- `wake_all` takes only coroutines whose wait is over. -/
def WakesOver (P : Primitive σ ε κ) (s : State τ σ κ) : Action τ ε κ → Prop
  | .list _ (.exchange _) =>
      ∀ t, s.list.place t = .listed →
        ∀ k ∈ (s.pc t).awaits, P.Over k s.shared
  | _ => True

instance [Fintype τ] [DecidableEq τ] (P : Primitive σ ε κ) (s : State τ σ κ)
    (a : Action τ ε κ) : Decidable (WakesOver P s a) := by
  induction a using Action.casesOn with
  | list t b =>
      induction b using AsyncPrimitive.Action.casesOn <;>
        dsimp only [WakesOver] <;> infer_instance
  | _ => exact inferInstanceAs (Decidable True)

section Steps

variable [DecidableEq τ] {P : Primitive σ ε κ} {R : Protocol P}
  {s : State τ σ κ} {a : Action τ ε κ}

/-! ## Runs in which `wake_all` takes what is over -/

/-- The waits under way stay over once they are. -/
def AwaitsIssued (R : Protocol P) (s : State τ σ κ) : Prop :=
  ∀ t k, (s.pc t).awaits = some k → R.Issued k s.shared

/-- The coroutines that were taken out of the list have their waits over. -/
def DeliveredOver (P : Primitive σ ε κ) (s : State τ σ κ) : Prop :=
  ∀ t k, (s.pc t).awaits = some k → (s.list.place t).isDelivered = true →
    P.Over k s.shared

theorem awaitsIssued_next (hR : R.Permanent) (h : AwaitsIssued R s)
    (ha : Enabled P s a) : AwaitsIssued R (next P s a) := by
  intro t k hk
  rcases awaits_next hk with hold | rfl
  · exact R.issued_next ha (h t k hold)
  · exact R.issued_next ha (hR k s.shared ha.2.1)

omit [DecidableEq τ] in
theorem Registered.suspended_of_listed (hreg : Registered s) {t : τ} {k : κ}
    (ht : s.list.place t = .listed) (hk : (s.pc t).awaits = some k) :
    ∃ r, s.pc t = .suspended k r := by
  cases hpc : s.pc t with
  | adding j => cases ht.symm.trans (hreg.adding t j hpc)
  | suspended j r =>
      rw [hpc] at hk
      cases hk
      exact ⟨r, rfl⟩
  | _ => rw [hpc] at hk; cases hk

theorem delivered_next (hreg : Registered s) (ha : Enabled P s a) {t : τ}
    (ht : ((next P s a).list.place t).isDelivered = true) :
    (s.list.place t).isDelivered = true ∨
      s.list.place t = .listed ∧ ∃ u, a = .list u (.exchange u) := by
  rw [next_list] at ht
  cases hb : s.listPart P a with
  | none =>
      rw [hb] at ht
      exact .inl ht
  | some b =>
      rw [hb] at ht
      rcases AsyncPrimitive.isDelivered_next hreg.owned hreg.wakesAll
        (enabled_listPart ha hb) ht with hdelivered | ⟨hlisted, u, rfl⟩
      · exact .inl hdelivered
      · refine .inr ⟨hlisted, ?_⟩
        rcases listPart_cases hb with ⟨⟨-, hcall⟩ | hcall, -⟩ |
          ⟨k, -, hcall⟩ | ⟨k, r, -, hcall⟩ | hlist
        · cases hcall
        · cases hcall
        · cases hcall
        · cases hcall
        · have hrun := hlist ▸ ha
          obtain rfl : u = a.agent := Option.some.inj hrun.1
          exact ⟨_, hlist⟩

theorem deliveredOver_next (hreg : Registered s) (hissued : AwaitsIssued R s)
    (h : DeliveredOver P s) (ha : Enabled P s a) (hP : WakesOver P s a) :
    DeliveredOver P (next P s a) := by
  intro t k hk ht
  rcases awaits_next hk with hold | rfl
  · apply R.over_next ha (hissued t k hold)
    rcases delivered_next hreg ha ht with hdelivered | ⟨hlisted, u, rfl⟩
    · exact h t k hold hdelivered
    · exact hP t hlisted k hold
  · have hadding : (next P s (.readyFalse t k)).list.place t = .adding t :=
      Function.update_self ..
    rw [hadding] at ht
    cases ht

theorem continuesInTime_of_wakesOver {x : σ} (hR : R.Permanent)
    (hs : (system P x τ).ReachableWhere (WakesOver P) s) :
    ContinuesInTime P s := by
  have hinv : Registered s ∧ AwaitsIssued R s ∧ DeliveredOver P s := by
    refine hs.invariant
      (fun s => Registered s ∧ AwaitsIssued R s ∧ DeliveredOver P s) ?_ ?_
    · rintro s rfl
      exact ⟨registered_initialState x, nofun, nofun⟩
    · intro s a h ha hP
      exact ⟨registered_next R.wakesAll h.1 ha,
        awaitsIssued_next hR h.2.1 ha,
        deliveredOver_next h.1 h.2.1 h.2.2 ha hP⟩
  obtain ⟨hreg, -, hdelivered⟩ := hinv
  intro a ha k hk
  cases a with
  | readyTrue t j =>
      cases hk
      exact ha.2
  | resume t j r =>
      cases hk
      apply hdelivered t k
      · rw [ha.1]
        rfl
      · rw [(hreg.owned.scheduled.2 t).mp ha.2]
        rfl
  | _ => cases hk

/-! ## Walking the chain -/

omit [DecidableEq τ] in
theorem not_continuesInTime {t : τ} {k : κ} {r : Bool}
    (hpc : s.pc t = .suspended k r) (hscheduled : t ∈ s.list.scheduled)
    (hover : ¬P.Over k s.shared) : ¬ContinuesInTime P s := by
  intro h
  exact hover (h (.resume t k r) ⟨hpc, hscheduled⟩ k rfl)

/-- An agent that walks the chain `ns` resumes its coroutines in turn, also
one whose wait goes on. -/
theorem mayContinueEarly_of_walk {x : σ} {u t : τ} {k : κ} {r : Bool}
    {o : Option τ} {ns : List τ} (hlinked : Linked s.list.next o ns)
    (hu : s.list.pc u = AsyncPrimitive.walkWith o) (hut : t ≠ u)
    (ht : t ∈ ns) (hpc : s.pc t = .suspended k r)
    (hover : ¬P.Over k s.shared) :
    (system P x τ).MayReach s fun s' => ¬ContinuesInTime P s' := by
  induction ns generalizing s o with
  | nil => cases ht
  | cons n ns ih =>
      obtain ⟨rfl, hns⟩ := hlinked
      let s₁ := next P s (.list u (.walkNext u n))
      let s₂ := next P s₁ (.list u (.schedule u n (s.list.next n)))
      have hwalk : (system P x τ).Enabled s (.list u (.walkNext u n)) :=
        ⟨rfl, hu⟩
      have hdeliver : s₁.list.pc u = .deliver n (s.list.next n) :=
        Function.update_self ..
      have hschedule : (system P x τ).Enabled s₁
          (.list u (.schedule u n (s.list.next n))) :=
        ⟨rfl, hdeliver, rfl⟩
      have hpc₂ : s₂.pc t = .suspended k r := by
        rw [next_pc_of_ne hut, next_pc_of_ne hut]
        exact hpc
      refine .of_next hwalk (.of_next hschedule ?_)
      by_cases hnt : t = n
      · subst hnt
        have hscheduled : t ∈ s₂.list.scheduled :=
          List.mem_append_right _ List.mem_cons_self
        exact .of_now (not_continuesInTime hpc₂ hscheduled hover)
      · exact ih hns (Function.update_self ..)
          ((List.mem_cons.mp ht).resolve_left hnt) hpc₂ hover

/-- When `wake_all` takes a coroutine whose wait goes on, it may resume it
before the wait is over. -/
theorem mayContinueEarly_of_not_wakesOver {x : σ} (hP : P.WakesAll)
    (hs : (system P x τ).Reachable s) (ha : Enabled P s a)
    (hnot : ¬WakesOver P s a) :
    (system P x τ).MayReach (next P s a)
      fun s' => ¬ContinuesInTime P s' := by
  have hreg := registered_reachable hP hs
  cases a with
  | list u b =>
      cases b with
      | exchange v =>
          obtain rfl : v = u := Option.some.inj ha.1
          simp only [WakesOver, not_forall] at hnot
          obtain ⟨t, hlisted, k, hk, hover⟩ := hnot
          obtain ⟨r, hpc⟩ := hreg.suspended_of_listed hlisted hk
          have hne : t ≠ v := by
            rintro rfl
            have hin := hreg.inList_of_runner ha.1 ha.2
            rw [hpc] at hin
            cases hin
          obtain ⟨ns, hlinked, hns⟩ := hreg.owned.listed
          refine mayContinueEarly_of_walk (r := r) hlinked
            (Function.update_self ..) hne ((hns.2 t).mpr hlisted) ?_ hover
          rw [next_pc_of_ne hne]
          exact hpc
      | _ => exact absurd trivial hnot
  | _ => exact absurd trivial hnot

/-- Coroutines continue in time in the runs in which `wake_all` only takes
coroutines whose wait is over, and may continue early whenever it takes
another one. -/
theorem continuesInTime_of_wakesOver_and_mayReach_not (R : Protocol P)
    (hR : R.Permanent) (x : σ) (τ : Type*) [DecidableEq τ] :
    (∀ s : State τ σ κ, (system P x τ).ReachableWhere (WakesOver P) s →
      ContinuesInTime P s) ∧
    (∀ (s : State τ σ κ) a, (system P x τ).Reachable s →
      (system P x τ).Enabled s a → ¬WakesOver P s a →
        (system P x τ).MayReach ((system P x τ).next s a)
          fun s' => ¬ContinuesInTime P s') := by
  constructor
  · intro s hs
    exact continuesInTime_of_wakesOver hR hs
  · intro s a hs ha hnot
    exact mayContinueEarly_of_not_wakesOver R.wakesAll hs ha hnot

end Steps

end AsyncWait
end Ethreads
