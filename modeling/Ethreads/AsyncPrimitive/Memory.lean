import Ethreads.AsyncPrimitive.Waking

/-!
# Lists on one memory

The nodes of several lists share the memory of their fields `next`.  As long as
a node is added to a list only when it is in none, every node is in one place
of one list, and no list sees the fields of its nodes change under it.
-/

namespace Ethreads
namespace AsyncPrimitive

variable {ι τ ν γ : Type*}

/-- Every node is in one place of one list. -/
structure Apart (lists : ι → State τ ν γ) (next : ν → Option ν) : Prop where
  owned : ∀ i, Owned { lists i with next := next }
  apart : ∀ i k n, (lists i).place n ≠ .outside →
    (lists k).place n ≠ .outside → i = k

/-- A step adds only a node that is in no list, and swings the head of the list
only to the current successor. -/
def AddsApart (lists : ι → State τ ν γ) (s : State τ ν γ) :
    Action τ ν γ → Prop
  | .callAdd _ n => ∀ k, (lists k).place n = .outside
  | .wakeCas _ h o => s.next h = o
  | _ => True

instance [Fintype ι] [DecidableEq τ] [DecidableEq ν]
    (lists : ι → State τ ν γ) (s : State τ ν γ) (a : Action τ ν γ) :
    Decidable (AddsApart lists s a) := by
  induction a using Action.casesOn <;> dsimp only [AddsApart] <;> infer_instance

theorem Owned.congr_fired {s : State τ ν γ} (h : Owned s)
    (fired : γ → Bool) : Owned { s with fired := fired } :=
  ⟨h.listed, h.owns, h.scheduled⟩

/-- The lists before anybody has waited. -/
theorem apart_initialState :
    Apart (fun _ : ι => initialState τ ν γ) (fun _ => none) := by
  refine ⟨fun _ => owned_initialState, fun i k n hi => absurd rfl hi⟩

variable [DecidableEq ι]

/-- One list makes a step that writes fields of its own nodes only and takes in
only nodes that are in no list. -/
theorem Apart.update {lists : ι → State τ ν γ} {next : ν → Option ν}
    (h : Apart lists next) {i : ι} {l : State τ ν γ} (hl : Owned l)
    (hfields : ∀ n, (lists i).place n = .outside → l.next n = next n)
    (hplace : ∀ n, l.place n ≠ .outside →
      (lists i).place n ≠ .outside ∨ ∀ k, (lists k).place n = .outside) :
    Apart (Function.update lists i l) l.next := by
  have hself : Function.update lists i l i = l := Function.update_self ..
  have hother : ∀ {k}, k ≠ i → Function.update lists i l k = lists k :=
    fun hk => Function.update_of_ne hk ..
  constructor
  · intro k
    by_cases hk : k = i
    · rw [hk, hself]
      exact hl
    · rw [hother hk]
      refine (h.owned k).congr fun n hn => hfields n ?_
      by_contra hni
      exact hk (h.apart k i n hn hni)
  · have hnew : ∀ {k n}, k ≠ i → l.place n ≠ .outside →
        (lists k).place n ≠ .outside → False := by
      intro k n hk hl' hn
      rcases hplace n hl' with hi | hout
      · exact hk (h.apart k i n hn hi)
      · exact hn (hout k)
    intro j k n hj hk
    by_cases hji : j = i
    · by_cases hki : k = i
      · rw [hji, hki]
      · rw [hji, hself] at hj
        rw [hother hki] at hk
        exact (hnew hki hj hk).elim
    · by_cases hki : k = i
      · rw [hki, hself] at hk
        rw [hother hji] at hj
        exact (hnew hji hk hj).elim
      · rw [hother hji] at hj
        rw [hother hki] at hk
        exact h.apart j k n hj hk

variable [DecidableEq τ] [DecidableEq ν] [DecidableEq γ]

/-- A step inside one of the three functions takes in no node. -/
theorem place_eq_outside_next {gate : ν → Option γ} {s : State τ ν γ}
    {a : Action τ ν γ} {t : τ} (h : Owned s) (ha : Enabled gate s a)
    (hrun : a.runner = some t) {n : ν} (hn : s.place n = .outside) :
    (next gate s a).place n = .outside := by
  rcases place_next_cases h ha hrun n with
    hsame | ⟨hold, -⟩ | ⟨hold, -⟩ | ⟨hold, -⟩
  · exact hsame.trans hn
  · exact nomatch hold.symm.trans hn
  · exact nomatch hold.symm.trans hn
  · exact nomatch hold.symm.trans hn

/-- One list makes a step on the common memory. -/
theorem Apart.step {lists : ι → State τ ν γ} {mem : ν → Option ν}
    (h : Apart lists mem) {gate : ν → Option γ} {fired : γ → Bool} {i : ι}
    {a : Action τ ν γ}
    (ha : Enabled gate { lists i with next := mem, fired := fired } a)
    (hadds : AddsApart lists { lists i with next := mem, fired := fired } a) :
    Apart
      (Function.update lists i
        (next gate { lists i with next := mem, fired := fired } a))
      (next gate { lists i with next := mem, fired := fired } a).next := by
  have howned := (h.owned i).congr_fired fired
  have hfresh : AddsFresh { lists i with next := mem, fired := fired } a := by
    cases a with
    | callAdd t n => exact hadds i
    | _ => trivial
  have hswings :
      SwingsToNext { lists i with next := mem, fired := fired } a := by
    cases a with
    | wakeCas t n o => exact hadds
    | _ => trivial
  refine h.update (owned_next howned ha hfresh hswings) (fun n hn => ?_)
    fun n hn => ?_
  · exact next_eq_of_outside howned ha hn
  · by_cases hout : (lists i).place n = .outside
    · right
      cases hrun : a.runner with
      | some t =>
          exact absurd (place_eq_outside_next howned ha hrun hout) hn
      | none =>
          cases a with
          | callAdd t m =>
              by_cases hnm : n = m
              · exact hnm ▸ hadds
              · exact absurd ((Function.update_of_ne hnm ..).trans hout) hn
          | callWakeOne t | callWakeAll t | fire g => exact absurd hout hn
          | resume m =>
              by_cases hnm : n = m
              · subst hnm
                exact absurd (Function.update_self ..) hn
              · exact absurd ((Function.update_of_ne hnm ..).trans hout) hn
          | _ => exact nomatch hrun
    · exact .inl hout

end AsyncPrimitive
end Ethreads
