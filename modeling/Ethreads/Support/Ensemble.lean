import Ethreads.Support.Variant

/-!
# Ensembles

A system may hold one run of another system for each index.  Its steps are
steps of one component each, as far as the rest of the state allows them, or
leave all components alone, and the steps of a component leave the rest of the
state alone.  So each component runs by its own system, and what a component
reaches with steps that are always allowed is reached in the whole.
-/

namespace Ethreads

/-- How a system `M` is made of components that run by `N`, and of the rest of
its state. -/
structure Ensemble {σ α τ β : Type*} (M : TransitionSystem σ α)
    (N : TransitionSystem τ β) (ι ρ : Type*) [DecidableEq ι] where
  get : σ → ι → τ
  rest : σ → ρ
  act : ι → β → α
  Allows : ρ → ι → β → Prop
  initial : ∀ s, M.Initial s → ∀ i, N.Initial (get s i)
  enabled_act : ∀ s i b, N.Enabled (get s i) b → Allows (rest s) i b →
    M.Enabled s (act i b)
  get_act : ∀ s i b, get (M.next s (act i b)) =
    Function.update (get s) i (N.next (get s i) b)
  rest_act : ∀ s i b, rest (M.next s (act i b)) = rest s
  cases_enabled : ∀ s a, M.Enabled s a → get (M.next s a) = get s ∨
    ∃ i b, a = act i b ∧ N.Enabled (get s i) b ∧ Allows (rest s) i b

namespace Ensemble

variable {σ α τ β ι ρ : Type*} [DecidableEq ι] {M : TransitionSystem σ α}
  {N : TransitionSystem τ β} (C : Ensemble M N ι ρ) {s : σ}

theorem get_act_self (s : σ) (i : ι) (b : β) :
    C.get (M.next s (C.act i b)) i = N.next (C.get s i) b := by
  rw [C.get_act, Function.update_self]

theorem get_act_of_ne (s : σ) {i j : ι} (hji : j ≠ i) (b : β) :
    C.get (M.next s (C.act i b)) j = C.get s j := by
  rw [C.get_act, Function.update_of_ne hji]

/-- What the steps of a component keep, the steps of all components keep. -/
theorem keeps_act {I : τ → Prop} {i j : ι} {b : β} (hj : I (C.get s j))
    (hstep : j = i → I (N.next (C.get s j) b)) :
    I (C.get (M.next s (C.act i b)) j) := by
  by_cases hji : j = i
  · subst hji
    rw [C.get_act_self]
    exact hstep rfl
  · rw [C.get_act_of_ne s hji]
    exact hj

theorem reachableWhere {Q : ι → β → Prop}
    (hQ : ∀ r i b, C.Allows r i b → Q i b) (hs : M.Reachable s) (i : ι) :
    N.ReachableWhere (fun _ b => Q i b) (C.get s i) := by
  refine hs.project (fun s => C.get s i) (fun s hs => C.initial s hs i)
    fun s a _ ha _ => ?_
  rcases C.cases_enabled s a ha with hsame | ⟨j, b, rfl, hb, hallows⟩
  · exact Or.inl (congrFun hsame i)
  · by_cases hij : i = j
    · subst hij
      exact Or.inr ⟨b, hb, hQ _ _ _ hallows, C.get_act_self s i b⟩
    · exact Or.inl (C.get_act_of_ne s hij b)

theorem reachable (hs : M.Reachable s) (i : ι) : N.Reachable (C.get s i) :=
  C.reachableWhere (Q := fun _ _ => True) (fun _ _ _ _ => trivial) hs i

/-- What a component reaches by itself is reached in the whole, and the rest of
the state stays as it is. -/
theorem mayReach {P : τ → β → Prop} {i : ι}
    (hP : ∀ t b, P t b → C.Allows (C.rest s) i b) {B : τ → Prop}
    (hB : (N.restrict P).MayReach (C.get s i) B) :
    M.MayReach s fun s' => B (C.get s' i) ∧ C.rest s' = C.rest s := by
  have hsame : C.get s i = C.get s i ∧ C.rest s = C.rest s := ⟨rfl, rfl⟩
  refine (hB.lift (M := M)
    (R := fun t s' => C.get s' i = t ∧ C.rest s' = C.rest s) ?_ hsame).mono ?_
  · rintro t s' b ⟨rfl, hrest⟩ ⟨hb, hallowed⟩
    refine ⟨C.act i b, C.enabled_act s' i b hb ?_, C.get_act_self s' i b,
      (C.rest_act s' i b).trans hrest⟩
    rw [hrest]
    exact hP _ b hallowed
  · rintro s' ⟨t, ⟨rfl, hrest⟩, ht⟩
    exact ⟨ht, hrest⟩

end Ensemble
end Ethreads
