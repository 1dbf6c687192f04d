import Ethreads.Support.TransitionSystem
import Mathlib.Order.WellFounded

/-!
# Reaching a state

Rules for `MayReach`: runs are put together, a run that lowers a variant as
long as the goal is not reached gets there, and a run of a component is a run
of any system that can follow each of its steps.  A variant that no step raises
bounds how many steps of all runs lower it.
-/

namespace Ethreads
namespace TransitionSystem

variable {σ τ α β : Type*} {M : TransitionSystem σ α}
  {N : TransitionSystem τ β}

theorem MayReach.mono {s : σ} {A B : σ → Prop} (hAB : ∀ s, A s → B s)
    (h : M.MayReach s A) : M.MayReach s B := by
  obtain ⟨s', hleads, hA⟩ := h
  exact ⟨s', hleads, hAB s' hA⟩

/-- A run to an intermediate state is continued from there. -/
theorem MayReach.trans {s : σ} {A B : σ → Prop} (h : M.MayReach s A)
    (hA : ∀ s, A s → M.MayReach s B) : M.MayReach s B := by
  obtain ⟨s', hleads, hs'⟩ := h
  obtain ⟨s'', hleads', hs''⟩ := hA s' hs'
  exact ⟨s'', hleads.trans hleads', hs''⟩

theorem MayReach.reachable {s : σ} {B : σ → Prop} (hs : M.Reachable s)
    (h : M.MayReach s B) : M.MayReach s fun s' => M.Reachable s' ∧ B s' := by
  obtain ⟨s', hleads, hB⟩ := h
  exact ⟨s', hleads, hs.leads hleads, hB⟩

theorem Leads.of_restrict {P : σ → α → Prop} {s s' : σ}
    (h : (M.restrict P).Leads s s') : M.Leads s s' := by
  induction h with
  | refl => exact .refl s
  | step _ ha ih => exact .step ih ha.1

/-- What is reached under a side condition is reachable without it. -/
theorem MayReach.reachable_of_restrict {P : σ → α → Prop} {s : σ}
    {B : σ → Prop} (hs : M.Reachable s) (h : (M.restrict P).MayReach s B) :
    (M.restrict P).MayReach s fun s' => M.Reachable s' ∧ B s' := by
  obtain ⟨s', hleads, hB⟩ := h
  exact ⟨s', hleads, hs.leads hleads.of_restrict, hB⟩

/-- The variant rule: the goal is reached if each state short of it has an
enabled action that keeps the invariant and lowers the rank. -/
theorem MayReach.of_variant {ρ : Type*} [LT ρ] [WellFoundedLT ρ]
    {I B : σ → Prop} (rank : σ → ρ)
    (hstep : ∀ s, I s → ¬B s → ∃ a, M.Enabled s a ∧ I (M.next s a) ∧
      rank (M.next s a) < rank s) {s : σ} (hs : I s) :
    M.MayReach s B := by
  have hwf : WellFounded fun s s' => rank s < rank s' :=
    InvImage.wf rank wellFounded_lt
  induction s using hwf.induction with
  | _ s ih =>
      by_cases hB : B s
      · exact .of_now hB
      · obtain ⟨a, ha, hI, hlt⟩ := hstep s hs hB
        exact .of_next ha (ih (M.next s a) hlt hI)

/-- The round rule: the goal is reached if from each state short of it a run
leads to one that keeps the invariant and has a lower rank. -/
theorem MayReach.of_rounds {ρ : Type*} [LT ρ] [WellFoundedLT ρ]
    {I B : σ → Prop} (rank : σ → ρ)
    (hround : ∀ s, I s → ¬B s →
      M.MayReach s fun s' => I s' ∧ rank s' < rank s) {s : σ} (hs : I s) :
    M.MayReach s B := by
  have hwf : WellFounded fun s s' => rank s < rank s' :=
    InvImage.wf rank wellFounded_lt
  induction s using hwf.induction with
  | _ s ih =>
      by_cases hB : B s
      · exact .of_now hB
      · exact (hround s hs hB).trans fun s' hs' => ih s' hs'.2 hs'.1

/-- The loop rule: each round leads to the next one, or out of the loop. -/
theorem MayReach.of_loop {A : ℕ → σ → Prop} {B : σ → Prop} {n : ℕ}
    (hround : ∀ i, i < n → ∀ s, A i s →
      M.MayReach s fun s' => A (i + 1) s' ∨ B s')
    (hend : ∀ s, A n s → M.MayReach s B) {i : ℕ} (hi : i ≤ n) {s : σ}
    (hs : A i s) : M.MayReach s B := by
  induction hi using Nat.decreasingInduction generalizing s with
  | self => exact hend s hs
  | of_succ i hi ih =>
      refine (hround i hi s hs).trans fun s' hs' => ?_
      rcases hs' with hnext | hB
      · exact ih hnext
      · exact .of_now hB

/-- The lifting rule: a system that can follow each step of a component
reaches what the component reaches. -/
theorem MayReach.lift {R : τ → σ → Prop} {B : τ → Prop}
    (hstep : ∀ t s b, R t s → N.Enabled t b →
      ∃ a, M.Enabled s a ∧ R (N.next t b) (M.next s a))
    {t : τ} {s : σ} (hR : R t s) (h : N.MayReach t B) :
    M.MayReach s fun s' => ∃ t', R t' s' ∧ B t' := by
  obtain ⟨t', hleads, hB⟩ := h
  suffices hfollow : ∃ s', M.Leads s s' ∧ R t' s' by
    obtain ⟨s', hleads', hR'⟩ := hfollow
    exact ⟨s', hleads', t', hR', hB⟩
  clear hB
  induction hleads with
  | refl => exact ⟨s, .refl s, hR⟩
  | step _ hb ih =>
      obtain ⟨s', hleads', hR'⟩ := ih
      obtain ⟨a, ha, hnext⟩ := hstep _ s' _ hR' hb
      exact ⟨M.next s' a, .step hleads' ha, hnext⟩

/-- The credit rule: if the steps that are counted lower the rank and only those
that give credit raise it, by one each, a run has no more of the former than the
rank it starts with and the latter together. -/
theorem Executes.countP_add_le_countP {I : σ → Prop} (rank : σ → ℕ)
    (p q : α → Bool) (hkeep : ∀ s a, I s → M.Enabled s a → I (M.next s a))
    (hstep : ∀ s a, I s → M.Enabled s a →
      rank (M.next s a) + (p a).toNat ≤ rank s + (q a).toNat)
    {s : σ} (hs : I s) {l : List α} (hl : M.Executes s l) :
    l.countP p + rank (M.after s l) ≤ rank s + l.countP q := by
  induction l generalizing s with
  | nil => exact Nat.le_of_eq (Nat.zero_add _)
  | cons a l ih =>
      have hrest := ih (hkeep s a hs hl.1) hl.2
      have hfirst := hstep s a hs hl.1
      have hcount : ∀ r : α → Bool,
          (a :: l).countP r = l.countP r + (r a).toNat := by
        intro r
        rw [List.countP_cons]
        cases r a <;> rfl
      rw [after_cons, hcount p, hcount q]
      omega

/-- The bound rule: if no step raises the rank and those that are counted lower
it, a run has no more of these than the rank it starts with. -/
theorem Executes.countP_add_le {I : σ → Prop} (rank : σ → ℕ) (p : α → Bool)
    (hkeep : ∀ s a, I s → M.Enabled s a → I (M.next s a))
    (hstep : ∀ s a, I s → M.Enabled s a →
      rank (M.next s a) + (p a).toNat ≤ rank s)
    {s : σ} (hs : I s) {l : List α} (hl : M.Executes s l) :
    l.countP p + rank (M.after s l) ≤ rank s := by
  have hcount := hl.countP_add_le_countP rank p (fun _ => false) hkeep hstep hs
  rwa [List.countP_false] at hcount

/-- If every step lowers the rank, it bounds the length of all runs. -/
theorem Executes.length_add_le {I : σ → Prop} (rank : σ → ℕ)
    (hkeep : ∀ s a, I s → M.Enabled s a → I (M.next s a))
    (hstep : ∀ s a, I s → M.Enabled s a → rank (M.next s a) < rank s)
    {s : σ} (hs : I s) {l : List α} (hl : M.Executes s l) :
    l.length + rank (M.after s l) ≤ rank s := by
  have hcount := hl.countP_add_le rank (fun _ => true) hkeep hstep hs
  rwa [List.countP_true] at hcount

end TransitionSystem
end Ethreads
