import Mathlib.Algebra.GroupWithZero.Nat
import Mathlib.Data.List.Infix
import Mathlib.Logic.Function.Basic
import Mathlib.Tactic.Common

/-!
# Labelled transition systems

A concurrent program is a set of initial states together with guarded atomic
actions.  An action is enabled by a predicate on the state and rewrites the
state by a total function, so that a finite schedule of actions can be
evaluated.

The rules proved here are the only inductions over runs: invariants of all
reachable states, invariants of the runs whose steps meet a side condition,
relations between an earlier and a later state of one run, and the projection
of a run to a component.
-/

namespace Ethreads

/-- A labelled transition system given by guarded atomic actions. -/
structure TransitionSystem (σ α : Type*) where
  Initial : σ → Prop
  Enabled : σ → α → Prop
  next : σ → α → σ

namespace TransitionSystem

variable {σ α : Type*} (M : TransitionSystem σ α)

/-! ## Schedules -/

/-- The state reached from `s` by performing the actions of a schedule. -/
def after (s : σ) : List α → σ
  | [] => s
  | a :: as => after (M.next s a) as

/-- Every action of the schedule is enabled when its turn comes. -/
def Executes (s : σ) : List α → Prop
  | [] => True
  | a :: as => M.Enabled s a ∧ Executes (M.next s a) as

instance decidableExecutes [∀ s a, Decidable (M.Enabled s a)] :
    ∀ (s : σ) (as : List α), Decidable (M.Executes s as)
  | _, [] => isTrue trivial
  | s, a :: as =>
      have := decidableExecutes (M.next s a) as
      inferInstanceAs (Decidable (_ ∧ _))

@[simp] theorem after_nil (s : σ) : M.after s [] = s := rfl

@[simp] theorem after_cons (s : σ) (a : α) (as : List α) :
    M.after s (a :: as) = M.after (M.next s a) as := rfl

@[simp] theorem executes_nil (s : σ) : M.Executes s [] := trivial

@[simp] theorem executes_cons (s : σ) (a : α) (as : List α) :
    M.Executes s (a :: as) ↔
      M.Enabled s a ∧ M.Executes (M.next s a) as := Iff.rfl

theorem after_append (s : σ) (as bs : List α) :
    M.after s (as ++ bs) = M.after (M.after s as) bs := by
  induction as generalizing s with
  | nil => rfl
  | cons a as ih => exact ih (M.next s a)

/-! ## Reachable states -/

/-- States reached by runs whose every step meets the condition `P` in the
state it is taken from. -/
inductive ReachableWhere (P : σ → α → Prop) : σ → Prop
  | init {s : σ} : M.Initial s → ReachableWhere P s
  | step {s : σ} {a : α} :
      ReachableWhere P s → M.Enabled s a → P s a →
        ReachableWhere P (M.next s a)

abbrev Reachable : σ → Prop :=
  M.ReachableWhere fun _ _ => True

/-- `M.Leads s s'` says that some run continues from `s` to `s'`. -/
inductive Leads : σ → σ → Prop
  | refl (s : σ) : Leads s s
  | step {s s' : σ} {a : α} :
      Leads s s' → M.Enabled s' a → Leads s (M.next s' a)

variable {M}

theorem ReachableWhere.mono {P Q : σ → α → Prop}
    (hPQ : ∀ s a, P s a → Q s a) {s : σ} (hs : M.ReachableWhere P s) :
    M.ReachableWhere Q s := by
  induction hs with
  | init h0 => exact .init h0
  | step _ ha hP ih => exact .step ih ha (hPQ _ _ hP)

theorem ReachableWhere.reachable {P : σ → α → Prop} {s : σ}
    (hs : M.ReachableWhere P s) : M.Reachable s :=
  hs.mono fun _ _ _ => trivial

/-- The invariant rule for runs with a side condition. -/
theorem ReachableWhere.invariant {P : σ → α → Prop} {s : σ}
    (hs : M.ReachableWhere P s) (I : σ → Prop)
    (hinit : ∀ s, M.Initial s → I s)
    (hstep : ∀ s a, I s → M.Enabled s a → P s a → I (M.next s a)) :
    I s := by
  induction hs with
  | init h0 => exact hinit _ h0
  | step _ ha hP ih => exact hstep _ _ ih ha hP

theorem Reachable.invariant {s : σ} (hs : M.Reachable s) (I : σ → Prop)
    (hinit : ∀ s, M.Initial s → I s)
    (hstep : ∀ s a, I s → M.Enabled s a → I (M.next s a)) : I s :=
  ReachableWhere.invariant hs I hinit fun s a hI ha _ => hstep s a hI ha

/-- The invariant rule relative to an invariant already established. -/
theorem ReachableWhere.invariant_of {P : σ → α → Prop} {s : σ}
    (hs : M.ReachableWhere P s) {J : σ → Prop} (I : σ → Prop)
    (hJ : ∀ s, M.ReachableWhere P s → J s)
    (hinit : ∀ s, M.Initial s → I s)
    (hstep : ∀ s a, J s → I s → M.Enabled s a → P s a → I (M.next s a)) :
    I s := by
  induction hs with
  | init h0 => exact hinit _ h0
  | step hs ha hP ih => exact hstep _ _ (hJ _ hs) ih ha hP

theorem Reachable.invariant_of {s : σ} (hs : M.Reachable s) {J : σ → Prop}
    (I : σ → Prop) (hJ : ∀ s, M.Reachable s → J s)
    (hinit : ∀ s, M.Initial s → I s)
    (hstep : ∀ s a, J s → I s → M.Enabled s a → I (M.next s a)) : I s :=
  ReachableWhere.invariant_of hs I hJ hinit
    fun s a hJ hI ha _ => hstep s a hJ hI ha

/-- The trace rule: a condition on the steps that every state a step leads to
shows for the past is a condition on the state reached. -/
theorem reachableWhere_iff {P : σ → α → Prop} {I : σ → Prop}
    (hinit : ∀ s, M.Initial s → I s)
    (hstep : ∀ s a, M.Reachable s → I s → M.Enabled s a → P s a →
      I (M.next s a))
    (hback : ∀ s a, M.Reachable s → M.Enabled s a → I (M.next s a) →
      I s ∧ P s a) {s : σ} :
    M.ReachableWhere P s ↔ M.Reachable s ∧ I s := by
  constructor
  · intro hs
    exact ⟨hs.reachable, hs.invariant_of I (fun _ hs => hs.reachable) hinit
      fun s a hs hI ha hP => hstep s a hs hI ha hP⟩
  · rintro ⟨hs, hI⟩
    induction hs with
    | init h0 => exact .init h0
    | step hs ha _ ih =>
        obtain ⟨hold, hP⟩ := hback _ _ hs ha hI
        exact .step (ih hold) ha hP

/-- The projection rule: a run of a composite system projects to a run of a
component that takes part in each of its steps with one step or with none. -/
theorem ReachableWhere.project {τ β : Type*} {N : TransitionSystem τ β}
    {P : σ → α → Prop} {Q : τ → β → Prop} {s : σ}
    (hs : M.ReachableWhere P s) (f : σ → τ)
    (hinit : ∀ s, M.Initial s → N.Initial (f s))
    (hstep : ∀ s a, M.ReachableWhere P s → M.Enabled s a → P s a →
      f (M.next s a) = f s ∨
        ∃ b, N.Enabled (f s) b ∧ Q (f s) b ∧
          f (M.next s a) = N.next (f s) b) :
    N.ReachableWhere Q (f s) := by
  induction hs with
  | init h0 => exact .init (hinit _ h0)
  | step hs ha hP ih =>
      rcases hstep _ _ hs ha hP with heq | ⟨b, hb, hQ, heq⟩
      · rw [heq]
        exact ih
      · rw [heq]
        exact .step ih hb hQ

theorem Reachable.leads {s s' : σ} (hs : M.Reachable s)
    (hss : M.Leads s s') : M.Reachable s' := by
  induction hss with
  | refl => exact hs
  | step _ ha ih => exact .step ih ha trivial

/-- A property kept by every enabled action persists along a run. -/
theorem Leads.invariant {s s' : σ} (hss : M.Leads s s') (I : σ → Prop)
    (hstep : ∀ s a, I s → M.Enabled s a → I (M.next s a)) (hI : I s) :
    I s' := by
  induction hss with
  | refl => exact hI
  | step _ ha ih => exact hstep _ _ ih ha

theorem Leads.trans {s s' s'' : σ} (h : M.Leads s s')
    (h' : M.Leads s' s'') : M.Leads s s'' := by
  induction h' with
  | refl => exact h
  | step _ ha ih => exact .step ih ha

/-- Some continuation of the run reaches a state with the property. -/
def MayReach (M : TransitionSystem σ α) (s : σ) (B : σ → Prop) : Prop :=
  ∃ s', M.Leads s s' ∧ B s'

theorem MayReach.of_now {s : σ} {B : σ → Prop} (h : B s) : M.MayReach s B :=
  ⟨s, .refl s, h⟩

theorem MayReach.of_next {s : σ} {B : σ → Prop} {a : α}
    (ha : M.Enabled s a) (h : M.MayReach (M.next s a) B) : M.MayReach s B := by
  obtain ⟨s', hleads, hB⟩ := h
  have hstep : M.Leads s (M.next s a) := .step (.refl s) ha
  exact ⟨s', hstep.trans hleads, hB⟩

theorem Executes.append {s : σ} {l l' : List α} (hl : M.Executes s l)
    (hl' : M.Executes (M.after s l) l') : M.Executes s (l ++ l') := by
  induction l generalizing s with
  | nil => exact hl'
  | cons a l ih => exact ⟨hl.1, ih hl.2 hl'⟩

theorem Executes.reachable {s : σ} {l : List α} (hs : M.Reachable s)
    (hl : M.Executes s l) : M.Reachable (M.after s l) := by
  induction l generalizing s with
  | nil => exact hs
  | cons a l ih => exact ih (.step hs hl.1 trivial) hl.2

theorem Executes.leads {s : σ} {l : List α} (hl : M.Executes s l) :
    M.Leads s (M.after s l) := by
  induction l generalizing s with
  | nil => exact .refl s
  | cons a l ih => exact Leads.trans (.step (.refl s) hl.1) (ih hl.2)

/-- The system that only takes the steps that meet a side condition. -/
def restrict (M : TransitionSystem σ α) (P : σ → α → Prop) :
    TransitionSystem σ α where
  Initial := M.Initial
  Enabled s a := M.Enabled s a ∧ P s a
  next := M.next

instance {P : σ → α → Prop} {s : σ} {a : α} [Decidable (M.Enabled s a)]
    [Decidable (P s a)] : Decidable ((M.restrict P).Enabled s a) :=
  inferInstanceAs (Decidable (_ ∧ _))

theorem Executes.reachableWhere {P : σ → α → Prop} {s : σ} {l : List α}
    (hs : M.ReachableWhere P s) (hl : (M.restrict P).Executes s l) :
    M.ReachableWhere P (M.after s l) := by
  induction l generalizing s with
  | nil => exact hs
  | cons a l ih => exact ih (.step hs hl.1.1 hl.1.2) hl.2

/-- The comparison rule: two side conditions that agree as long as an invariant
holds allow the same runs, if the steps that they allow keep the invariant. -/
theorem executes_restrict_congr {P Q : σ → α → Prop} (I : σ → Prop)
    (hPQ : ∀ s a, I s → M.Enabled s a → (P s a ↔ Q s a))
    (hstep : ∀ s a, I s → M.Enabled s a → Q s a → I (M.next s a)) {s : σ}
    (hs : I s) (l : List α) :
    (M.restrict P).Executes s l ↔ (M.restrict Q).Executes s l := by
  induction l generalizing s with
  | nil => exact Iff.rfl
  | cons a l ih =>
      constructor
      · rintro ⟨⟨ha, hP⟩, hl⟩
        have hQ := (hPQ s a hs ha).mp hP
        exact ⟨⟨ha, hQ⟩, (ih (hstep s a hs ha hQ)).mp hl⟩
      · rintro ⟨⟨ha, hQ⟩, hl⟩
        exact ⟨⟨ha, (hPQ s a hs ha).mpr hQ⟩, (ih (hstep s a hs ha hQ)).mpr hl⟩

end TransitionSystem

/-! ## Numerals

Schedules that are written out number their parties by `Fin 1`, `Fin 2` or
`Fin 3`. -/

instance neZeroOne : NeZero 1 := ⟨Nat.succ_ne_zero 0⟩

instance neZeroTwo : NeZero 2 := ⟨Nat.succ_ne_zero 1⟩

instance neZeroThree : NeZero 3 := ⟨Nat.succ_ne_zero 2⟩

end Ethreads
