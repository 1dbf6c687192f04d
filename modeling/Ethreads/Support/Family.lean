import Ethreads.Support.TransitionSystem

/-!
# Families of parts in a shared state

Many parts of one kind take steps of their own in a state that they share with
each other and with the rest of the program.  A step of a part depends on the
shared state and changes it, but it neither reads nor changes another part, so
that a property of a single part is an invariant of the family as soon as the
steps of one part keep it.
-/

namespace Ethreads

/-- The steps of one part, and what the rest of the program does. -/
structure Family (ω σ ξ ε β : Type*) where
  initial : ω → ξ
  OtherEnabled : σ → ε → Prop
  otherNext : σ → ε → σ
  PartEnabled : ω → σ → ξ → β → Prop
  sharedNext : ω → σ → ξ → β → σ
  partNext : ω → σ → ξ → β → ξ

namespace Family

variable {ω σ ξ ε β : Type*}

/-- The shared state and the states of the parts. -/
structure State (ω σ ξ : Type*) where
  shared : σ
  part : ω → ξ

inductive Action (ω ε β : Type*)
  | other (e : ε)
  | step (w : ω) (b : β)
  deriving DecidableEq, Repr

variable [DecidableEq ω] (F : Family ω σ ξ ε β)

def Enabled (s : State ω σ ξ) : Action ω ε β → Prop
  | .other e => F.OtherEnabled s.shared e
  | .step w b => F.PartEnabled w s.shared (s.part w) b

def next (s : State ω σ ξ) : Action ω ε β → State ω σ ξ
  | .other e => { s with shared := F.otherNext s.shared e }
  | .step w b =>
      { shared := F.sharedNext w s.shared (s.part w) b
        part := Function.update s.part w
          (F.partNext w s.shared (s.part w) b) }

/-- The family as a transition system, from any shared state. -/
def system : TransitionSystem (State ω σ ξ) (Action ω ε β) where
  Initial s := s.part = F.initial
  Enabled := F.Enabled
  next := F.next

instance [∀ x e, Decidable (F.OtherEnabled x e)]
    [∀ w x y b, Decidable (F.PartEnabled w x y b)] (s : State ω σ ξ)
    (a : Action ω ε β) : Decidable (F.system.Enabled s a) :=
  match a with
  | .other e => inferInstanceAs (Decidable (F.OtherEnabled s.shared e))
  | .step w b =>
      inferInstanceAs (Decidable (F.PartEnabled w s.shared (s.part w) b))

/-- A condition on the steps of the parts. -/
def Where (P : ω → σ → ξ → β → Prop) (s : State ω σ ξ) :
    Action ω ε β → Prop
  | .other _ => True
  | .step w b => P w s.shared (s.part w) b

instance {P : ω → σ → ξ → β → Prop} [∀ w x y b, Decidable (P w x y b)]
    (s : State ω σ ξ) (a : Action ω ε β) : Decidable (Where P s a) :=
  match a with
  | .other _ => inferInstanceAs (Decidable True)
  | .step w b => inferInstanceAs (Decidable (P w s.shared (s.part w) b))

@[simp] theorem part_next_self (s : State ω σ ξ) (w : ω) (b : β) :
    (F.next s (.step w b)).part w = F.partNext w s.shared (s.part w) b :=
  Function.update_self ..

@[simp] theorem shared_next_step (s : State ω σ ξ) (w : ω) (b : β) :
    (F.next s (.step w b)).shared = F.sharedNext w s.shared (s.part w) b :=
  rfl

variable {F}

/-- The rule for an invariant of the parts: it is kept by each of their
steps. -/
theorem part_invariant {P : State ω σ ξ → Action ω ε β → Prop}
    {s : State ω σ ξ} (hs : F.system.ReachableWhere P s)
    (I : ω → ξ → Prop) (hinit : ∀ w, I w (F.initial w))
    (hstep : ∀ s w b, I w (s.part w) →
      F.PartEnabled w s.shared (s.part w) b → P s (.step w b) →
        I w (F.partNext w s.shared (s.part w) b)) (w : ω) :
    I w (s.part w) := by
  refine hs.invariant (fun s => ∀ w, I w (s.part w)) ?_ ?_ w
  · intro s hpart w
    rw [show s.part = F.initial from hpart]
    exact hinit w
  · intro s a h ha hP w
    cases a with
    | other e => exact h w
    | step u b =>
        by_cases hw : w = u
        · subst hw
          exact (F.part_next_self s w b).symm ▸ hstep s w b (h w) ha hP
        · have hother : (F.next s (.step u b)).part w = s.part w :=
            Function.update_of_ne hw ..
          exact hother.symm ▸ h w

end Family
end Ethreads
