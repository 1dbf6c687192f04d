import Ethreads.CoAwait.Model

/-!
# Sequential evaluation

A body runs on its own if every local task is replaced by what it completes
with.  The steps of this run keep what the body completes with, and each of
them costs a part of what was estimated for the whole body.

A slot is pending while its task was started and has not been awaited.  A body
that is joined destroys no task with a pending slot.
-/

namespace Ethreads
namespace CoAwait

open CoroTask (Completion)

universe u v

variable {V : Type u} {E : Type v}

/-- A local task as its coroutine sees it: the result that the next `get`
returns, and whether the task was started and not awaited. -/
structure Slot (V : Type u) (E : Type v) where
  value : Completion V E
  pending : Bool

def Slot.consume (movedFrom : V → V) (x : Slot V E) : Slot V E :=
  ⟨afterGet movedFrom x.value, false⟩

/-- A body with the slots of its local tasks. -/
structure Config (V : Type u) (E : Type v) where
  size : ℕ
  rest : Body V E size
  slots : Fin size → Slot V E

/-! ## Measures of a body -/

/-- No task with a pending slot is destroyed. -/
def Body.Joined (movedFrom : V → V) {n : ℕ} :
    Body V E n → (Fin n → Slot V E) → Prop
  | finish _, slots => ∀ i, (slots i).pending = false
  | create b child rest, slots =>
      child.Joined movedFrom Fin.elim0 ∧
        rest.Joined movedFrom
          (Fin.cons ⟨child.eval movedFrom Fin.elim0, b⟩ slots)
  | coAwait i rest, slots =>
      (rest (slots i).value).Joined movedFrom
        (Function.update slots i ((slots i).consume movedFrom))
  | drop rest, slots =>
      (slots 0).pending = false ∧ rest.Joined movedFrom (Fin.tail slots)

/-- How many steps the coroutine of the body and those below it take at
most. -/
def Body.cost (movedFrom : V → V) {n : ℕ} :
    Body V E n → (Fin n → Completion V E) → ℕ
  | finish (n := n) _, _ => n + 5
  | create _ child rest, env =>
      2 + child.cost movedFrom Fin.elim0 +
        rest.cost movedFrom (Fin.cons (child.eval movedFrom Fin.elim0) env)
  | coAwait i rest, env =>
      4 + (rest (env i)).cost movedFrom
        (Function.update env i (afterGet movedFrom (env i)))
  | drop rest, env => 1 + rest.cost movedFrom (Fin.tail env)

namespace Config

/-- The values of the slots. -/
def env (c : Config V E) (i : Fin c.size) : Completion V E :=
  (c.slots i).value

def eval (movedFrom : V → V) (c : Config V E) : Completion V E :=
  c.rest.eval movedFrom c.env

def Joined (movedFrom : V → V) (c : Config V E) : Prop :=
  c.rest.Joined movedFrom c.slots

def cost (movedFrom : V → V) (c : Config V E) : ℕ :=
  c.rest.cost movedFrom c.env

/-- One step of a body on its own. -/
inductive Step (movedFrom : V → V) : Config V E → Config V E → Prop
  | create {n : ℕ} (b : Bool) (child : Body V E 0) (rest : Body V E (n + 1))
      (slots : Fin n → Slot V E) :
      Step movedFrom ⟨n, .create b child rest, slots⟩
        ⟨n + 1, rest,
          Fin.cons ⟨child.eval movedFrom Fin.elim0, b⟩ slots⟩
  | start {n : ℕ} (i : Fin n) (rest : Completion V E → Body V E n)
      (slots : Fin n → Slot V E) :
      Step movedFrom ⟨n, .coAwait i rest, slots⟩
        ⟨n, .coAwait i rest,
          Function.update slots i ⟨(slots i).value, true⟩⟩
  | coAwait {n : ℕ} (i : Fin n) (rest : Completion V E → Body V E n)
      (slots : Fin n → Slot V E) :
      Step movedFrom ⟨n, .coAwait i rest, slots⟩
        ⟨n, rest (slots i).value,
          Function.update slots i ((slots i).consume movedFrom)⟩
  | drop {n : ℕ} (rest : Body V E n) (slots : Fin (n + 1) → Slot V E) :
      Step movedFrom ⟨n + 1, .drop rest, slots⟩ ⟨n, rest, Fin.tail slots⟩

variable {movedFrom : V → V} {c c' : Config V E}

theorem value_update {n : ℕ} (slots : Fin n → Slot V E) (i : Fin n)
    (x : Slot V E) :
    (fun j => (Function.update slots i x j).value) =
      Function.update (fun j => (slots j).value) i x.value := by
  funext j
  by_cases hj : j = i
  · subst hj
    rw [Function.update_self, Function.update_self]
  · rw [Function.update_of_ne hj, Function.update_of_ne hj]

theorem value_update_same {n : ℕ} (slots : Fin n → Slot V E) (i : Fin n)
    (b : Bool) :
    (fun j => (Function.update slots i ⟨(slots i).value, b⟩ j).value) =
      fun j => (slots j).value := by
  rw [value_update]
  exact Function.update_eq_self i _

theorem value_cons {n : ℕ} (slots : Fin n → Slot V E) (x : Slot V E) :
    (fun j => (Fin.cons (α := fun _ => Slot V E) x slots j).value) =
      Fin.cons x.value fun j => (slots j).value := by
  funext j
  cases j using Fin.cases <;> rfl

theorem Step.eval (h : Step movedFrom c c') :
    c'.eval movedFrom = c.eval movedFrom := by
  cases h with
  | create b child rest slots =>
      change rest.eval movedFrom _ = rest.eval movedFrom _
      congr 1
      exact value_cons slots _
  | start i rest slots =>
      change Body.eval movedFrom _ _ = Body.eval movedFrom _ _
      congr 1
      exact value_update_same slots i true
  | coAwait i rest slots =>
      change (rest (slots i).value).eval movedFrom _ =
        (rest (slots i).value).eval movedFrom _
      congr 1
      exact value_update slots i _
  | drop rest slots => rfl

theorem Step.joined (h : Step movedFrom c c') (hc : c.Joined movedFrom) :
    c'.Joined movedFrom := by
  cases h with
  | create b child rest slots => exact hc.2
  | start i rest slots =>
      have hself := Function.update_self i
        (⟨(slots i).value, true⟩ : Slot V E) slots
      change (rest (Function.update slots i ⟨(slots i).value, true⟩
        i).value).Joined movedFrom (Function.update
          (Function.update slots i ⟨(slots i).value, true⟩) i
          ((Function.update slots i ⟨(slots i).value, true⟩ i).consume
            movedFrom))
      rw [hself, Function.update_idem]
      exact hc
  | coAwait i rest slots => exact hc
  | drop rest slots => exact hc.2

/-! ## What the steps cost -/

theorem cost_begin (b : Body V E 0) :
    cost movedFrom ⟨0, b, Fin.elim0⟩ = b.cost movedFrom Fin.elim0 :=
  congrArg (b.cost movedFrom) (Subsingleton.elim _ _)

theorem cost_create {n : ℕ} (b : Bool) (child : Body V E 0)
    (rest : Body V E (n + 1)) (slots : Fin n → Slot V E) :
    cost movedFrom ⟨n, .create b child rest, slots⟩ =
      2 + child.cost movedFrom Fin.elim0 + cost movedFrom
        ⟨n + 1, rest,
          Fin.cons ⟨child.eval movedFrom Fin.elim0, b⟩ slots⟩ := by
  have henv := value_cons slots ⟨child.eval movedFrom Fin.elim0, b⟩
  change 2 + child.cost movedFrom Fin.elim0 + rest.cost movedFrom _ =
    2 + child.cost movedFrom Fin.elim0 + rest.cost movedFrom _
  exact congrArg (fun env => 2 + child.cost movedFrom Fin.elim0 +
    rest.cost movedFrom env) henv.symm

variable (movedFrom) in
theorem cost_coAwait {n : ℕ} (i : Fin n)
    (rest : Completion V E → Body V E n) (slots : Fin n → Slot V E) :
    cost movedFrom ⟨n, .coAwait i rest, slots⟩ =
      4 + cost movedFrom
        ⟨n, rest (slots i).value,
          Function.update slots i ((slots i).consume movedFrom)⟩ := by
  have henv := value_update slots i ((slots i).consume movedFrom)
  exact congrArg (fun env =>
    4 + (rest (slots i).value).cost movedFrom env) henv.symm

theorem cost_start {n : ℕ} (i : Fin n)
    (rest : Completion V E → Body V E n) (slots : Fin n → Slot V E) :
    cost movedFrom
      ⟨n, .coAwait i rest, Function.update slots i ⟨(slots i).value, true⟩⟩ =
      cost movedFrom ⟨n, .coAwait i rest, slots⟩ :=
  congrArg (Body.cost movedFrom (.coAwait i rest))
    (value_update_same slots i true)

variable (movedFrom) in
theorem cost_drop {n : ℕ} (rest : Body V E n)
    (slots : Fin (n + 1) → Slot V E) :
    cost movedFrom ⟨n + 1, .drop rest, slots⟩ =
      1 + cost movedFrom ⟨n, rest, Fin.tail slots⟩ :=
  rfl

theorem Joined.drop {n : ℕ} {rest : Body V E n}
    {slots : Fin (n + 1) → Slot V E}
    (h : Joined movedFrom ⟨n + 1, .drop rest, slots⟩) :
    (slots 0).pending = false :=
  h.1

end Config

end CoAwait
end Ethreads
