import Mathlib.Tactic.Common

/-!
# One-shot flags

Several parties compete for a flag by compare-exchange.  Whoever sets it owes
one call, which it makes in a later step.  `OneShot` is the account of such a
flag: as long as it is unset nobody has attempted it, and once it is set either
the call has been made or exactly one party still owes it.
-/

namespace Ethreads

/-- The account of a flag whose winner makes the call `k`. -/
structure OneShot {π κ : Type*} (k : κ) (fired attempted : Bool)
    (calls : List κ) (owes : π → Prop) : Prop where
  unset : fired = false → attempted = false ∧ calls = [] ∧ ∀ p, ¬owes p
  set : fired = true → attempted = true ∧
    ((calls = [] ∧ ∃ p, ∀ q, owes q ↔ q = p) ∨
      (calls = [k] ∧ ∀ p, ¬owes p))

namespace OneShot

variable {π κ : Type*} {k : κ} {fired attempted : Bool} {calls : List κ}
  {owes owes' : π → Prop}

theorem initial : OneShot k false false [] fun _ : π => False :=
  ⟨fun _ => ⟨rfl, rfl, fun _ => id⟩, nofun⟩

theorem congr (h : OneShot k fired attempted calls owes)
    (howes : ∀ p, owes' p ↔ owes p) :
    OneShot k fired attempted calls owes' := by
  have heq : owes' = owes := funext fun p => propext (howes p)
  rwa [heq]

theorem win (h : OneShot k false attempted calls owes) {p : π}
    (howes : ∀ q, owes' q ↔ owes q ∨ q = p) :
    OneShot k true true calls owes' := by
  obtain ⟨-, hcalls, hnobody⟩ := h.unset rfl
  refine ⟨nofun, fun _ => ⟨rfl, .inl ⟨hcalls, p, fun q => ?_⟩⟩⟩
  rw [howes, or_iff_right (hnobody q)]

theorem lose (h : OneShot k true attempted calls owes) :
    OneShot k true true calls owes :=
  ⟨nofun, fun _ => ⟨rfl, (h.set rfl).2⟩⟩

theorem call (h : OneShot k fired attempted calls owes) {p : π}
    (hp : owes p) (howes : ∀ q, owes' q ↔ owes q ∧ q ≠ p) :
    OneShot k fired attempted (calls ++ [k]) owes' := by
  cases fired with
  | false => exact absurd hp ((h.unset rfl).2.2 p)
  | true =>
      refine ⟨nofun, fun _ => ⟨(h.set rfl).1, .inr ?_⟩⟩
      rcases (h.set rfl).2 with ⟨hcalls, r, hr⟩ | ⟨-, hnobody⟩
      · refine ⟨by rw [hcalls, List.nil_append], fun q hq => ?_⟩
        obtain ⟨hq, hqp⟩ := (howes q).mp hq
        exact hqp (((hr q).mp hq).trans ((hr p).mp hp).symm)
      · exact absurd hp (hnobody p)

/-- No call is made but `k`, and not twice. -/
theorem calls_eq (h : OneShot k fired attempted calls owes) :
    calls = [] ∨ calls = [k] := by
  cases fired with
  | false => exact .inl (h.unset rfl).2.1
  | true =>
      rcases (h.set rfl).2 with ⟨hcalls, -⟩ | ⟨hcalls, -⟩
      · exact .inl hcalls
      · exact .inr hcalls

/-- The call was made once somebody has attempted the flag and nobody owes
it any more. -/
theorem calls_of_attempted (h : OneShot k fired attempted calls owes)
    (hattempted : attempted = true) (hnobody : ∀ p, ¬owes p) :
    calls = [k] := by
  cases fired with
  | false =>
      exact absurd ((h.unset rfl).1.symm.trans hattempted) (by simp)
  | true =>
      rcases (h.set rfl).2 with ⟨-, p, hp⟩ | ⟨hcalls, -⟩
      · exact absurd ((hp p).mpr rfl) (hnobody p)
      · exact hcalls

end OneShot
end Ethreads
