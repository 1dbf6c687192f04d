import Mathlib.Data.List.Nodup
import Mathlib.Logic.Function.Basic
import Mathlib.Tactic.Common

/-!
# Intrusive lists

The nodes of an intrusive list are connected by a `next` field of each node.
`Linked` says which nodes are reached from a head; writing the field of a node
that is not reached changes nothing.  `Collects` says that a list without
repetitions holds exactly the nodes at a given place, so that moving a node
from one place to another updates two collections and leaves all others alone.
-/

namespace Ethreads

variable {ν π : Type*}

/-! ## Chains -/

/-- The nodes reached from `head` are those of the list, in its order. -/
def Linked (next : ν → Option ν) : Option ν → List ν → Prop
  | head, [] => head = none
  | head, n :: ns => head = some n ∧ Linked next (next n) ns

theorem linked_none_iff {next : ν → Option ν} {ns : List ν} :
    Linked next none ns ↔ ns = [] := by
  cases ns <;> simp [Linked]

theorem linked_some_iff {next : ν → Option ν} {n : ν} {ns : List ν} :
    Linked next (some n) ns ↔ ∃ ms, ns = n :: ms ∧ Linked next (next n) ms := by
  cases ns with
  | nil => simp [Linked]
  | cons m ms =>
      constructor
      · rintro ⟨heq, hms⟩
        cases heq
        exact ⟨ms, rfl, hms⟩
      · rintro ⟨ms', heq, hms⟩
        cases heq
        exact ⟨rfl, hms⟩

/-- The nodes reached from a head are determined by it. -/
theorem Linked.unique {next : ν → Option ν} {head : Option ν}
    {ns ms : List ν} (h : Linked next head ns) (h' : Linked next head ms) :
    ns = ms := by
  induction ns generalizing head ms with
  | nil =>
      rw [h] at h'
      exact (linked_none_iff.mp h').symm
  | cons n ns ih =>
      rw [h.1] at h'
      obtain ⟨ks, rfl, hks⟩ := linked_some_iff.mp h'
      rw [ih h.2 hks]

/-- A chain depends on the fields of its own nodes only. -/
theorem Linked.congr {next next' : ν → Option ν} {head : Option ν}
    {ns : List ν} (h : Linked next head ns)
    (hnext : ∀ n ∈ ns, next' n = next n) : Linked next' head ns := by
  induction ns generalizing head with
  | nil => exact h
  | cons m ms ih =>
      refine ⟨h.1, ?_⟩
      rw [hnext m List.mem_cons_self]
      exact ih h.2 fun n hn => hnext n (List.mem_cons_of_mem m hn)

theorem Linked.update [DecidableEq ν] {next : ν → Option ν}
    {head : Option ν} {ns : List ν} (h : Linked next head ns) {n : ν}
    (hn : n ∉ ns) (o : Option ν) :
    Linked (Function.update next n o) head ns :=
  h.congr fun _ hm =>
    Function.update_of_ne (ne_of_mem_of_not_mem hm hn) _ _

/-! ## Collections -/

/-- The list holds exactly the nodes at the place `p`, each once. -/
def Collects (place : ν → π) (p : π) (ns : List ν) : Prop :=
  ns.Nodup ∧ ∀ n, n ∈ ns ↔ place n = p

namespace Collects

variable {place : ν → π} {p q : π} {n : ν} {ns : List ν}

theorem not_mem (h : Collects place p ns) (hn : place n ≠ p) : n ∉ ns :=
  fun hmem => hn ((h.2 n).mp hmem)

theorem place_head (h : Collects place p (n :: ns)) : place n = p :=
  (h.2 n).mp List.mem_cons_self

theorem perm {ms : List ν} (h : Collects place p ns) (hms : ns.Perm ms) :
    Collects place p ms :=
  ⟨hms.nodup_iff.mp h.1, fun n => hms.mem_iff.symm.trans (h.2 n)⟩

variable [DecidableEq ν]

theorem frame (h : Collects place p ns) (hn : place n ≠ p) (hq : q ≠ p) :
    Collects (Function.update place n q) p ns := by
  refine ⟨h.1, fun m => ?_⟩
  by_cases hm : m = n
  · subst hm
    rw [Function.update_self]
    exact iff_of_false (h.not_mem hn) hq
  · rw [Function.update_of_ne hm]
    exact h.2 m

theorem insert (h : Collects place p ns) (hn : place n ≠ p) :
    Collects (Function.update place n p) p (n :: ns) := by
  refine ⟨List.nodup_cons.mpr ⟨h.not_mem hn, h.1⟩, fun m => ?_⟩
  by_cases hm : m = n
  · subst hm
    simp
  · rw [Function.update_of_ne hm, ← h.2 m, List.mem_cons, or_iff_right hm]

theorem remove (h : Collects place p (n :: ns)) (hq : q ≠ p) :
    Collects (Function.update place n q) p ns := by
  have hnodup := List.nodup_cons.mp h.1
  refine ⟨hnodup.2, fun m => ?_⟩
  by_cases hm : m = n
  · subst hm
    rw [Function.update_self]
    exact iff_of_false hnodup.1 hq
  · rw [Function.update_of_ne hm, ← h.2 m, List.mem_cons, or_iff_right hm]

end Collects
end Ethreads
