import Mathlib.Data.List.Basic
import Mathlib.Data.List.Perm.Basic
import Mathlib.Data.Nat.Basic
import Mathlib.Logic.Function.Iterate
import Mathlib.Tactic.Common

/-!
# Consecutive intervals

A list of half-open intervals tiles a range if each interval begins where the
one before it ends.  Then every position of the range lies in exactly one of
them, and a function that is applied to the elements of one interval after the
other, in any order, is applied to each element of the range once.
-/

namespace Ethreads
namespace Intervals

def contains (p : ℕ) (i : ℕ × ℕ) : Bool :=
  decide (i.1 ≤ p ∧ p < i.2)

/-- The intervals lead from `a` to `b` without gap or overlap. -/
inductive Tiles (b : ℕ) : ℕ → List (ℕ × ℕ) → Prop
  | last {a : ℕ} : a ≤ b → Tiles b a [(a, b)]
  | cons {a m : ℕ} {l : List (ℕ × ℕ)} :
      a ≤ m → Tiles b m l → Tiles b a ((a, m) :: l)

variable {a b : ℕ} {l : List (ℕ × ℕ)}

theorem Tiles.le (h : Tiles b a l) : a ≤ b := by
  induction h with
  | last hab => exact hab
  | cons ham _ ih => exact le_trans ham ih

theorem Tiles.head? (h : Tiles b a l) : l.head?.map Prod.fst = some a := by
  cases h <;> rfl

theorem Tiles.getLast? (h : Tiles b a l) :
    l.getLast?.map Prod.snd = some b := by
  induction h with
  | last _ => rfl
  | cons _ h ih =>
      cases h with
      | last _ => rfl
      | cons _ _ => rwa [List.getLast?_cons_cons]

theorem Tiles.isChain (h : Tiles b a l) :
    l.IsChain fun i j => i.2 = j.1 := by
  induction h with
  | last _ => exact .singleton _
  | cons _ h ih =>
      cases h with
      | last _ => exact .cons_cons rfl ih
      | cons _ _ => exact .cons_cons rfl ih

theorem Tiles.within (h : Tiles b a l) :
    ∀ i ∈ l, a ≤ i.1 ∧ i.1 ≤ i.2 ∧ i.2 ≤ b := by
  induction h with
  | last hab =>
      intro i hi
      rw [List.mem_singleton.mp hi]
      exact ⟨le_rfl, hab, le_rfl⟩
  | cons ham h ih =>
      intro i hi
      rcases List.mem_cons.mp hi with rfl | hi
      · exact ⟨le_rfl, ham, h.le⟩
      · obtain ⟨hm, hle, hb⟩ := ih i hi
        exact ⟨le_trans ham hm, hle, hb⟩

/-- A position of the range lies in one interval, and any other in none. -/
theorem Tiles.countP_contains (h : Tiles b a l) (p : ℕ) :
    l.countP (contains p) = if a ≤ p ∧ p < b then 1 else 0 := by
  induction h with
  | last _ => simp [List.countP_singleton, contains]
  | cons ham h ih =>
      have hmb := h.le
      rw [List.countP_cons, ih]
      simp only [contains, decide_eq_true_eq]
      split_ifs <;> omega

/-! ## Functions of one element -/

section Apply

variable {α : Type*} (f : α → α)

/-- The function is applied to the elements at the positions of an
interval. -/
def apply (xs : List α) (i : ℕ × ℕ) : List α :=
  xs.mapIdx fun p x => if contains p i = true then f x else x

/-- The function is applied to an element once for each interval that contains
its position. -/
theorem getElem?_foldl_apply (l : List (ℕ × ℕ)) (xs : List α) (p : ℕ) :
    (l.foldl (apply f) xs)[p]? =
      xs[p]?.map (f^[l.countP (contains p)]) := by
  induction l generalizing xs with
  | nil => simp
  | cons i l ih =>
      rw [List.foldl_cons, ih, apply, List.getElem?_mapIdx, Option.map_map,
        List.countP_cons]
      congr 1
      funext x
      by_cases hi : contains p i = true
      · simp [hi]
      · simp [hi]

/-- The order in which the intervals are taken does not matter. -/
theorem Tiles.foldl_apply_perm (h : Tiles b a l) {order : List (ℕ × ℕ)}
    (horder : order.Perm l) (xs : List α) :
    order.foldl (apply f) xs = apply f xs (a, b) := by
  refine List.ext_getElem? fun p => ?_
  rw [getElem?_foldl_apply, horder.countP_eq, h.countP_contains, apply,
    List.getElem?_mapIdx]
  congr 1
  funext x
  by_cases hp : a ≤ p ∧ p < b
  · simp [contains, hp]
  · simp [contains, hp]

end Apply

end Intervals
end Ethreads
