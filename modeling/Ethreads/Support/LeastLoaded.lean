import Mathlib.Data.List.Basic
import Mathlib.Order.Lattice
import Mathlib.Order.Monotone.Basic
import Mathlib.Tactic.Common

/-!
# Searching for the least loaded element

A search of a list that stops at the first element whose load does not exceed a
limit, and otherwise ends with the first element of the least load.
-/

namespace Ethreads
namespace LeastLoaded

variable {ι L : Type*} [LinearOrder L]

/-- The search of the rest of a list; `best` is the first element of the least
load so far. -/
def search (load : ι → L) (limit : L) : ι → List ι → ι
  | best, [] => best
  | best, i :: is =>
      if load i ≤ limit then i
      else search load limit (if load i < load best then i else best) is

/-- The search depends on the order of the loads only. -/
theorem search_strictMono {M : Type*} [LinearOrder M] {f : L → M}
    (hf : StrictMono f) (load : ι → L) (limit : L) (best : ι) (is : List ι) :
    search (fun i => f (load i)) (f limit) best is =
      search load limit best is := by
  induction is generalizing best with
  | nil => rfl
  | cons i is ih => simp only [search, hf.le_iff_le, hf.lt_iff_lt, ih]

variable [LinearOrder ι] {load : ι → L} {limit : L}

/-- The first element whose load does not exceed the limit, or, if there is
none, the first element of the least load. -/
inductive IsChoice (load : ι → L) (limit : L) (i : ι) : Prop
  | idle (hload : load i ≤ limit) (hbefore : ∀ j, j < i → limit < load j)
  | least (hbusy : ∀ j, limit < load j) (hleast : ∀ j, load i ≤ load j)
      (hbefore : ∀ j, j < i → load i < load j)

/-- There is at most one choice. -/
theorem IsChoice.unique {i j : ι} (hi : IsChoice load limit i)
    (hj : IsChoice load limit j) : i = j := by
  cases hi with
  | idle hload hbefore =>
      cases hj with
      | idle hload' hbefore' =>
          refine le_antisymm (le_of_not_gt fun h => ?_)
            (le_of_not_gt fun h => ?_)
          · exact absurd hload' (hbefore j h).not_ge
          · exact absurd hload (hbefore' i h).not_ge
      | least hbusy _ _ => exact absurd hload (hbusy i).not_ge
  | least hbusy hleast hbefore =>
      cases hj with
      | idle hload' _ => exact absurd hload' (hbusy j).not_ge
      | least _ hleast' hbefore' =>
          refine le_antisymm (le_of_not_gt fun h => ?_)
            (le_of_not_gt fun h => ?_)
          · exact absurd (hleast' i) (hbefore j h).not_ge
          · exact absurd (hleast j) (hbefore' i h).not_ge

/-- The search finds the choice, given that all elements seen so far exceed the
limit. -/
theorem isChoice_search (seen : List ι) {rest : List ι} {best : ι}
    (hsorted : (seen ++ rest).Pairwise (· < ·))
    (hall : ∀ j, j ∈ seen ++ rest) (hbusy : ∀ j ∈ seen, limit < load j)
    (hmem : best ∈ seen) (hleast : ∀ j ∈ seen, load best ≤ load j)
    (hbefore : ∀ j ∈ seen, j < best → load best < load j) :
    IsChoice load limit (search load limit best rest) := by
  induction rest generalizing seen best with
  | nil =>
      rw [List.append_nil] at hall
      exact .least (fun j => hbusy j (hall j)) (fun j => hleast j (hall j))
        fun j => hbefore j (hall j)
  | cons i is ih =>
      have hi := List.pairwise_append.mp hsorted
      rw [search]
      split
      · rename_i hload
        refine .idle hload fun j hj => ?_
        rcases List.mem_append.mp (hall j) with hseen | hrest
        · exact hbusy j hseen
        · rcases List.mem_cons.mp hrest with rfl | his
          · exact absurd hj (lt_irrefl j)
          · exact absurd hj ((List.pairwise_cons.mp hi.2.1).1 j his).asymm
      · rename_i hload
        have hlt : limit < load i := lt_of_not_ge hload
        have hsplit : seen ++ i :: is = (seen ++ [i]) ++ is := by simp
        have hsnoc : ∀ {p : ι → Prop}, (∀ j ∈ seen, p j) → p i →
            ∀ j ∈ seen ++ [i], p j := by
          intro p hseen hpi j hj
          rcases List.mem_append.mp hj with hold | hnew
          · exact hseen j hold
          · rw [List.mem_singleton.mp hnew]
            exact hpi
        have hnext : best < i := hi.2.2 best hmem i List.mem_cons_self
        refine ih _ (hsplit ▸ hsorted) (hsplit ▸ hall) (hsnoc hbusy hlt)
          ?_ ?_ ?_
        · split
          · exact List.mem_append_right _ (List.mem_singleton_self i)
          · exact List.mem_append_left _ hmem
        · split
          · rename_i hbetter
            exact hsnoc (fun j hj => hbetter.le.trans (hleast j hj)) le_rfl
          · rename_i hworse
            exact hsnoc hleast (le_of_not_gt hworse)
        · split
          · rename_i hbetter
            exact hsnoc (fun j hj _ => hbetter.trans_le (hleast j hj))
              fun h => absurd h (lt_irrefl i)
          · exact hsnoc hbefore fun h => absurd h hnext.asymm

/-- The search of a whole list, starting from its first element. -/
theorem isChoice_search_cons {i : ι} {is : List ι}
    (hsorted : (i :: is).Pairwise (· < ·)) (hall : ∀ j, j ∈ i :: is) :
    IsChoice load limit (search load limit i (i :: is)) := by
  rw [search]
  split
  · rename_i hload
    refine .idle hload fun j hj => ?_
    rcases List.mem_cons.mp (hall j) with rfl | his
    · exact absurd hj (lt_irrefl j)
    · exact absurd hj ((List.pairwise_cons.mp hsorted).1 j his).asymm
  · rename_i hload
    rw [if_neg (lt_irrefl _)]
    refine isChoice_search [i] hsorted hall ?_ (List.mem_singleton_self i)
      ?_ ?_
    · intro j hj
      rw [List.mem_singleton.mp hj]
      exact lt_of_not_ge hload
    · intro j hj
      rw [List.mem_singleton.mp hj]
    · intro j hj hlt
      rw [List.mem_singleton.mp hj] at hlt
      exact absurd hlt (lt_irrefl i)

end LeastLoaded
end Ethreads
