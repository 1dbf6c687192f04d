import Mathlib.Algebra.BigOperators.Group.Finset.Basic
import Mathlib.Algebra.Order.BigOperators.Group.Finset
import Mathlib.Data.Fintype.BigOperators
import Mathlib.Tactic.Common

/-!
# Counting threads by their local state

Invariants of programs with any number of threads often compare a shared
counter with the number of threads standing at certain program points.  A
*tally* adds up a weight over the local states of all threads.  An atomic
action changes the local state of one thread, and `tally_update` says how the
tally moves; the comparison is then a linear arithmetic goal.
-/

namespace Ethreads

variable {τ π : Type*} [Fintype τ]

/-- The total weight of the local states of all threads. -/
def tally (w : π → ℕ) (pc : τ → π) : ℕ :=
  ∑ t, w (pc t)

theorem le_tally (w : π → ℕ) (pc : τ → π) (t : τ) :
    w (pc t) ≤ tally w pc :=
  Finset.single_le_sum (f := fun t => w (pc t))
    (fun _ _ => Nat.zero_le _) (Finset.mem_univ t)

theorem tally_eq_zero_iff {w : π → ℕ} {pc : τ → π} :
    tally w pc = 0 ↔ ∀ t, w (pc t) = 0 := by
  simp [tally]

theorem tally_pos_iff {w : π → ℕ} {pc : τ → π} :
    0 < tally w pc ↔ ∃ t, 0 < w (pc t) := by
  simp [tally, Finset.sum_pos_iff]

theorem tally_congr {w w' : π → ℕ} {pc pc' : τ → π}
    (h : ∀ t, w (pc t) = w' (pc' t)) : tally w pc = tally w' pc' :=
  Finset.sum_congr rfl fun t _ => h t

theorem tally_eq_of_forall_ne {w : π → ℕ} {pc : τ → π} (t : τ)
    (h : ∀ u, u ≠ t → w (pc u) = 0) : tally w pc = w (pc t) :=
  Finset.sum_eq_single t (fun u _ hu => h u hu)
    fun ht => absurd (Finset.mem_univ t) ht

variable [DecidableEq τ]

/-- A step that keeps the weights of all threads but `t` changes the tally by
the weight of `t`. -/
theorem tally_add_of_forall_ne {σ : Type*} {w : π → ℕ} {w' : σ → ℕ}
    {pc : τ → π} {pc' : τ → σ} (t : τ)
    (h : ∀ u, u ≠ t → w' (pc' u) = w (pc u)) :
    tally w' pc' + w (pc t) = tally w pc + w' (pc' t) := by
  have hrest : ∑ u ∈ Finset.univ.erase t, w' (pc' u) =
      ∑ u ∈ Finset.univ.erase t, w (pc u) :=
    Finset.sum_congr rfl fun u hu => h u (Finset.ne_of_mem_erase hu)
  have hnew := Finset.sum_erase_add Finset.univ
    (fun u => w' (pc' u)) (Finset.mem_univ t)
  have hold := Finset.sum_erase_add Finset.univ
    (fun u => w (pc u)) (Finset.mem_univ t)
  unfold tally
  omega

/-- Moving one thread from its local state to `q` replaces its weight. -/
theorem tally_update (w : π → ℕ) (pc : τ → π) (t : τ) (q : π) :
    tally w (Function.update pc t q) + w (pc t) = tally w pc + w q := by
  have h : tally w (Function.update pc t q) + w (pc t) =
      tally w pc + w (Function.update pc t q t) :=
    tally_add_of_forall_ne t fun u hu =>
      congrArg w (Function.update_of_ne hu q pc)
  rwa [Function.update_self] at h

end Ethreads
