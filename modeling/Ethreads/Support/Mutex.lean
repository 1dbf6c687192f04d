import Mathlib.Logic.Function.Basic
import Mathlib.Tactic.Common

/-!
# Mutual exclusion as an invariant

A program point is either inside or outside the sections protected by a mutex.
`Guards` says that the owner recorded in the mutex is exactly the thread that
stands inside.  The rules below cover the four ways in which an atomic action
can move threads: staying on one side, entering a section, leaving it, and
moving many threads at once without crossing its border.
-/

namespace Ethreads

variable {τ π : Type*}

/-- The mutex is owned by `t` exactly when `t` stands inside a section. -/
def Guards (inside : π → Bool) (mutex : Option τ) (pc : τ → π) : Prop :=
  ∀ t, inside (pc t) = true ↔ mutex = some t

namespace Guards

variable {inside : π → Bool} {mutex : Option τ} {pc : τ → π}

theorem unique (h : Guards inside mutex pc) {t u : τ}
    (ht : inside (pc t) = true) (hu : inside (pc u) = true) : t = u :=
  Option.some.inj (((h t).mp ht).symm.trans ((h u).mp hu))

theorem outside_of_free (h : Guards inside mutex pc) (hfree : mutex = none)
    (t : τ) : inside (pc t) = false := by
  rw [Bool.eq_false_iff]
  intro ht
  have := (h t).mp ht
  rw [hfree] at this
  cases this

theorem outside_of_ne (h : Guards inside mutex pc) {t u : τ}
    (ht : inside (pc t) = true) (hu : u ≠ t) : inside (pc u) = false := by
  rw [Bool.eq_false_iff]
  exact fun hin => hu (h.unique hin ht)

/-- Moving threads by a map that never crosses the border. -/
theorem map (h : Guards inside mutex pc) {f : π → π}
    (hf : ∀ p, inside (f p) = inside p) :
    Guards inside mutex fun t => f (pc t) := by
  intro t
  rw [hf]
  exact h t

variable [DecidableEq τ]

theorem stay (h : Guards inside mutex pc) {t : τ} {q : π}
    (hq : inside q = inside (pc t)) :
    Guards inside mutex (Function.update pc t q) := by
  intro u
  by_cases hu : u = t
  · subst hu
    rw [Function.update_self, hq]
    exact h u
  · rw [Function.update_of_ne hu]
    exact h u

theorem enter (h : Guards inside mutex pc) (hfree : mutex = none)
    {t : τ} {q : π} (hq : inside q = true) :
    Guards inside (some t) (Function.update pc t q) := by
  intro u
  by_cases hu : u = t
  · subst hu
    simp [hq]
  · rw [Function.update_of_ne hu, h.outside_of_free hfree u]
    simp [Ne.symm hu]

theorem leave (h : Guards inside mutex pc) {t : τ} {q : π}
    (ht : inside (pc t) = true) (hq : inside q = false) :
    Guards inside none (Function.update pc t q) := by
  intro u
  by_cases hu : u = t
  · subst hu
    simp [hq]
  · rw [Function.update_of_ne hu, h.outside_of_ne ht hu]
    simp

end Guards
end Ethreads
