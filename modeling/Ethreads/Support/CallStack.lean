import Mathlib.Data.List.Basic
import Mathlib.Logic.Function.Basic
import Mathlib.Tactic.Common

/-!
# Call stacks

Each thread has a stack of calls, of which only the topmost one takes steps.  A
call is on one stack only, and only once; anonymous code, the `plain` frames,
may be on many.  A frame below another one stands at a point where it has called
out.

The rules below cover the steps of a thread: its topmost call goes on, returns,
or calls out to anonymous code, and anonymous code begins, ends, or makes a
call.  They hold for the stacks themselves, and for a relation between the
frames of a stack and those below them.
-/

namespace Ethreads

variable {τ φ : Type*}

/-- The frames of the stacks are active calls, each on one stack and once, and
those below another one have called out. -/
structure Stacked (plain active calling : φ → Prop) (stack : τ → List φ) :
    Prop where
  active : ∀ t, ∀ f ∈ stack t, active f
  owner : ∀ t u f, ¬plain f → f ∈ stack t → f ∈ stack u → t = u
  nodup : ∀ t, (stack t).Pairwise fun f g => f = g → plain f
  calling : ∀ t, ∀ g ∈ (stack t).tail, calling g

/-- A relation holds between each frame and those below it. -/
def Ordered (R : φ → φ → Prop) (stack : τ → List φ) : Prop :=
  ∀ t, (stack t).Pairwise R

namespace Stacked

variable {plain active active' calling calling' : φ → Prop}
  {stack : τ → List φ} {R R' : φ → φ → Prop} {t : τ} {f u : φ}
  {rest : List φ}

theorem not_mem_rest (h : Stacked plain active calling stack)
    (ht : stack t = f :: rest) (hf : ¬plain f) : f ∉ rest := by
  intro hmem
  have hnodup := h.nodup t
  rw [ht] at hnodup
  exact hf ((List.pairwise_cons.mp hnodup).1 f hmem rfl)

theorem not_mem_of_ne (h : Stacked plain active calling stack)
    (ht : stack t = f :: rest) (hf : ¬plain f) {v : τ} (hv : v ≠ t) :
    f ∉ stack v := by
  intro hmem
  exact hv (h.owner v t f hf hmem (ht ▸ List.mem_cons_self))

/-- A frame below the topmost one has called out. -/
theorem calling_of_rest (h : Stacked plain active calling stack)
    (ht : stack t = f :: rest) {g : φ} (hg : g ∈ rest) : calling g := by
  refine h.calling t g ?_
  rw [ht]
  exact hg

theorem of_not_mem (h : Stacked plain active calling stack)
    (hf : ∀ v, f ∉ stack v) (hactive : ∀ g, g ≠ f → active g → active' g)
    (hcalling : ∀ g, g ≠ f → calling g → calling' g) :
    Stacked plain active' calling' stack := by
  refine ⟨fun v g hg => hactive g ?_ (h.active v g hg), h.owner, h.nodup,
    fun v g hg => hcalling g ?_ (h.calling v g hg)⟩
  · rintro rfl
    exact hf v hg
  · rintro rfl
    exact hf v (List.mem_of_mem_tail hg)

theorem goesOn (h : Stacked plain active calling stack)
    (ht : stack t = f :: rest) (hf : ¬plain f)
    (hactive : ∀ g, g ≠ f → active g → active' g)
    (hcalling : ∀ g, g ≠ f → calling g → calling' g) (hf' : active' f) :
    Stacked plain active' calling' stack := by
  refine ⟨fun v g hg => ?_, h.owner, h.nodup, fun v g hg => ?_⟩
  · by_cases hgf : g = f
    · rw [hgf]
      exact hf'
    · exact hactive g hgf (h.active v g hg)
  · refine hcalling g ?_ (h.calling v g hg)
    rintro rfl
    by_cases hv : v = t
    · rw [hv, ht] at hg
      exact h.not_mem_rest ht hf hg
    · exact h.not_mem_of_ne ht hf hv (List.mem_of_mem_tail hg)

variable [DecidableEq τ]

theorem of_update (h : Stacked plain active calling stack) {l : List φ}
    (hactive : ∀ g ∈ l, active g)
    (howner : ∀ g ∈ l, ¬plain g → ∀ v, v ≠ t → g ∉ stack v)
    (hnodup : l.Pairwise fun f g => f = g → plain f)
    (hcalling : ∀ g ∈ l.tail, calling g) :
    Stacked plain active calling (Function.update stack t l) := by
  refine ⟨(Function.forall_update_iff stack fun _ l => ∀ g ∈ l, active g).mpr
      ⟨hactive, fun v _ => h.active v⟩, fun v w g hg hgv hgw => ?_,
    (Function.forall_update_iff stack fun _ l => l.Pairwise _).mpr
      ⟨hnodup, fun v _ => h.nodup v⟩,
    (Function.forall_update_iff stack fun _ l => ∀ g ∈ l.tail, calling g).mpr
      ⟨hcalling, fun v _ => h.calling v⟩⟩
  by_cases hv : v = t
  · by_cases hw : w = t
    · rw [hv, hw]
    · rw [hv, Function.update_self] at hgv
      rw [Function.update_of_ne hw] at hgw
      exact absurd hgw (howner g hgv hg w hw)
  · rw [Function.update_of_ne hv] at hgv
    by_cases hw : w = t
    · rw [hw, Function.update_self] at hgw
      exact absurd hgv (howner g hgw hg v hv)
    · rw [Function.update_of_ne hw] at hgw
      exact h.owner v w g hg hgv hgw

theorem pop (h : Stacked plain active calling stack)
    (ht : stack t = f :: rest) :
    Stacked plain active calling (Function.update stack t rest) := by
  have hactive := h.active t
  have hnodup := h.nodup t
  have hcalling := h.calling t
  rw [ht] at hactive hnodup hcalling
  refine h.of_update (fun g hg => hactive g (List.mem_cons_of_mem f hg))
    (fun g hg hplain v hv hgv => hv ?_) (List.pairwise_cons.mp hnodup).2
    fun g hg => hcalling g (List.mem_of_mem_tail hg)
  exact h.owner v t g hplain hgv (ht ▸ List.mem_cons_of_mem f hg)

theorem not_mem_pop (h : Stacked plain active calling stack)
    (ht : stack t = f :: rest) (hf : ¬plain f) (v : τ) :
    f ∉ Function.update stack t rest v := by
  by_cases hv : v = t
  · rw [hv, Function.update_self]
    exact h.not_mem_rest ht hf
  · rw [Function.update_of_ne hv]
    exact h.not_mem_of_ne ht hf hv

theorem pushPlain (h : Stacked plain active calling stack)
    (ht : stack t = f :: rest) (hf : calling f) (hu : plain u)
    (hactive : active u) :
    Stacked plain active calling
      (Function.update stack t (u :: f :: rest)) := by
  have hall := h.active t
  have hnodup := h.nodup t
  have hcalling := h.calling t
  rw [ht] at hall hnodup hcalling
  refine h.of_update (fun g hg => ?_) (fun g hg hplain v hv hgv => ?_) ?_
    fun g hg => ?_
  · rcases List.mem_cons.mp hg with rfl | hg
    · exact hactive
    · exact hall g hg
  · rcases List.mem_cons.mp hg with rfl | hg
    · exact hplain hu
    · exact hv (h.owner v t g hplain hgv (ht ▸ hg))
  · exact List.pairwise_cons.mpr ⟨fun _ _ _ => hu, hnodup⟩
  · rcases List.mem_cons.mp hg with rfl | hg
    · exact hf
    · exact hcalling g hg

theorem pushCall (h : Stacked plain active calling stack)
    (ht : stack t = u :: rest) (hu : calling u) (hf : active f)
    (hnew : ∀ v, f ∉ stack v) :
    Stacked plain active calling
      (Function.update stack t (f :: u :: rest)) := by
  have hall := h.active t
  have hnodup := h.nodup t
  have hcalling := h.calling t
  have hout := hnew t
  rw [ht] at hall hnodup hcalling hout
  refine h.of_update (fun g hg => ?_) (fun g hg hplain v hv hgv => ?_) ?_
    fun g hg => ?_
  · rcases List.mem_cons.mp hg with rfl | hg
    · exact hf
    · exact hall g hg
  · rcases List.mem_cons.mp hg with rfl | hg
    · exact hnew v hgv
    · exact hv (h.owner v t g hplain hgv (ht ▸ hg))
  · refine List.pairwise_cons.mpr ⟨fun g hg heq => ?_, hnodup⟩
    exact absurd (heq ▸ hg) hout
  · rcases List.mem_cons.mp hg with rfl | hg
    · exact hu
    · exact hcalling g hg

theorem begin (h : Stacked plain active calling stack)
    (hu : plain u) (hactive : active u) :
    Stacked plain active calling (Function.update stack t [u]) := by
  refine h.of_update (fun g hg => ?_) (fun g hg hplain => ?_)
    (List.pairwise_singleton _ _) nofun
  · rw [List.mem_singleton.mp hg]
    exact hactive
  · exact absurd (List.mem_singleton.mp hg ▸ hu) hplain

end Stacked

namespace Ordered

variable {plain active calling : φ → Prop} {stack : τ → List φ}
  {R R' : φ → φ → Prop} {t : τ} {f : φ} {rest : List φ}

theorem goesOn (h : Ordered R stack) (hs : Stacked plain active calling stack)
    (ht : stack t = f :: rest) (hf : ¬plain f)
    (hothers : ∀ g g', g ≠ f → g' ≠ f → R g g' → R' g g')
    (htop : ∀ g ∈ rest, R f g → R' f g) : Ordered R' stack := by
  have hlist : ∀ {l : List φ}, f ∉ l → l.Pairwise R → l.Pairwise R' := by
    intro l hl hpair
    refine hpair.imp_of_mem fun hg hg' hR => hothers _ _ ?_ ?_ hR
    · rintro rfl
      exact hl hg
    · rintro rfl
      exact hl hg'
  intro v
  by_cases hv : v = t
  · rw [hv, ht]
    have hpair := h t
    rw [ht, List.pairwise_cons] at hpair
    exact List.pairwise_cons.mpr ⟨fun g hg => htop g hg (hpair.1 g hg),
      hlist (hs.not_mem_rest ht hf) hpair.2⟩
  · exact hlist (hs.not_mem_of_ne ht hf hv) (h v)

theorem of_not_mem (h : Ordered R stack) (hf : ∀ v, f ∉ stack v)
    (hR : ∀ g g', g ≠ f → g' ≠ f → R g g' → R' g g') : Ordered R' stack := by
  intro v
  refine (h v).imp_of_mem fun hg hg' hgg => hR _ _ ?_ ?_ hgg
  · rintro rfl
    exact hf v hg
  · rintro rfl
    exact hf v hg'

variable [DecidableEq τ]

theorem of_update (h : Ordered R stack) {l : List φ} (hl : l.Pairwise R) :
    Ordered R (Function.update stack t l) :=
  (Function.forall_update_iff stack fun _ l => l.Pairwise R).mpr
    ⟨hl, fun v _ => h v⟩

theorem pop (h : Ordered R stack) (ht : stack t = f :: rest) :
    Ordered R (Function.update stack t rest) := by
  have hpair := h t
  rw [ht] at hpair
  exact h.of_update (List.pairwise_cons.mp hpair).2

theorem push (h : Ordered R stack) (hf : ∀ g ∈ stack t, R f g) :
    Ordered R (Function.update stack t (f :: stack t)) :=
  h.of_update (List.pairwise_cons.mpr ⟨hf, h t⟩)

end Ordered

end Ethreads
