import Ethreads.SyncPrimitive.Semaphore

/-!
# The maximum of the semaphore

`LeastMaxValue`, which `max()` returns, is not compared with `count_` when
permits are released.  This module says when a semaphore stays within it.
-/

namespace Ethreads
namespace SyncSemaphore

def ptrdiffMax : ℤ :=
  2 ^ 63 - 1

/-- The permits that an operation releases are no more than there is room
for. -/
def Op.Fits (maximum count : ℤ) : Op → Prop
  | release n => count + n ≤ maximum
  | _ => True

instance (maximum count : ℤ) (op : Op) : Decidable (op.Fits maximum count) := by
  cases op <;> dsimp only [Op.Fits] <;> infer_instance

theorem Op.Fits.mono {maximum maximum' count : ℤ} {op : Op}
    (h : op.Fits maximum count) (hle : maximum ≤ maximum') :
    op.Fits maximum' count := by
  cases op with
  | release n => exact le_trans h hle
  | _ => trivial

section Maximum

variable {τ : Type*}

/-- The number of available permits has always been between zero and the
maximum, no release has overflowed `count_`, and from no point on have there
been more acquisitions than the maximum and the permits released since. -/
structure StaysWithin (maximum : ℤ)
    (s : Monitor.State τ ℤ Op Outcome) : Prop where
  available : 0 ≤ s.data ∧ s.data ≤ maximum
  always : ∀ e ∈ s.performed, 0 ≤ e.after ∧ e.after ≤ maximum
  noOverflow : ∀ e ∈ s.performed, e.op.Fits ptrdiffMax e.before
  admits : ∀ es es', s.performed = es ++ es' →
    acquired es' ≤ maximum + released es'

/-- An operation keeps within the maximum, if its release fits. -/
theorem effect_le {maximum count : ℤ} {op : Op} (hcount : count ≤ maximum)
    (hfits : op.Fits maximum count) : op.effect count ≤ maximum := by
  cases op with
  | acquire | tryAcquireFor | tryAcquireUntil =>
      simp only [Op.effect]
      omega
  | tryAcquire =>
      simp only [Op.effect]
      split <;> omega
  | release n => exact hfits
  | available => exact hcount

theorem bounds_of_leads {initial maximum count : ℤ}
    {es : List (Monitor.Event τ ℤ Op)} (hinitial : 0 ≤ initial)
    (hle : initial ≤ maximum) (h : Monitor.Leads monitor initial es count)
    (hfits : ∀ e ∈ es, e.op.Fits maximum e.before) :
    (0 ≤ count ∧ count ≤ maximum) ∧
      ∀ e ∈ es, 0 ≤ e.after ∧ e.after ≤ maximum := by
  induction h with
  | nil => exact ⟨⟨hinitial, hle⟩, nofun⟩
  | @snoc es count t op hleads hready ih =>
      obtain ⟨hcount, halways⟩ :=
        ih fun e he => hfits e (List.mem_append_left _ he)
      have hnew := hfits _ (List.mem_append_right _ (List.mem_singleton_self _))
      have hafter : 0 ≤ op.effect count ∧ op.effect count ≤ maximum :=
        ⟨(effect_add op (fun hw => of_decide_eq_true (hready hw)) hcount.1).1,
          effect_le hcount.2 hnew⟩
      refine ⟨hafter, fun e he => ?_⟩
      rcases List.mem_append.mp he with hold | hlast
      · exact halways e hold
      · rw [List.mem_singleton.mp hlast]
        exact hafter

/-- The acquisitions since some point are paid for by the permits that were
available there and those released since. -/
theorem acquired_le_of_leads {initial maximum count count' : ℤ}
    {es es' : List (Monitor.Event τ ℤ Op)} (hinitial : 0 ≤ initial)
    (hbefore : Monitor.Leads monitor initial es count')
    (hcount' : count' ≤ maximum)
    (h : Monitor.Leads monitor initial (es ++ es') count) :
    acquired es' ≤ maximum + released es' := by
  obtain ⟨hcount, hsum⟩ := permits_of_leads hinitial h
  obtain ⟨-, hsum'⟩ := permits_of_leads hinitial hbefore
  have hacquired : acquired (es ++ es') = acquired es + acquired es' :=
    List.countP_append
  have hreleased : released (es ++ es') = released es + released es' := by
    simp [released]
  rw [hacquired, hreleased] at hsum
  push_cast at hsum
  omega

/-- A release ends with what it has added. -/
theorem fits_of_effect_le {maximum count : ℤ} {op : Op}
    (hle : op.effect count ≤ maximum) : op.Fits maximum count := by
  cases op with
  | release n => exact hle
  | _ => trivial

/-- A semaphore stays within its maximum if and only if there has been room for
all permits that were released. -/
theorem staysWithin_iff_fits [DecidableEq τ] {initial maximum : ℤ}
    (hinitial : 0 ≤ initial) (hle : initial ≤ maximum)
    (hmaximum : maximum ≤ ptrdiffMax) {s : Monitor.State τ ℤ Op Outcome}
    (hs : (Monitor.system monitor initial).Reachable s) :
    StaysWithin maximum s ↔
      ∀ e ∈ s.performed, e.op.Fits maximum e.before := by
  have hleads := Monitor.leads_reachable hs
  constructor
  · intro hstays e he
    have heffect : e.after = e.op.effect e.before :=
      hleads.forall_mem (fun e => e.after = e.op.effect e.before)
        (fun _ _ _ _ => rfl) e he
    exact fits_of_effect_le (heffect ▸ (hstays.always e he).2)
  · intro hfits
    obtain ⟨havailable, halways⟩ := bounds_of_leads hinitial hle hleads hfits
    refine ⟨havailable, halways, ?_, ?_⟩
    · exact fun e he => (hfits e he).mono hmaximum
    · intro es es' hsplit
      rw [hsplit] at hleads hfits
      obtain ⟨count, hbefore⟩ := hleads.of_append es'
      obtain ⟨hcount, -⟩ := bounds_of_leads hinitial hle hbefore
        fun e he => hfits e (List.mem_append_left _ he)
      exact acquired_le_of_leads hinitial hbefore hcount.2 hleads

end Maximum

/-- A thread takes the permit of a `binary_semaphore` and releases it. -/
def takesAndReleases : List (Monitor.Action (Fin 1) Op Outcome) :=
  [.call 0 .acquire, .lock 0 .acquire, .perform 0 .acquire false false,
    .unlock 0 .acquire .returned,
    .call 0 (.release 1), .lock 0 (.release 1),
    .perform 0 (.release 1) false false,
    .notifyNobody 0 (.release 1) 0 .returned, .unlock 0 (.release 1) .returned]

/-- A thread releases a permit of a `binary_semaphore` that it has not taken,
and then takes two. -/
def releasesAndTakesTwo : List (Monitor.Action (Fin 1) Op Outcome) :=
  [.call 0 (.release 1), .lock 0 (.release 1),
    .perform 0 (.release 1) false false,
    .notifyNobody 0 (.release 1) 0 .returned, .unlock 0 (.release 1) .returned,
    .call 0 .acquire, .lock 0 .acquire, .perform 0 .acquire false false,
    .unlock 0 .acquire .returned,
    .call 0 .tryAcquire, .lock 0 .tryAcquire,
    .perform 0 .tryAcquire false false,
    .unlock 0 .tryAcquire (.flag true)]

/-- The semaphore after a run of one thread. -/
def binaryAfter (actions : List (Monitor.Action (Fin 1) Op Outcome)) :
    Monitor.State (Fin 1) ℤ Op Outcome :=
  (Monitor.system monitor 1).after
    (Monitor.initialState (Fin 1) Op Outcome 1) actions

theorem staysWithin_takesAndReleases :
    StaysWithin 1 (binaryAfter takesAndReleases) :=
  (staysWithin_iff_fits (by decide) le_rfl (by decide)
    (TransitionSystem.Executes.reachable (.init rfl) (by decide))).mpr
      (by decide)

/-- A `binary_semaphore` lets two holders in at once. -/
theorem not_forall_staysWithin :
    ¬∀ (initial maximum : ℤ) (s : Monitor.State (Fin 1) ℤ Op Outcome),
      0 ≤ initial → initial ≤ maximum → maximum ≤ ptrdiffMax →
      (Monitor.system monitor initial).Reachable s →
      StaysWithin maximum s := by
  intro hall
  have hstays := hall 1 1 (binaryAfter releasesAndTakesTwo) (by decide) le_rfl
    (by decide) (TransitionSystem.Executes.reachable (.init rfl) (by decide))
  have hadmits := hstays.admits
    [⟨0, .release 1, 1, 2⟩] [⟨0, .acquire, 2, 1⟩, ⟨0, .tryAcquire, 1, 0⟩]
    (by decide)
  exact absurd hadmits (by decide)

end SyncSemaphore
end Ethreads
