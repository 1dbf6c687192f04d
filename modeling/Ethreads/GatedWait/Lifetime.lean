import Ethreads.GatedWait.Private

/-!
# Lifetimes of awaiters

An awaiter lives from its construction until its coroutine has returned from
`resume_impl`.  Awaiters that live at the same time share no memory, and the
coroutine that waits is suspended in one wait only.
-/

namespace Ethreads
namespace GatedWait

variable {ω γ ν κ ι τ : Type*}

section Steps

variable [DecidableEq ω] [DecidableEq γ] [DecidableEq ν] [DecidableEq κ]
  [DecidableEq ι] [DecidableEq τ] {cfg : Config ω γ ν κ ι}
  {s : State ω γ ν κ ι τ} {a : Action ω γ ν κ ι τ} {v w : ω}

/-! ## Waits in progress -/

/-- The coroutine has not been resumed from a wait before it suspends. -/
def Fresh (s : State ω γ ν κ ι τ) : Prop :=
  ∀ w, s.suspend w = .idle ∨ s.suspend w = .ready → s.resume w = .waiting

omit [DecidableEq ω] [DecidableEq γ] [DecidableEq ν] [DecidableEq κ]
  [DecidableEq ι] [DecidableEq τ] in
theorem eq_construct_of_suspendsTo
    (h : a.suspendsTo cfg = some (w, .idle) ∨
      a.suspendsTo cfg = some (w, .ready)) : a = .construct w := by
  have hidle : ∀ v j, register cfg v j ≠ .idle := register_ne nofun nofun
  have hready : ∀ v j, register cfg v j ≠ .ready := register_ne nofun nofun
  have hstoreIdle : ∀ v, afterStore cfg v ≠ .idle :=
    afterStore_ne nofun nofun nofun
  have hstoreReady : ∀ v, afterStore cfg v ≠ .ready :=
    afterStore_ne nofun nofun nofun
  cases a <;> simp_all [Action.suspendsTo]

theorem fresh_next (h : Fresh s) (ha : Enabled cfg s a) :
    Fresh (next cfg s a) := by
  intro w hw
  have hold : (s.suspend w = .idle ∨ s.suspend w = .ready) ∨
      a = .construct w := by
    rcases hw with hw | hw
    · rcases suspend_of_next hw with ⟨hold, -⟩ | hmoves
      · exact .inl (.inl hold)
      · exact .inr (eq_construct_of_suspendsTo (.inl hmoves))
    · rcases suspend_of_next hw with ⟨hold, -⟩ | hmoves
      · exact .inl (.inr hold)
      · exact .inr (eq_construct_of_suspendsTo (.inr hmoves))
  rcases hold with hold | rfl
  · have hwait := h w hold
    cases a with
    | readyTrue v e =>
        have hv : w ≠ v := by
          rintro rfl
          simp [next, State.suspendTo] at hw
        exact (Function.update_of_ne hv _ _).trans hwait
    | resume v =>
        have hv : w ≠ v := by
          rintro rfl
          rcases hold with hold | hold
          · exact ha.1 hold
          · exact ha.2.1 hold
        exact (Function.update_of_ne hv _ _).trans hwait
    | finish v c =>
        have hv : w ≠ v := by
          rintro rfl
          cases hwait.symm.trans ha.1
        exact (Function.update_of_ne hv _ _).trans hwait
    | timer b =>
        simp only [next, afterTimer_resume]
        exact hwait
    | _ => exact hwait
  · exact h w (.inl ha.1)

theorem fresh_of_reachable (hs : (system cfg τ).Reachable s) : Fresh s := by
  refine hs.invariant Fresh ?_ fun s a h ha => fresh_next h ha
  rintro s ⟨clock, rfl⟩ w hw
  rfl

/-- Only the last step of `resume_impl` ends a wait. -/
theorem returned_of_next (hw : (next cfg s a).resume w = .returned) :
    s.resume w = .returned ∨ ∃ c, a = .finish w c := by
  cases a with
  | readyTrue v e | resume v =>
      left
      by_cases hv : w = v
      · subst hv
        simp [next] at hw
      · exact (Function.update_of_ne hv _ _).symm.trans hw
  | finish v c =>
      by_cases hv : w = v
      · exact .inr ⟨c, by rw [hv]⟩
      · exact .inl ((Function.update_of_ne hv _ _).symm.trans hw)
  | timer b =>
      simp only [next, afterTimer_resume] at hw
      exact .inl hw
  | _ => exact .inl hw

/-- A coroutine that has returned from a wait does not return to it. -/
theorem returned_next (hfresh : Fresh s) (ha : Enabled cfg s a)
    (hw : s.resume w = .returned) : (next cfg s a).resume w = .returned := by
  cases a with
  | readyTrue v e =>
      have hv : w ≠ v := by
        rintro rfl
        exact nomatch (hfresh w (.inr ha.1)).symm.trans hw
      exact (Function.update_of_ne hv _ _).trans hw
  | resume v =>
      have hv : w ≠ v := by
        rintro rfl
        exact nomatch ha.2.2.1.symm.trans hw
      exact (Function.update_of_ne hv _ _).trans hw
  | finish v c =>
      by_cases hv : w = v
      · rw [hv]
        exact Function.update_self _ _ _
      · exact (Function.update_of_ne hv _ _).trans hw
  | timer b =>
      simp only [next, afterTimer_resume]
      exact hw
  | _ => exact hw

/-- Only its construction brings a wait into progress. -/
theorem inProgress_of_next (hfresh : Fresh s) (ha : Enabled cfg s a)
    (hw : (next cfg s a).InProgress w) :
    s.InProgress w ∨ a = .construct w := by
  obtain ⟨hsuspend, hresume⟩ := hw
  have hbusy : s.suspend w ≠ .idle ∨ a = .construct w := by
    by_cases hidle : s.suspend w = .idle
    · right
      rcases suspend_of_next (rfl : (next cfg s a).suspend w = _) with
        ⟨hstays, -⟩ | hmoves
      · exact absurd (hstays.symm.trans hidle) hsuspend
      · have hfrom : SuspendPc.idle = a.suspendsFrom :=
          hidle.symm.trans (suspend_eq_suspendsFrom ha hmoves)
        cases a with
        | construct v =>
            obtain ⟨rfl, -⟩ := Prod.mk.inj (Option.some.inj hmoves)
            rfl
        | readyTrue v e | readyFalse v | storeGate v | addedTimer v
        | setHandle v j | setGate v j | callAdd v j i | added v j i
        | recheckEmpty v | recheckFound v | casWon v | casLost v
        | schedule v => exact nomatch hfrom
        | _ => exact nomatch hmoves
    · exact .inl hidle
  rcases hbusy with hbusy | rfl
  · exact .inl ⟨hbusy, fun hw => hresume (returned_next hfresh ha hw)⟩
  · exact .inr rfl

/-! ## Memory of the awaiters -/

omit [DecidableEq ω] [DecidableEq γ] [DecidableEq ν] [DecidableEq κ]
  [DecidableEq ι] [DecidableEq τ] in
theorem Disjoint.symm (h : Disjoint cfg v w) : Disjoint cfg w v :=
  ⟨Ne.symm h.1, fun n hw hv => h.2 n hv hw⟩

/-- No two waits in progress share memory. -/
theorem disjoint_of_inProgress (hs : (system cfg τ).Reachable s)
    (hv : s.InProgress v) (hw : s.InProgress w) (hne : v ≠ w) :
    Disjoint cfg v w := by
  refine hs.invariant_of (J := Fresh) (fun s => ∀ v w, s.InProgress v →
    s.InProgress w → v ≠ w → Disjoint cfg v w)
    (fun s hs => fresh_of_reachable hs) ?_ ?_ v w hv hw hne
  · rintro s ⟨clock, rfl⟩ v w hv
    exact absurd rfl hv.1
  · intro s a hfresh h ha v w hv hw hne
    have henabled : Enabled cfg s a := ha
    rcases inProgress_of_next hfresh ha hv with hvs | rfl
    · rcases inProgress_of_next hfresh ha hw with hws | rfl
      · exact h v w hvs hws hne
      · exact (ha.2 v hvs).1
    · rcases inProgress_of_next hfresh henabled hw with hws | heq
      · exact (ha.2 w hws).1.symm
      · exact absurd (Action.construct.inj heq) hne

/-- A gate belongs to one wait in progress at most. -/
theorem eq_of_gate_eq (hs : (system cfg τ).Reachable s)
    (hv : s.InProgress v) (hw : s.InProgress w)
    (hgate : cfg.gate v = cfg.gate w) : v = w := by
  by_contra hne
  exact (disjoint_of_inProgress hs hv hw hne).1 hgate

theorem eq_of_mem_nodes (hs : (system cfg τ).Reachable s)
    (hv : s.InProgress v) (hw : s.InProgress w) {n : ν}
    (hnv : n ∈ nodes cfg v) (hnw : n ∈ nodes cfg w) : v = w := by
  by_contra hne
  exact (disjoint_of_inProgress hs hv hw hne).2 n hnv hnw

end Steps

/-! ## Two waits at one address -/

/-- Two timed waits of one coroutine on one list, one after the other at the
same address. -/
def waitTwice : Config Bool Unit ℕ Unit Unit where
  gate _ := ()
  node _ j := j
  coroutine _ := ()
  deadline w := some (if w then 3 else 1)
  lists _ := [()]
  node_injective _ _ _ h := h

/-- A wait registers its timer and its node. -/
def registerBoth (w : Bool) : List (Action Bool Unit ℕ Unit Unit Unit) :=
  [.construct w, .readyFalse w, .storeGate w, .timer (.callAdd w),
    .timer (.lockAdd w), .timer (.push w), .timer (.unlockAdd w),
    .timer (.notifyAdd w), .addedTimer w, .setHandle w 0, .setGate w 0,
    .callAdd w 0 (), .list () (.addLoad (.inr w) 0),
    .list () (.addLink (.inr w) 0 none), .list () (.addCas (.inr w) 0 none),
    .added w 0 (), .recheckEmpty w]

/-- A call of `wake_one` ends the wait. -/
def wakeWait (w : Bool) : List (Action Bool Unit ℕ Unit Unit Unit) :=
  [.list () (.callWakeOne (.inl ())), .list () (.wakeLoad (.inl ())),
    .list () (.wakeNext (.inl ()) 0), .list () (.wakeCas (.inl ()) 0 none),
    .handleFound () () 0 none, .gateRead () () 0 none,
    .gateWon () () 0 none (), .deliver () () 0 none (some ()), .resume w,
    .finish w false]

/-- The clock ticks, and the timer thread fires the entry of the wait. -/
def fireEntry (w : Bool) (now : ℕ) :
    List (Action Bool Unit ℕ Unit Unit Unit) :=
  [.timer .tick, .timer .lockTimer, .timer .loadRunningTrue,
    .timer .heapNotEmpty, .timer .readClock, .timer (.pop now w),
    .timer (.fireWon w ()), .timer (.unlockFired w), .timer (.schedule w)]

end GatedWait
end Ethreads
