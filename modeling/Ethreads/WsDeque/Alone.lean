import Ethreads.WsDeque.Sequential

/-!
# Calls that run alone

If no other call is in progress, the steps of a call of the work-stealing deque
can be taken one after the other, and they amount to the call of the sequential
deque.
-/

namespace Ethreads
namespace WsDeque

variable {τ α : Type*} [DecidableEq τ] [Inhabited α] {c : Config}
  {s : State τ α}

def State.deque (s : State τ α) : Deque α where
  top := s.top
  bottom := s.bottom
  array := s.heap s.array

/-! ## Steal -/

theorem exists_leads_steal {u : τ} (hu : s.thief u = .idle) :
    ∃ s', (system c τ).Leads s s' ∧ s'.owner = s.owner ∧
      s'.deque = s.deque.steal.2 ∧
      s'.stolen = s.stolen ++ s.deque.steal.1.toList := by
  by_cases hlt : s.top < s.bottom
  · have hsteal : s.deque.steal = (some ((s.heap s.array).get s.top),
        ⟨add s.top 1, s.bottom, s.heap s.array⟩) := if_pos hlt
    have hrun : (system c τ).Executes s [.callSteal u, .stealLoadTop u,
        .stealLoadBottom u s.top, .stealLoadArray u s.top,
        .stealGet u s.top s.array,
        .stealCas u s.top ((s.heap s.array).get s.top)] := by
      simp [system, Enabled, next, State.thiefTo, hu, hlt]
    refine ⟨_, hrun.leads, ?_, ?_, ?_⟩
    · simp [system, next, State.thiefTo, State.takeFront]
    · rw [hsteal]
      simp [system, next, State.deque, State.thiefTo, State.takeFront]
    · rw [hsteal]
      simp [system, next, State.thiefTo, State.takeFront]
  · have hsteal : s.deque.steal = (none, s.deque) := if_neg hlt
    have hrun : (system c τ).Executes s [.callSteal u, .stealLoadTop u,
        .stealEmpty u s.top] := by
      simp [system, Enabled, next, State.thiefTo, hu, not_lt.mp hlt]
    refine ⟨_, hrun.leads, ?_, ?_, ?_⟩
    · simp [system, next, State.thiefTo]
    · rw [hsteal]
      simp [system, next, State.deque, State.thiefTo]
    · rw [hsteal]
      simp [system, next, State.thiefTo]

/-! ## Pop -/

theorem exists_leads_pop (howner : s.owner = .idle) :
    ∃ s', (system c τ).Leads s s' ∧ s'.owner = .idle ∧
      s'.deque = s.deque.pop.2 ∧
      s'.popped = s.popped ++ s.deque.pop.1.toList := by
  by_cases hzero : s.bottom = 0
  · have hpop : s.deque.pop = (none, s.deque) := if_pos hzero
    have hrun : (system c τ).Executes s [.callPop, .popZero] := by
      simp [system, Enabled, next, howner, hzero]
    refine ⟨_, hrun.leads, ?_, ?_, ?_⟩
    · simp [system, next]
    · rw [hpop]
      simp [system, next, State.deque]
    · rw [hpop]
      simp [system, next]
  · obtain ⟨b, hb⟩ : ∃ b, sub s.bottom 1 = b := ⟨_, rfl⟩
    rcases lt_trichotomy s.top b with hmany | hlast | hempty
    · have hpop := Deque.pop_of_lt (d := s.deque) hzero hb hmany
      have hrun : (system c τ).Executes s [.callPop, .popLoadBottom,
          .popLoadArray b, .popStoreBottom b s.array, .popMany b s.array,
          .popGet b s.array s.top] := by
        simp [system, Enabled, next, State.claimBack, howner, hzero, hb, hmany,
          hmany.ne]
      refine ⟨_, hrun.leads, ?_, ?_, ?_⟩
      · simp [system, next]
      · rw [hpop]
        simp [system, next, State.deque, State.claimBack]
      · rw [hpop]
        simp [system, next, State.deque, State.claimBack]
    · have hpop := Deque.pop_of_eq (d := s.deque) hzero hb hlast
      have hrun : (system c τ).Executes s [.callPop, .popLoadBottom,
          .popLoadArray b, .popStoreBottom b s.array, .popLast b s.array,
          .popGetLast b s.array b, .popCas b b ((s.heap s.array).get b),
          .restore b (some ((s.heap s.array).get b))] := by
        simp [system, Enabled, next, State.claimBack, howner, hzero, hb, hlast]
      refine ⟨_, hrun.leads, ?_, ?_, ?_⟩
      · simp [system, next]
      · rw [hpop]
        simp [system, next, State.deque, State.claimBack]
      · rw [hpop]
        simp [system, next, State.deque, State.claimBack]
    · have hpop := Deque.pop_of_gt (d := s.deque) hzero hb hempty
      have hrun : (system c τ).Executes s [.callPop, .popLoadBottom,
          .popLoadArray b, .popStoreBottom b s.array, .popEmpty b s.array,
          .restore b none] := by
        simp [system, Enabled, next, howner, hzero, hb, hempty]
      refine ⟨_, hrun.leads, ?_, ?_, ?_⟩
      · simp [system, next]
      · rw [hpop]
        simp [system, next, State.deque]
      · rw [hpop]
        simp [system, next]

/-! ## Push -/

/-- The loop of `grow`. -/
theorem leads_copied {x : α} {b t arr new i : ℕ} (count : ℕ)
    (howner : s.owner = .grow x b t arr new i) (hne : arr ≠ new)
    (hcount : b - i = count) (hb : b < 2 ^ 64) :
    (system c τ).Leads s
      { s with
        heap := Function.update s.heap new
          ((s.heap arr).copyItems count i (s.heap new))
        owner := .storeArray x b new } := by
  induction count generalizing s i with
  | zero =>
      have hstep : (system c τ).Enabled s (.copied x b t arr new i) :=
        ⟨howner, by omega⟩
      have hleads := TransitionSystem.Leads.step (.refl s) hstep
      rw [CircularArray.copyItems, Function.update_eq_self]
      exact hleads
  | succ count ih =>
      have hstep : (system c τ).Enabled s (.copy x b t arr new i) :=
        ⟨howner, by omega⟩
      have hnext : add i 1 = i + 1 := add_eq (by omega)
      have hrest := ih (s := next s (.copy x b t arr new i)) (i := i + 1)
        (by simp only [next, hnext]) (by omega)
      refine TransitionSystem.Leads.trans (.step (.refl s) hstep) ?_
      simp only [next, State.write, Function.update_self,
        Function.update_of_ne hne, Function.update_idem] at hrest
      exact hrest

def Result.added (x : α) : Result α → List α
  | .pushed => [x]
  | _ => []

/-- The steps of a push that makes the array larger. -/
theorem leads_grows {x : α} {size : ℕ} (howner : s.owner = .idle)
    (harray : s.array < s.allocated) (hbottom : s.bottom < 2 ^ 64)
    (hsize : sub s.bottom s.top = size) (hfull : s.capacity - 1 < size)
    (hfits : s.grownCapacity ≤ c.vectorMaxSize) :
    (system c τ).Leads s
      { s with
        heap := Function.update s.heap s.allocated
          ((s.heap s.array).grow s.bottom s.top)
        allocated := s.allocated + 1
        owner := .storeArray x s.bottom s.allocated } := by
  have hrun : (system c τ).Executes s [.callPush x, .pushLoadBottom x,
      .pushLoadTop x s.bottom, .pushGrows x s.bottom s.top] := by
    simp [system, Enabled, next, State.capacity, howner, hsize]
    exact ⟨hfull, hfits⟩
  have hcopied := leads_copied (c := c)
    (s := (system c τ).after s [.callPush x, .pushLoadBottom x,
      .pushLoadTop x s.bottom, .pushGrows x s.bottom s.top])
    (s.bottom - s.top) rfl harray.ne rfl hbottom
  have hboth := TransitionSystem.Leads.trans hrun.leads hcopied
  simp only [system, TransitionSystem.after, next, State.write,
    Function.update_self, Function.update_of_ne harray.ne,
    Function.update_idem] at hboth
  exact hboth

theorem exists_leads_push (x : α) (howner : s.owner = .idle)
    (harray : s.array < s.allocated) (hbottom : s.bottom < 2 ^ 64) :
    ∃ s', (system c τ).Leads s s' ∧ s'.owner = .idle ∧
      s'.deque = (s.deque.call c.vectorMaxSize (.push x)).2 ∧
      s'.pushed =
        s.pushed ++ (s.deque.call c.vectorMaxSize (.push x)).1.added x := by
  obtain ⟨size, hsize⟩ : ∃ size, sub s.bottom s.top = size := ⟨_, rfl⟩
  by_cases hroom : size ≤ s.capacity - 1
  · have hcall : s.deque.call c.vectorMaxSize (.push x) =
        (.pushed, ⟨s.top, add s.bottom 1, (s.heap s.array).put s.bottom x⟩) :=
      Deque.call_push_of_fits hsize hroom
    have hrun : (system c τ).Executes s [.callPush x, .pushLoadBottom x,
        .pushLoadTop x s.bottom, .pushFits x s.bottom s.top,
        .put x s.bottom s.array, .pushStoreBottom x s.bottom] := by
      simp [system, Enabled, next, State.capacity, howner, hsize]
      exact hroom
    refine ⟨_, hrun.leads, ?_, ?_, ?_⟩
    · simp [system, next]
    · rw [hcall]
      simp [system, next, State.deque, State.write]
    · rw [hcall]
      simp [system, next, Result.added, State.write]
  · have hfull : s.capacity - 1 < size := not_le.mp hroom
    obtain ⟨grown, hgrown⟩ : ∃ grown, s.grownCapacity = grown := ⟨_, rfl⟩
    by_cases hfits : grown ≤ c.vectorMaxSize
    · have hcall : s.deque.call c.vectorMaxSize (.push x) =
          (.pushed, ⟨s.top, add s.bottom 1,
            ((s.heap s.array).grow s.bottom s.top).put s.bottom x⟩) :=
        Deque.call_push_of_grows hsize hfull hgrown hfits
      have hgrows := leads_grows (c := c) (x := x) howner harray hbottom hsize
        hfull (hgrown ▸ hfits)
      have hrun : (system c τ).Executes
          { s with
            heap := Function.update s.heap s.allocated
              ((s.heap s.array).grow s.bottom s.top)
            allocated := s.allocated + 1
            owner := .storeArray x s.bottom s.allocated }
          [.storeArray x s.bottom s.allocated, .put x s.bottom s.allocated,
            .pushStoreBottom x s.bottom] := by
        simp [system, Enabled, next]
      refine ⟨_, hgrows.trans hrun.leads, ?_, ?_, ?_⟩
      · simp [system, next]
      · rw [hcall]
        simp [system, next, State.deque, State.write]
      · rw [hcall]
        simp [system, next, Result.added, State.write]
    · have hcall : s.deque.call c.vectorMaxSize (.push x) =
          (.threw, s.deque) :=
        Deque.call_push_of_throws hsize hfull hgrown (not_le.mp hfits)
      have hrun : (system c τ).Executes s [.callPush x, .pushLoadBottom x,
          .pushLoadTop x s.bottom, .pushThrows x s.bottom s.top] := by
        simp [system, Enabled, next, State.capacity, howner, hsize]
        exact ⟨hfull, hgrown ▸ not_le.mp hfits⟩
      refine ⟨_, hrun.leads, ?_, ?_, ?_⟩
      · simp [system, next]
      · rw [hcall]
        simp [system, next, State.deque]
      · rw [hcall]
        simp [system, next, Result.added]

end WsDeque
end Ethreads
