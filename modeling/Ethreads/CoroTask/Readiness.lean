import Ethreads.CoroTask.Progress

/-!
# A started task completes by itself

Once a task has been started it gets scheduled, and its coroutine runs to its
end without anybody asking for the result: only a consumer could keep it from
`mutex`.
-/

namespace Ethreads
namespace CoroTask

variable {τ T E : Type*} [DecidableEq τ] {noop : BitVec 64}

theorem consumer_of_advances {handle : τ → Handle noop} {c : Completion T E}
    {s : State τ T E} {a : Action τ T E} (ha : Advances c a) :
    (next handle s a).consumer = s.consumer := by
  cases a <;> first | exact ha.elim | rfl

theorem mayReach_scheduled_of_started [Fintype τ] {handle : τ → Handle noop}
    {s : State τ T E} (hs : (system T E handle).Reachable s)
    (c : Completion T E) (hstarted : s.started = true) :
    (advancing handle c).MayReach s fun s' =>
      0 < s'.scheduled ∧ s'.consumer = s.consumer := by
  have hlaunch := launched_reachable hs
  by_cases hscheduled : 0 < s.scheduled
  · exact .of_now ⟨hscheduled, rfl⟩
  have hpos : 0 < tally Pc.pending s.pc := by
    have haccount := hlaunch.account
    rw [hstarted, Bool.toNat_true] at haccount
    omega
  obtain ⟨u, hu⟩ := tally_pos_iff.mp hpos
  have hone : (s.pc u).pending = 1 := by
    cases hp : s.pc u <;> rw [hp] at hu <;> first | rfl | cases hu
  have hdone := hlaunch.not_isDone hone
  have hschedule : ∀ (s' : State τ T E) (p : Purpose),
      s'.pc u = .schedule p → s'.consumer = s.consumer →
        (advancing handle c).MayReach s' fun s' =>
          0 < s'.scheduled ∧ s'.consumer = s.consumer := by
    intro s' p hp hconsumer
    have ha : (advancing handle c).Enabled s' (.schedule u p) := ⟨hp, trivial⟩
    exact .of_next ha (.of_now ⟨Nat.succ_pos _, hconsumer⟩)
  cases hp : s.pc u with
  | checkDone p =>
      have ha : (advancing handle c).Enabled s (.notDone u p) :=
        ⟨⟨hp, hdone⟩, trivial⟩
      exact .of_next ha (hschedule _ p (Function.update_self ..) rfl)
  | schedule p => exact hschedule s p hp rfl
  | _ =>
      rw [hp] at hone
      cases hone

/-- As long as nobody asks for the result, nobody keeps the coroutine from
`mutex`. -/
theorem mutex_eq_none {handle : τ → Handle noop} {s : State τ T E}
    (hs : (system T E handle).Reachable s) (hnone : s.consumer = none)
    (hcoro : s.coro.locks = false) : s.mutex = none := by
  have hlocked := locked_reachable hs
  cases hm : s.mutex with
  | none => rfl
  | some o =>
      cases o with
      | coroutine => cases hcoro.symm.trans (hlocked.coroutine.mpr hm)
      | caller u =>
          have hu : (s.pc u).locks = true := by
            refine (hlocked.callers u).mpr ?_
            rw [hm]
            rfl
          have hsome := ((handedOff_reachable hs).consumer u).mp
            (consumes_of_locks hu)
          cases hnone.symm.trans hsome

/-- A task that was started runs to its end. -/
theorem mayReach_finished [Fintype τ] {handle : τ → Handle noop}
    {s : State τ T E} (hs : (system T E handle).Reachable s)
    (c : Completion T E) (hstarted : s.started = true)
    (hnone : s.consumer = none) :
    (advancing handle c).MayReach s fun s' => s'.coro = .finished := by
  refine (mayReach_scheduled_of_started hs c hstarted).reachable_of_restrict
    hs |>.trans ?_
  rintro s₁ ⟨hs₁, hscheduled, hkept⟩
  have hstart : (system T E handle).Reachable s₁ ∧ 0 < s₁.scheduled ∧
      s₁.consumer = none := ⟨hs₁, hscheduled, hkept.trans hnone⟩
  refine TransitionSystem.MayReach.of_variant
    (I := fun s => (system T E handle).Reachable s ∧ 0 < s.scheduled ∧
      s.consumer = none)
    (fun s => s.coro.distance s.word) ?_ hstart
  rintro s ⟨hs, hscheduled, hnone⟩ hnot
  obtain ⟨a, ha⟩ := exists_runs (published_reachable hs)
    (handedOff_reachable hs) c hscheduled hnot
    fun d hd => mutex_eq_none hs hnone (by rw [hd]; rfl)
  refine ⟨a, ⟨ha.enabled, ha.advances⟩,
    ⟨.step hs ha.enabled trivial, ?_, ?_⟩, ha.distance⟩
  · change 0 < (next handle s a).scheduled
    rw [ha.scheduled]
    exact hscheduled
  · exact (consumer_of_advances ha.advances).trans hnone

theorem mayReach_ready [Fintype τ] {handle : τ → Handle noop}
    {s : State τ T E} (hs : (system T E handle).Reachable s)
    (c : Completion T E) (hstarted : s.started = true)
    (hnone : s.consumer = none) :
    (advancing handle c).MayReach s fun s' => s'.ready = true := by
  refine (mayReach_finished hs c hstarted hnone).reachable_of_restrict hs
    |>.mono ?_
  rintro s' ⟨hs', hfinished⟩
  rw [(published_reachable hs').ready, hfinished]
  rfl

end CoroTask
end Ethreads
