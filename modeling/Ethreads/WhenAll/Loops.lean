import Ethreads.CoroTask.Progress
import Ethreads.Support.Ensemble
import Ethreads.WhenAll.Parties

/-!
# Coroutines that loop over a list of tasks

What `when_all`, `when_all_passive` and `when_any` have in common: the tasks of
the list run by the completion protocol, a first loop starts them one after the
other, and the coroutine asks for results of theirs later.  Both loops come to
the end of a round by the progress of one task.
-/

namespace Ethreads
namespace WhenAll

open CoroTask (Completion Handle)

variable {υ T E : Type*} {noop : BitVec 64}

theorem allowed_of_advances {c : Completion T E}
    {a : CoroTask.Action (Party υ) T E} (ha : CoroTask.Advances c a) :
    Allowed c a := by
  cases a <;> first | exact ha.elim | exact ha

theorem underway_of_starts {p : CoroTask.Pc T E} (hp : p.starts = true)
    (hidle : p ≠ .idle) : p.underway ∧ p.consumes = false := by
  cases p with
  | idle => exact absurd rfl hidle
  | started => exact ⟨Or.inr (Or.inr rfl), rfl⟩
  | casStarted q =>
      cases of_decide_eq_true hp
      exact ⟨Or.inl rfl, rfl⟩
  | checkDone q =>
      cases of_decide_eq_true hp
      exact ⟨Or.inl rfl, rfl⟩
  | schedule q =>
      cases of_decide_eq_true hp
      exact ⟨Or.inl rfl, rfl⟩
  | _ => cases hp

variable [DecidableEq υ]

/-- A coroutine with the program points `π` that starts the tasks of the list
`L` one after the other. -/
structure Loops {σ α : Type*} (M : TransitionSystem σ α) (υ : Type*)
    [DecidableEq υ] (h : Handle noop) (L : List (Completion T E))
    (π : Type*) extends
    Ensemble M (CoroTask.system T E fun _ : Party υ => h) (Fin L.length) π where
  start : ℕ → π
  nextStart : Fin L.length → α
  allowed : ∀ p i a, Allows p i a → Allowed (L.get i) a
  allows : ∀ p i a, CoroTask.Advances (L.get i) a → Allows p i a
  allows_start : ∀ i : Fin L.length, Allows (start i) i (.callStart .starter)
  enabled_nextStart : ∀ s (i : Fin L.length), rest s = start i →
    (get s i).pc .starter = .started → M.Enabled s (nextStart i)
  rest_nextStart : ∀ s (i : Fin L.length),
    rest (M.next s (nextStart i)) = start (i + 1)

namespace Loops

variable {σ α π : Type*} {M : TransitionSystem σ α} {h : Handle noop}
  {L : List (Completion T E)} (C : Loops M υ h L π) {s : σ}

theorem used (hs : M.Reachable s) (i : Fin L.length) :
    Used (L.get i) (C.get s i) :=
  used_reachableWhere (C.reachableWhere C.allowed hs i)

/-- Whoever gets the result of a task gets what its body ends with. -/
theorem result_eq (hs : M.Reachable s) {i : Fin L.length} {p : Party υ}
    {b : Bool} {r : Option (Completion T E)}
    (hp : (C.get s i).pc p = .returned b r) : r = some (L.get i) := by
  obtain ⟨d, hd, hr⟩ :=
    CoroTask.exists_completion_of_returned (C.reachable hs i) hp
  rw [hr, (C.used hs i).completion d hd]

/-- What a task reaches by itself is reached in the whole. -/
theorem mayReach_task (i : Fin L.length)
    {B : CoroTask.State (Party υ) T E → Prop}
    (hB : (CoroTask.advancing (fun _ => h) (L.get i)).MayReach (C.get s i) B) :
    M.MayReach s fun s' => B (C.get s' i) ∧ C.rest s' = C.rest s :=
  C.mayReach (fun _ b hb => C.allows _ i b hb) hB

/-- A call is a step of its task, and its caller stands at its beginning. -/
theorem call {i : Fin L.length} {a : CoroTask.Action (Party υ) T E}
    {p : Party υ} {q : CoroTask.Pc T E}
    (hpc : (CoroTask.next (fun _ => h) (C.get s i) a).pc =
      Function.update (C.get s i).pc p q) :
    (C.get (M.next s (C.act i a)) i).pc p = q := by
  rw [C.get_act_self]
  change (CoroTask.next (fun _ => h) (C.get s i) a).pc p = q
  rw [hpc, Function.update_self]

/-! ## The loop that starts the tasks -/

theorem mayReach_next_of_underway (hs : M.Reachable s) {i : Fin L.length}
    (hpc : C.rest s = C.start i)
    (hunderway : ((C.get s i).pc .starter).underway)
    (hconsumes : ((C.get s i).pc .starter).consumes = false) :
    M.MayReach s fun s' => C.rest s' = C.start (i + 1) := by
  refine (C.mayReach_task i (CoroTask.mayReach_started (C.reachable hs i)
    (L.get i) hunderway hconsumes)).trans ?_
  rintro s' ⟨hstarted, hsame⟩
  have ha := C.enabled_nextStart s' i (hsame.trans hpc) hstarted
  exact .of_next ha (.of_now (C.rest_nextStart s' i))

/-- A round of the loop ends. -/
theorem mayReach_next (hs : M.Reachable s) {i : Fin L.length}
    (hpc : C.rest s = C.start i) :
    M.MayReach s fun s' => C.rest s' = C.start (i + 1) := by
  have hused := C.used hs i
  by_cases hidle : (C.get s i).pc .starter = .idle
  · have ha : M.Enabled s (C.act i (.callStart .starter)) :=
      C.enabled_act s i _ ⟨hidle, hused.destructor⟩
        (hpc ▸ C.allows_start i)
    have hnext : (C.get (M.next s (C.act i (.callStart .starter))) i).pc
        .starter = .casStarted .start := C.call rfl
    refine .of_next ha (C.mayReach_next_of_underway (.step hs ha trivial)
      ((C.rest_act s i _).trans hpc) ?_ ?_)
    · rw [hnext]
      exact Or.inl rfl
    · rw [hnext]
      rfl
  · obtain ⟨hunderway, hconsumes⟩ := underway_of_starts hused.starter hidle
    exact C.mayReach_next_of_underway hs hpc hunderway hconsumes

/-- All tasks are started. -/
theorem mayReach_startsDone {i : ℕ} (hi : i ≤ L.length) (hs : M.Reachable s)
    (hpc : C.rest s = C.start i) :
    M.MayReach s fun s' => M.Reachable s' ∧ C.rest s' = C.start L.length := by
  refine TransitionSystem.MayReach.of_loop
    (A := fun i s => M.Reachable s ∧ C.rest s = C.start i) ?_
    (fun s hs => .of_now hs) hi ⟨hs, hpc⟩
  rintro i hi s ⟨hs, hpc⟩
  have hround := C.mayReach_next hs (i := ⟨i, hi⟩) hpc
  exact (hround.reachable hs).mono fun s' hs' => Or.inl hs'

/-! ## Asking for a result -/

variable [Fintype υ]

theorem mayReach_result_of_consumes (hs : M.Reachable s) {i : Fin L.length}
    (hconsumes : ((C.get s i).pc .consumer).consumes = true) :
    M.MayReach s fun s' => C.rest s' = C.rest s ∧
      ∃ b, (C.get s' i).pc .consumer = .returned b (some (L.get i)) := by
  refine (C.mayReach_task i (CoroTask.mayReach_returned (C.reachable hs i)
    (L.get i) hconsumes)).reachable hs |>.mono ?_
  rintro s' ⟨hs', ⟨b, r, hr⟩, hsame⟩
  rw [C.result_eq hs' hr] at hr
  exact ⟨hsame, b, hr⟩

/-- The consumer of a task gets what the body ends with, if it may ask for it
with `co_await` or `get`. -/
theorem mayReach_result (hs : M.Reachable s) {i : Fin L.length}
    {a : CoroTask.Action (Party υ) T E}
    (ha : a = .coAwait .consumer ∨ a = .callGet .consumer)
    (hallows : C.Allows (C.rest s) i a) :
    M.MayReach s fun s' => C.rest s' = C.rest s ∧
      ∃ b, (C.get s' i).pc .consumer = .returned b (some (L.get i)) := by
  have hused := C.used hs i
  have hguards := (CoroTask.handedOff_reachable (C.reachable hs i)).consumer
  rcases hused.consumer with ⟨hnone, hidle⟩ | hsome
  · have hcalls : ∀ q : CoroTask.Pc T E,
        (CoroTask.next (fun _ => h) (C.get s i) a).pc =
          Function.update (C.get s i).pc .consumer q → q.consumes = true →
        CoroTask.Enabled (fun _ => h) (C.get s i) a →
          M.MayReach s fun s' => C.rest s' = C.rest s ∧
            ∃ b, (C.get s' i).pc .consumer =
              .returned b (some (L.get i)) := by
      intro q hpc hq hcall
      have henabled := C.enabled_act s i a hcall hallows
      have hconsumes : ((C.get (M.next s (C.act i a)) i).pc
          .consumer).consumes = true := by
        rw [C.call hpc]
        exact hq
      have hresult := C.mayReach_result_of_consumes
        (.step hs henabled trivial) hconsumes
      refine .of_next henabled (hresult.mono fun s' hs' => ?_)
      exact ⟨hs'.1.trans (C.rest_act s i a), hs'.2⟩
    rcases ha with rfl | rfl
    · exact hcalls _ rfl rfl ⟨hidle, hused.destructor, hnone⟩
    · exact hcalls _ rfl rfl ⟨hidle, hused.destructor, hnone⟩
  · exact C.mayReach_result_of_consumes hs ((hguards .consumer).mpr hsome)

end Loops

end WhenAll
end Ethreads
