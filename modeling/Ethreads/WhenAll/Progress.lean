import Ethreads.WhenAll.Outcome

/-!
# `when_all` returns

Each round of a loop comes to its end by the progress of its task.  The outcome
of all runs is the one of reading the list in order, for all three functions.
-/

namespace Ethreads
namespace WhenAll

open CoroTask (Completion Handle)

variable {υ T E R : Type*} [DecidableEq υ] {noop : BitVec 64}
  {F : Combinator T R} {h : Handle noop} {L : List (Completion T E)}

/-! ## The loops that wait -/

/-- The call with which the loop that waits begins a round. -/
def Waits (pc : Pc R E) (i : ℕ) (a : CoroTask.Action (Party υ) T E) : Prop :=
  a = .coAwait .consumer ∧ pc = .await i ∨
    a = .callGet .consumer ∧ pc = .get i

omit [DecidableEq υ] in
theorem Waits.call {pc : Pc R E} {i : Fin L.length}
    {a : CoroTask.Action (Party υ) T E} (hwaits : Waits pc i a) :
    (a = .coAwait .consumer ∨ a = .callGet .consumer) ∧
      Allowed (L.get i) a ∧ AtIndex pc i a := by
  rcases hwaits with ⟨rfl, hpc⟩ | ⟨rfl, hpc⟩
  · exact ⟨Or.inl rfl, rfl, hpc⟩
  · exact ⟨Or.inr rfl, rfl, hpc⟩

variable [Fintype υ]

/-- The loop that waits gets what the body of the task ends with. -/
theorem mayReach_result {s : State L.length υ T E R}
    (hs : (system υ F h L).Reachable s) {i : Fin L.length}
    {a : CoroTask.Action (Party υ) T E} (hwaits : Waits s.pc i a) :
    (system υ F h L).MayReach s fun s' => s'.pc = s.pc ∧
      ∃ b, (s'.task i).pc .consumer = .returned b (some (L.get i)) := by
  obtain ⟨hcall, hallows⟩ := hwaits.call
  exact (loops υ F h L).mayReach_result hs hcall hallows

/-- The function has returned or rethrown. -/
def State.Returned {n : ℕ} (s : State n υ T E R) : Prop :=
  ∃ r, s.pc = .returned r

omit [Fintype υ] in
/-- The coroutine resumes once the closure has ended. -/
theorem mayReach_of_storeDone {s : State L.length υ T E R}
    (hpc : s.pc = .storeDone) :
    (system υ F h L).MayReach s State.Returned := by
  have hstore : (system υ F h L).Enabled s .storeDone := hpc
  refine .of_next hstore (.of_next (a := .schedule) rfl ?_)
  exact .of_next (a := .resume) rfl (.of_now ⟨_, rfl⟩)

/-- A loop that waits comes to an end: a round gets the result of its task, and
goes on to the next one or leaves the loop with the exception. -/
theorem mayReach_of_loop (loop : ℕ → Pc R E)
    (step : Fin L.length → Bool → Completion T E → Action L.length υ T E)
    {a : CoroTask.Action (Party υ) T E} (hwaits : ∀ i, Waits (loop i) i a)
    (hstep : ∀ (s : State L.length υ T E R) (i : Fin L.length) b,
      s.pc = loop i → (s.task i).pc .consumer = .returned b (some (L.get i)) →
        (system υ F h L).Enabled s (step i b (L.get i)))
    (hvalue : ∀ (s : State L.length υ T E R) (i : Fin L.length) b v,
      ((system υ F h L).next s (step i b (.value v))).pc = loop (i + 1))
    (hexception : ∀ (s : State L.length υ T E R) i b e,
      (system υ F h L).MayReach
        ((system υ F h L).next s (step i b (.exception e))) State.Returned)
    (hend : ∀ s : State L.length υ T E R, s.pc = loop L.length →
      (system υ F h L).MayReach s State.Returned)
    {i : ℕ} (hi : i ≤ L.length) {s : State L.length υ T E R}
    (hs : (system υ F h L).Reachable s) (hpc : s.pc = loop i) :
    (system υ F h L).MayReach s State.Returned := by
  refine TransitionSystem.MayReach.of_loop
    (A := fun i s => (system υ F h L).Reachable s ∧ s.pc = loop i)
    ?_ (fun s hs => hend s hs.2) hi ⟨hs, hpc⟩
  rintro i hi s ⟨hs, hpc⟩
  have hwait : Waits s.pc (⟨i, hi⟩ : Fin L.length) a := by
    rw [hpc]
    exact hwaits i
  refine (mayReach_result hs hwait).reachable hs |>.trans ?_
  rintro s' ⟨hs', hsame, b, hb⟩
  have ha := hstep s' ⟨i, hi⟩ b (hsame.trans hpc) hb
  have hnext := TransitionSystem.ReachableWhere.step hs' ha trivial
  refine .of_next ha ?_
  cases hc : L.get ⟨i, hi⟩ with
  | value v =>
      rw [hc] at hnext
      exact .of_now (Or.inl ⟨hnext, hvalue s' _ b v⟩)
  | exception e => exact (hexception s' _ b e).mono fun s hs => Or.inr hs

/-- The loop in the pool comes to an end. -/
theorem mayReach_of_get {s : State L.length υ T E R}
    (hs : (system υ F h L).Reachable s) {i : ℕ} (hpc : s.pc = .get i) :
    (system υ F h L).MayReach s State.Returned := by
  have hindex : i ≤ L.length := index_le hs (by rw [hpc]; rfl)
  refine mayReach_of_loop .get .nextGet
    (fun i => Or.inr ⟨rfl, rfl⟩) (fun s i b hpc hb => ⟨hpc, hb⟩)
    (fun _ _ _ _ => rfl) (fun _ _ _ _ => mayReach_of_storeDone rfl) ?_ hindex
    hs hpc
  intro s hend
  have ha : (system υ F h L).Enabled s .getsDone := hend
  exact .of_next ha (mayReach_of_storeDone rfl)

/-- The loop that awaits the tasks comes to an end. -/
theorem mayReach_of_await {s : State L.length υ T E R}
    (hs : (system υ F h L).Reachable s) {i : ℕ} (hpc : s.pc = .await i) :
    (system υ F h L).MayReach s State.Returned := by
  have hindex : i ≤ L.length := index_le hs (by rw [hpc]; rfl)
  refine mayReach_of_loop .await .nextAwait
    (fun i => Or.inl ⟨rfl, rfl⟩) (fun s i b hpc hb => ⟨hpc, hb⟩)
    (fun _ _ _ _ => rfl) (fun _ _ _ _ => .of_now ⟨_, rfl⟩) ?_ hindex hs hpc
  intro s hend
  have ha : (system υ F h L).Enabled s .awaitsDone := hend
  exact .of_next ha (.of_now ⟨_, rfl⟩)

/-- The coroutine that has submitted its closure resumes. -/
theorem mayReach_of_queued {s : State L.length υ T E R}
    (hs : (system υ F h L).Reachable s) (hpc : s.pc = .queued) :
    (system υ F h L).MayReach s State.Returned := by
  have ha : (system υ F h L).Enabled s .runTask := hpc
  exact .of_next ha (mayReach_of_get (.step hs ha trivial) rfl)

theorem mayReach_of_submit {s : State L.length υ T E R}
    (hs : (system υ F h L).Reachable s) (hpc : s.pc = .submit) :
    (system υ F h L).MayReach s State.Returned := by
  have ha : (system υ F h L).Enabled s .submit := hpc
  exact .of_next ha (mayReach_of_queued (.step hs ha trivial) rfl)

/-- The loop that starts the tasks comes to an end, and so does the function
after it. -/
theorem mayReach_of_start {s : State L.length υ T E R}
    (hs : (system υ F h L).Reachable s) {i : ℕ} (hpc : s.pc = .start i) :
    (system υ F h L).MayReach s State.Returned := by
  have hindex : i ≤ L.length := index_le hs (by rw [hpc]; rfl)
  refine ((loops υ F h L).mayReach_startsDone hindex hs hpc).trans ?_
  rintro s ⟨hs, hpc⟩
  have ha : (system υ F h L).Enabled s .startsDone := hpc
  have hnext := TransitionSystem.ReachableWhere.step hs ha trivial
  refine .of_next ha ?_
  by_cases hpassive : F.passive = true
  · refine mayReach_of_submit hnext ?_
    simp [system, next, hpassive]
  · refine mayReach_of_await (i := 0) hnext ?_
    simp [system, next, hpassive]

/-- From every state the function can go on until it returns. -/
theorem mayReach_returned {s : State L.length υ T E R}
    (hs : (system υ F h L).Reachable s) :
    (system υ F h L).MayReach s State.Returned := by
  cases hpc : s.pc with
  | start i => exact mayReach_of_start hs hpc
  | await i => exact mayReach_of_await hs hpc
  | submit => exact mayReach_of_submit hs hpc
  | queued => exact mayReach_of_queued hs hpc
  | get i => exact mayReach_of_get hs hpc
  | storeDone => exact mayReach_of_storeDone hpc
  | schedule =>
      have ha : (system υ F h L).Enabled s .schedule := hpc
      exact .of_next ha (.of_next (a := .resume) rfl (.of_now ⟨_, rfl⟩))
  | scheduled =>
      have ha : (system υ F h L).Enabled s .resume := hpc
      exact .of_next ha (.of_now ⟨_, rfl⟩)
  | returned r => exact .of_now ⟨r, hpc⟩

/-! ## The outcome of all runs -/

/-- In every run the function returns nothing but `r`, and from every state of
it the function can go on until it has returned. -/
structure Delivers (υ : Type*) [DecidableEq υ] (F : Combinator T R)
    (h : Handle noop) (L : List (Completion T E)) (r : Except E R) :
    Prop where
  returned_eq : ∀ s, (system υ F h L).Reachable s →
    ∀ r', s.pc = .returned r' → r' = r
  mayReach : ∀ s, (system υ F h L).Reachable s →
    (system υ F h L).MayReach s State.Returned

/-- All runs have the outcome of reading the list in order. -/
theorem delivers_collect (F : Combinator T R) (h : Handle noop)
    (L : List (Completion T E)) :
    Delivers υ F h L (F.collect F.results L) where
  returned_eq _ hs _ hr := returned_eq hs hr
  mayReach _ hs := mayReach_returned hs

omit [DecidableEq υ] [Fintype υ] in
theorem foldl_pushBack_whenAll (vs : List T) :
    vs.foldl (whenAll T).pushBack (whenAll T).results = vs := by
  calc
    vs.foldl (whenAll T).pushBack (whenAll T).results =
        [] ++ (vs.map fun v => [v]).flatten := List.foldl_append_eq_append
    _ = vs.flatMap fun v => [v] := List.flatMap_def.symm
    _ = vs := List.flatMap_singleton' vs

/-- `when_all` returns the values in the order of the list, or rethrows the
exception of the first task that fails, whenever the tasks complete; for void
tasks `when_all_passive` does the same as `when_all`. -/
theorem whenAll_delivers (h : Handle noop) :
    (∀ L : List (Completion T E), ∃ r,
      Delivers υ (whenAll T) h L r ∧ Settles (fun vs => vs) L r) ∧
    ∀ L : List (Completion Unit E), ∃ r,
      Delivers υ whenAllVoid h L r ∧ Delivers υ whenAllPassive h L r ∧
        Settles (fun _ => ()) L r := by
  constructor
  · intro L
    refine ⟨_, delivers_collect (whenAll T) h L, ?_⟩
    have hsettles := settles_collect (whenAll T) L
    simpa only [foldl_pushBack_whenAll] using hsettles
  · intro L
    exact ⟨_, delivers_collect whenAllVoid h L,
      delivers_collect whenAllPassive h L, settles_collect whenAllVoid L⟩

end WhenAll
end Ethreads
