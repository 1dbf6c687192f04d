import Ethreads.WhenAll.Loops

/-!
# What `when_all` returns

The loops read the results of the tasks in the order of the list, and each of
them is what the body of the task ends with.  So what the function is going to
return, as far as its program point and its results tell, is the same in all
states of all runs.
-/

namespace Ethreads
namespace WhenAll

open CoroTask (Completion Handle)

variable {υ T E R : Type*} {noop : BitVec 64}

/-! ## Reading the list in order -/

/-- One result is added, or its exception ends the loop. -/
def Combinator.add (F : Combinator T R) (results : R) :
    Completion T E → Except E R
  | .value v => .ok (F.pushBack results v)
  | .exception e => .error e

/-- What a loop over these results leads to. -/
def Combinator.collect (F : Combinator T R) (results : R)
    (L : List (Completion T E)) : Except E R :=
  L.foldlM F.add results

@[simp] theorem collect_nil (F : Combinator T R) (results : R) :
    F.collect results ([] : List (Completion T E)) = .ok results := rfl

@[simp] theorem collect_value (F : Combinator T R) (results : R) (v : T)
    (L : List (Completion T E)) :
    F.collect results (.value v :: L) =
      F.collect (F.pushBack results v) L := rfl

@[simp] theorem collect_exception (F : Combinator T R) (results : R) (e : E)
    (L : List (Completion T E)) :
    F.collect results (.exception e :: L) = .error e := rfl

theorem collect_map_value (F : Combinator T R) (results : R) (vs : List T) :
    F.collect results (vs.map (Completion.value (E := E))) =
      .ok (vs.foldl F.pushBack results) := by
  induction vs generalizing results with
  | nil => rfl
  | cons v vs ih => exact ih (F.pushBack results v)

/-- The loop ends with the first exception. -/
theorem collect_eq_error (F : Combinator T R) (results : R)
    {L : List (Completion T E)} {i : ℕ} {e : E}
    (hi : L[i]? = some (.exception e))
    (hbefore : ∀ j < i, ∃ v, L[j]? = some (.value v)) :
    F.collect results L = .error e := by
  induction L generalizing results i with
  | nil => cases hi
  | cons c L ih =>
      cases i with
      | zero =>
          cases hi
          rfl
      | succ i =>
          obtain ⟨v, hv⟩ := hbefore 0 (Nat.succ_pos i)
          cases hv
          rw [collect_value]
          exact ih _ hi fun j hj => hbefore (j + 1) (Nat.succ_lt_succ hj)

/-- If all tasks succeed, their values are returned as `render` shows them,
otherwise the exception of the first task that fails. -/
structure Settles (render : List T → R) (L : List (Completion T E))
    (r : Except E R) : Prop where
  ok : ∀ vs, L = vs.map .value → r = .ok (render vs)
  error : ∀ (i : ℕ) (e : E), L[i]? = some (.exception e) →
    (∀ j < i, ∃ v, L[j]? = some (.value v)) → r = .error e

theorem settles_collect (F : Combinator T R) (L : List (Completion T E)) :
    Settles (fun vs => vs.foldl F.pushBack F.results) L
      (F.collect F.results L) where
  ok := by
    rintro vs rfl
    exact collect_map_value F F.results vs
  error _ _ hi hbefore := collect_eq_error F F.results hi hbefore

/-! ## The outlook of a run -/

/-- What the function is going to return. -/
def State.outlook (F : Combinator T R) (L : List (Completion T E)) {n : ℕ}
    (s : State n υ T E R) : Except E R :=
  match s.pc with
  | .start _ | .submit | .queued => F.collect s.results L
  | .await i | .get i => F.collect s.results (L.drop i)
  | .storeDone | .schedule | .scheduled => awaitResume s.exception s.results
  | .returned r => r

/-- The awaiter of `run_blocking` has no outcome yet. -/
def Pc.open : Pc R E → Bool
  | storeDone | schedule | scheduled | returned _ => false
  | _ => true

def Pc.index : Pc R E → ℕ
  | start i | await i | get i => i
  | _ => 0

/-- The outlook of every state is the outcome of reading the list in order. -/
structure Foreseen (F : Combinator T R) (L : List (Completion T E)) {n : ℕ}
    (s : State n υ T E R) : Prop where
  outlook : s.outlook F L = F.collect F.results L
  exception : s.pc.open = true → s.exception = none
  index : s.pc.index ≤ L.length

variable [DecidableEq υ] {F : Combinator T R} {h : Handle noop}
  {L : List (Completion T E)}

/-- The loops of the functions and their tasks. -/
def loops (υ : Type*) [DecidableEq υ] (F : Combinator T R) (h : Handle noop)
    (L : List (Completion T E)) : Loops (system υ F h L) υ h L (Pc R E) where
  get := State.task
  rest := State.pc
  act := .task
  Allows pc i a := Allowed (L.get i) a ∧ AtIndex pc i a
  initial := by
    rintro s rfl i
    rfl
  enabled_act _ _ _ hb hallows := ⟨hb, hallows⟩
  get_act _ _ _ := rfl
  rest_act _ _ _ := rfl
  cases_enabled s a ha := by
    cases a with
    | task i b => exact Or.inr ⟨i, b, rfl, ha⟩
    | nextAwait i b c => cases c <;> exact Or.inl rfl
    | nextGet i b c => cases c <;> exact Or.inl rfl
    | _ => exact Or.inl rfl
  start := .start
  nextStart := .nextStart
  allowed _ _ _ ha := ha.1
  allows pc i a ha :=
    ⟨allowed_of_advances ha, by cases a <;> first | exact ha.elim | trivial⟩
  allows_start _ := ⟨nofun, rfl⟩
  enabled_nextStart _ _ hpc hstarted := ⟨hpc, hstarted⟩
  rest_nextStart _ _ := rfl

omit [DecidableEq υ] in
/-- A loop goes on with the next result, or ends with its exception. -/
theorem collect_drop (results : R) (i : Fin L.length) {c : Completion T E}
    (hc : some c = some (L.get i)) :
    F.collect results (L.drop i) =
      F.collect results (c :: L.drop (i + 1)) := by
  cases hc
  rw [List.drop_eq_getElem_cons i.isLt]
  rfl

/-- Each step keeps the outlook. -/
theorem foreseen_next {s : State L.length υ T E R}
    {a : Action L.length υ T E} (hs : (system υ F h L).Reachable s)
    (hf : Foreseen F L s) (ha : Enabled h L s a) :
    Foreseen F L (next F h s a) := by
  obtain ⟨houtlook, hexception, hindex⟩ := hf
  cases a with
  | task i b => exact ⟨houtlook, hexception, hindex⟩
  | nextStart i =>
      rw [State.outlook, ha.1] at houtlook
      rw [ha.1] at hexception
      exact ⟨houtlook, hexception, i.isLt⟩
  | startsDone =>
      have hpc : s.pc = .start L.length := ha
      rw [State.outlook, hpc] at houtlook
      rw [hpc] at hexception
      have hnone := hexception rfl
      by_cases hpassive : F.passive = true
      · simp only [next, hpassive, if_true]
        exact ⟨houtlook, fun _ => hnone, Nat.zero_le _⟩
      · simp only [next, hpassive, Bool.false_eq_true, if_false]
        exact ⟨houtlook, fun _ => hnone, Nat.zero_le _⟩
  | nextAwait i b c =>
      rw [State.outlook, ha.1] at houtlook
      rw [ha.1] at hexception
      have hread := collect_drop (F := F) s.results i
        ((loops υ F h L).result_eq hs ha.2)
      cases c with
      | value v => exact ⟨hread.symm.trans houtlook, hexception, i.isLt⟩
      | exception e =>
          exact ⟨hread.symm.trans houtlook, nofun, Nat.zero_le _⟩
  | awaitsDone =>
      have hpc : s.pc = .await L.length := ha
      rw [State.outlook, hpc] at houtlook
      refine ⟨?_, nofun, Nat.zero_le _⟩
      rw [← houtlook]
      change Except.ok s.results = F.collect s.results (L.drop L.length)
      rw [List.drop_length, collect_nil]
  | submit =>
      have hpc : s.pc = .submit := ha
      rw [State.outlook, hpc] at houtlook
      rw [hpc] at hexception
      exact ⟨houtlook, hexception, Nat.zero_le _⟩
  | runTask =>
      have hpc : s.pc = .queued := ha
      rw [State.outlook, hpc] at houtlook
      rw [hpc] at hexception
      exact ⟨houtlook, hexception, Nat.zero_le _⟩
  | nextGet i b c =>
      rw [State.outlook, ha.1] at houtlook
      rw [ha.1] at hexception
      have hread := collect_drop (F := F) s.results i
        ((loops υ F h L).result_eq hs ha.2)
      cases c with
      | value v => exact ⟨hread.symm.trans houtlook, hexception, i.isLt⟩
      | exception e =>
          exact ⟨hread.symm.trans houtlook, nofun, Nat.zero_le _⟩
  | getsDone =>
      have hpc : s.pc = .get L.length := ha
      rw [State.outlook, hpc] at houtlook
      rw [hpc] at hexception
      refine ⟨?_, nofun, Nat.zero_le _⟩
      rw [← houtlook]
      change awaitResume s.exception s.results =
        F.collect s.results (L.drop L.length)
      rw [List.drop_length, collect_nil, hexception rfl]
      rfl
  | storeDone =>
      have hpc : s.pc = .storeDone := ha
      rw [State.outlook, hpc] at houtlook
      exact ⟨houtlook, nofun, Nat.zero_le _⟩
  | schedule =>
      have hpc : s.pc = .schedule := ha
      rw [State.outlook, hpc] at houtlook
      exact ⟨houtlook, nofun, Nat.zero_le _⟩
  | resume =>
      have hpc : s.pc = .scheduled := ha
      rw [State.outlook, hpc] at houtlook
      exact ⟨houtlook, nofun, Nat.zero_le _⟩

theorem foreseen_reachable {s : State L.length υ T E R}
    (hs : (system υ F h L).Reachable s) : Foreseen F L s := by
  refine TransitionSystem.Reachable.invariant_of hs (Foreseen F L)
    (fun s hs => hs) ?_ fun s a hs hf ha => foreseen_next hs hf ha
  rintro s rfl
  exact ⟨rfl, fun _ => rfl, Nat.zero_le _⟩

theorem index_le {s : State L.length υ T E R}
    (hs : (system υ F h L).Reachable s) {i : ℕ} (hi : s.pc.index = i) :
    i ≤ L.length :=
  hi ▸ (foreseen_reachable hs).index

/-- Whatever is returned is the outcome of reading the list in order. -/
theorem returned_eq {s : State L.length υ T E R}
    (hs : (system υ F h L).Reachable s) {r : Except E R}
    (hr : s.pc = .returned r) : r = F.collect F.results L := by
  have houtlook := (foreseen_reachable hs).outlook
  rw [State.outlook, hr] at houtlook
  exact houtlook

end WhenAll
end Ethreads
