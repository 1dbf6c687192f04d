import Ethreads.Detached.Account
import Ethreads.Support.Ensemble

/-!
# The life of a detached task

A task is started by the call that has got it, before its closure is stored,
and its result is never asked for.  So whoever runs its destructor finds it
started and nobody inside it.  A sweep keeps the closures of the tasks that
were not ready when it began.
-/

namespace Ethreads
namespace CoroTask

/-- The caller is in `is_ready`, or has been there. -/
def Pc.asks {T E : Type*} : Pc T E → Bool
  | loadReady | answered _ => true
  | _ => false

end CoroTask

namespace Detached

open CoroTask (Completion Handle)

variable {ι τ T E : Type*} [DecidableEq ι] [DecidableEq τ]
  {noop : BitVec 64} {h : Handle noop} {s : State ι τ T E}

/-! ## The tasks -/

/-- The tasks and the rest of the state. -/
def tasks (ι τ T E : Type*) [DecidableEq ι] [DecidableEq τ]
    (h : Handle noop) :
    Ensemble (system ι τ T E h) (CoroTask.system T E fun _ : Unit => h) ι
      (State ι τ T E) where
  get := State.task
  rest s := { s with task := fun _ => CoroTask.initialState Unit T E }
  act := .task
  Allows s i a := Called s.pc i a
  initial := by
    rintro s rfl i
    rfl
  enabled_act _ _ _ hb hcalled := ⟨hb, hcalled⟩
  get_act _ _ _ := rfl
  rest_act _ _ _ := rfl
  cases_enabled s a ha := by
    cases a with
    | task i b => exact Or.inr ⟨i, b, rfl, ha⟩
    | lock t o => cases o <;> exact Or.inl rfl
    | _ => exact Or.inl rfl

theorem task_reachable (hs : (system ι τ T E h).Reachable s) (i : ι) :
    (CoroTask.system T E fun _ => h).Reachable (s.task i) :=
  (tasks ι τ T E h).reachable hs i

/-- Nobody makes another call on a task than `start`. -/
theorem task_reachableWhere (hs : (system ι τ T E h).Reachable s) (i : ι) :
    (CoroTask.system T E fun _ => h).ReachableWhere
      (fun _ a => a ≠ .callIsReady () ∧ a ≠ .callGet () ∧ a ≠ .coAwait ())
      (s.task i) := by
  refine (tasks ι τ T E h).reachableWhere (Q := fun _ a =>
    a ≠ .callIsReady () ∧ a ≠ .callGet () ∧ a ≠ .coAwait ()) ?_ hs i
  intro s i a hcalled
  refine ⟨?_, ?_, ?_⟩
  · rintro rfl
    exact hcalled
  · rintro rfl
    exact hcalled
  · rintro rfl
    exact hcalled

theorem consumer_eq_none (hs : (system ι τ T E h).Reachable s) (i : ι) :
    (s.task i).consumer = none := by
  refine (task_reachableWhere hs i).invariant (fun s => s.consumer = none) ?_
    fun s a hnone _ ha => ?_
  · rintro s rfl
    rfl
  · cases a with
    | callGet t => exact absurd rfl ha.2.1
    | coAwait t => exact absurd rfl ha.2.2
    | _ => exact hnone

omit [DecidableEq ι] [DecidableEq τ] in
theorem asks_of_caller {s : CoroTask.State Unit T E}
    {a : CoroTask.Action Unit T E} (hno : (s.pc ()).asks = false)
    (ha : CoroTask.Enabled (fun _ => h) s a) (hcall : a ≠ .callIsReady ())
    (hcaller : a.caller = some ()) :
    ((CoroTask.next (fun _ => h) s a).pc ()).asks = false := by
  have hset : ∀ q : CoroTask.Pc T E,
      (CoroTask.next (fun _ => h) s a).pc = Function.update s.pc () q →
        q.asks = false →
          ((CoroTask.next (fun _ => h) s a).pc ()).asks = false := by
    intro q hpc hq
    rwa [hpc, Function.update_self]
  have hstart : ∀ p : CoroTask.Purpose,
      (CoroTask.afterStart p : CoroTask.Pc T E).asks = false := by
    intro p
    cases p <;> rfl
  have hcontinuation : ∀ x y : BitVec 64,
      (CoroTask.afterSetContinuation x y : CoroTask.Pc T E).asks = false := by
    intro x y
    unfold CoroTask.afterSetContinuation
    split <;> rfl
  cases a <;> cases hcaller
  case callIsReady => exact absurd rfl hcall
  case loadReady =>
      rw [show s.pc () = .loadReady from ha] at hno
      cases hno
  case startAgain => exact hset _ rfl (hstart _)
  case isDone => exact hset _ rfl (hstart _)
  case schedule => exact hset _ rfl (hstart _)
  case continuationTaken => exact hset _ rfl (hcontinuation _ _)
  case setContinuation => exact hset _ rfl (hcontinuation _ _)
  all_goals exact hset _ rfl rfl

omit [DecidableEq ι] [DecidableEq τ] in
/-- Nobody comes to ask whether a task is ready. -/
theorem asks_next {s : CoroTask.State Unit T E} {a : CoroTask.Action Unit T E}
    (hno : (s.pc ()).asks = false) (ha : CoroTask.Enabled (fun _ => h) s a)
    (hcall : a ≠ .callIsReady ()) :
    ((CoroTask.next (fun _ => h) s a).pc ()).asks = false := by
  by_cases hcaller : a.caller = some ()
  · exact asks_of_caller hno ha hcall hcaller
  · have hstay : (CoroTask.next (fun _ => h) s a).pc () = s.pc () ∨
        ∃ b, s.pc () = .waiting b ∧
          (CoroTask.next (fun _ => h) s a).pc () = .notified b :=
      CoroTask.next_pc_of_ne hcaller
    rcases hstay with hpc | ⟨b, -, hnew⟩
    · rw [hpc]
      exact hno
    · rw [hnew]
      rfl

theorem asks_eq_false (hs : (system ι τ T E h).Reachable s) (i : ι) :
    ((s.task i).pc ()).asks = false := by
  refine (task_reachableWhere hs i).invariant
    (fun s => (s.pc ()).asks = false) ?_
    fun s a hno ha hcall => asks_next hno ha hcall.1
  rintro s rfl
  rfl

/-! ## Starting -/

/-- Who has got to start task `i`: nobody yet, a call, or it has been done. -/
def Begun (s : State ι τ T E) (i : ι) : Prop :=
  s.owned i = true ∧ (s.task i).pc () = .idle ∨
    (∃ t, s.pc t = .start i) ∨ (s.task i).pc () = .started

omit [DecidableEq ι] [DecidableEq τ] in
/-- Outside a call of `start` the caller does not move. -/
theorem pc_unit_next {s : CoroTask.State Unit T E} {pc : τ → Pc ι} {i : ι}
    {a : CoroTask.Action Unit T E} (hoff : CoroTask.HandedOff (fun _ => h) s)
    (hquiet : s.pc () = .idle ∨ s.pc () = .started)
    (ha : CoroTask.Enabled (fun _ => h) s a) (hcalled : Called pc i a)
    (hstart : a ≠ .callStart ()) :
    (CoroTask.next (fun _ => h) s a).pc () = s.pc () := by
  have hno : ∀ p : CoroTask.Pc T E, s.pc () = p → p ≠ .idle →
      p ≠ .started → a.caller ≠ some () := by
    intro p hp hidle hstarted
    rcases hquiet with hq | hq
    · exact absurd (hp.symm.trans hq) hidle
    · exact absurd (hp.symm.trans hq) hstarted
  have hcaller : a.caller ≠ some () := by
    cases a with
    | callIsReady t => exact hcalled.elim
    | callStart t => exact absurd rfl hstart
    | callGet t => exact hcalled.elim
    | coAwait t => exact hcalled.elim
    | transferTo d t =>
        exact hno _ (hoff.suspended_of_transferTo ha) nofun nofun
    | _ =>
        first
        | exact hno _ ha nofun nofun
        | exact hno _ ha.1 nofun nofun
        | exact Option.some_ne_none _ ∘ Eq.symm
  have hstay : (CoroTask.next (fun _ => h) s a).pc () = s.pc () ∨
      ∃ b, s.pc () = .waiting b ∧
        (CoroTask.next (fun _ => h) s a).pc () = .notified b :=
    CoroTask.next_pc_of_ne hcaller
  rcases hstay with hpc | ⟨b, hold, -⟩
  · exact hpc
  · rcases hquiet with hq | hq <;> cases hold.symm.trans hq

theorem start_next {a : Action ι τ T E} (ha : Enabled h s a) {t : τ} {i : ι}
    (ht : s.pc t = .start i) (hended : a ≠ .started t i) :
    (next h s a).pc t = .start i := by
  have hother : ∀ {u : τ} {p q : Pc ι}, s.pc u = p → p ≠ .start i →
      Function.update s.pc u q t = .start i := by
    intro u p q hp hne
    have htu : t ≠ u := by
      rintro rfl
      exact hne (hp.symm.trans ht)
    rw [Function.update_of_ne htu, ht]
  cases a with
  | task j b => exact ht
  | started u j =>
      by_cases htu : t = u
      · subst htu
        cases ht.symm.trans ha.1
        exact absurd rfl hended
      · change Function.update s.pc u _ t = _
        rw [Function.update_of_ne htu, ht]
  | lock u o => cases o <;> exact hother ha.1 nofun
  | callSpawn u j => exact hother ha.1 nofun
  | callCollect u => exact hother ha nofun
  | sizeFew u j => exact hother ha.1 nofun
  | sizeMany u j => exact hother ha.1 nofun
  | checkTrue u o j rest => exact hother ha.1 nofun
  | checkFalse u o j rest => exact hother ha.1 nofun
  | reset u o j rest => exact hother ha nofun
  | destroyed u o j rest => exact hother ha.1 nofun
  | erase u o => exact hother ha nofun
  | pushBack u j => exact hother ha nofun
  | unlock u o => exact hother ha nofun
  | release u j => exact hother ha nofun
  | destroyedLast u j => exact hother ha.1 nofun

variable [Fintype τ]

omit [DecidableEq τ] in
theorem spawning_pos {t : τ} {i : ι} (ht : s.pc t = .start i) :
    0 < (s.census i).spawning := by
  refine tally_pos_iff.mpr ⟨t, ?_⟩
  rw [ht]
  simp [Pc.spawning]

/-- The destructor of a task does not run while somebody refers to it. -/
theorem destructor_eq_idle (hs : (system ι τ T E h).Reachable s) {i : ι}
    (hi : 0 < s.refs i) : (s.task i).destructor = .idle := by
  have hzero : (s.census i).phase = 0 := by
    by_contra hne
    have hrefs : (s.census i).refs = 0 :=
      ((balanced_reachable hs i).unreferenced
        (Or.inr (Nat.pos_of_ne_zero hne))).1
    exact absurd hi (Nat.not_lt.mpr hrefs.le)
  change phase (s.task i).destructor = 0 at hzero
  cases hd : (s.task i).destructor <;> rw [hd] at hzero <;>
    first | rfl | cases hzero

theorem refs_pos_of_start (hs : (system ι τ T E h).Reachable s) {t : τ}
    {i : ι} (ht : s.pc t = .start i) : 0 < s.refs i := by
  have hpos := spawning_pos ht
  have hrefs := (balanced_reachable hs i).refs
  change s.refs i = _ at hrefs
  omega

theorem begun_next {a : Action ι τ T E} {i : ι}
    (hs : (system ι τ T E h).Reachable s) (hbegun : Begun s i)
    (ha : Enabled h s a) : Begun (next h s a) i := by
  have hoff := CoroTask.handedOff_reachable (task_reachable hs i)
  have hbalanced := balanced_reachable hs i
  by_cases hended : ∃ t, a = .started t i
  · obtain ⟨t, rfl⟩ := hended
    exact Or.inr (Or.inr ha.2)
  rcases hbegun with ⟨howned, hidle⟩ | ⟨t, ht⟩ | hstarted
  · by_cases hspawn : ∃ t, a = .callSpawn t i
    · obtain ⟨t, rfl⟩ := hspawn
      exact Or.inr (Or.inl ⟨t, Function.update_self ..⟩)
    refine Or.inl ⟨?_, ?_⟩
    · cases a with
      | callSpawn t j =>
          change Function.update s.owned j false i = true
          rw [Function.update_of_ne]
          · exact howned
          · rintro rfl
            exact hspawn ⟨t, rfl⟩
      | lock t o => cases o <;> exact howned
      | _ => exact howned
    · cases a with
      | task j b =>
          refine (tasks ι τ T E h).keeps_act (I := fun t => t.pc () = .idle)
            hidle ?_
          rintro rfl
          refine (pc_unit_next hoff (Or.inl hidle) ha.1 ha.2 ?_).trans hidle
          rintro rfl
          obtain ⟨t, ht⟩ := ha.2
          have hpos := spawning_pos ht
          have hone : (s.census i).owned = 1 := by
            simp only [State.census, howned, Bool.toNat_true]
          have hle := hbalanced.caller
          omega
      | lock t o => cases o <;> exact hidle
      | _ => exact hidle
  · refine Or.inr (Or.inl ⟨t, start_next ha ht ?_⟩)
    rintro rfl
    exact hended ⟨t, rfl⟩
  · refine Or.inr (Or.inr ?_)
    cases a with
    | task j b =>
        refine (tasks ι τ T E h).keeps_act (I := fun t => t.pc () = .started)
          hstarted ?_
        rintro rfl
        refine (pc_unit_next hoff (Or.inr hstarted) ha.1 ha.2 ?_).trans
          hstarted
        rintro rfl
        cases hstarted.symm.trans ha.1.1
    | lock t o => cases o <;> exact hstarted
    | _ => exact hstarted

theorem begun_reachable (hs : (system ι τ T E h).Reachable s) (i : ι) :
    Begun s i := by
  refine TransitionSystem.Reachable.invariant_of hs (fun s => Begun s i)
    (fun s hs => hs) ?_ fun s a hs hbegun ha => begun_next hs hbegun ha
  rintro s rfl
  exact Or.inl ⟨rfl, rfl⟩

/-- Whoever runs a destructor finds the task started and nobody inside. -/
theorem started_of_destroying (hs : (system ι τ T E h).Reachable s) {t : τ}
    {i : ι} (ht : (s.pc t).destroying = some i) :
    (s.task i).pc () = .started := by
  have hbalanced := balanced_reachable hs i
  have hpos := destroying_pos ⟨t, ht⟩
  obtain ⟨hrefs, howned⟩ := hbalanced.unreferenced (Or.inl hpos)
  rcases begun_reachable hs i with ⟨hyes, -⟩ | ⟨u, hu⟩ | hstarted
  · simp [State.census, hyes] at howned
  · have hspawning := spawning_pos hu
    have hsum := hbalanced.refs
    omega
  · exact hstarted

/-- A task is not given up before it is ready. -/
theorem ready_of_unreferenced (hs : (system ι τ T E h).Reachable s) {i : ι}
    (hrefs : (s.census i).refs = 0) (howned : (s.census i).owned = 0) :
    (s.task i).ready = true := by
  have hbalanced := balanced_reachable hs i
  by_contra hnot
  have hzero : (s.census i).ready = 0 := by
    rw [Bool.not_eq_true] at hnot
    simp only [State.census, hnot, Bool.toNat_false]
  have hone := hbalanced.ready hzero
  have hsum := hbalanced.refs
  omega

end Detached
end Ethreads
