import Ethreads.CoAwait.Termination

/-!
# Awaiting never wedges the workers

A worker is held up by a destructor only, and the destructor waits for a task
that was awaited before: its coroutine has its result and runs on another
worker.  A coroutine that is suspended waits for a task with a larger number.
So some step can be taken until `run` has returned, if there are workers.  That
step is left to a worker that is asleep only after a wake-up was lost.
-/

namespace Ethreads
namespace CoAwait

open CoroTask (Completion)

universe u v

variable {V : Type u} {E : Type v} {k : ℕ}

/-- No coroutine destroys a task with a pending slot. -/
structure Joined (movedFrom : V → V) (s : State k V E) : Prop where
  frame : ∀ t f, (s.task t).pc.frame = some f →
    (s.config movedFrom f).Joined movedFrom
  source : ∀ t < s.count, (s.task t).source.Joined movedFrom Fin.elim0
  destroying : ∀ t c tasks, (s.task t).pc = .destroying c tasks →
    ∀ x ∈ tasks, ((s.task x).slot movedFrom).pending = false

section Steps

variable {movedFrom : V → V} {s : State k V E} {a : Action k V E} {w : Fin k}
  {t : ℕ}

/-- A coroutine that destroys its tasks did so before, or has just left its
body. -/
theorem destroying_next (h : Sound s) (ha : Enabled s a)
    {c : Completion V E} {tasks : List ℕ}
    (ht : ((next movedFrom s a).task t).pc = .destroying c tasks) :
    (∃ rest, (s.task t).pc = .destroying c rest ∧ tasks ⊆ rest) ∨
      ∃ (n : ℕ) (f : Fin n → ℕ),
        (s.task t).pc = .running ⟨n, .finish c, f⟩ ∧ tasks = List.ofFn f := by
  have hself : ∀ (s : State k V E) (r : Task V E),
      ((s.set t r).task t).pc = r.pc :=
    fun s r => congrArg Task.pc (task_set_self s r)
  by_cases hagent : a.agent = some t
  · cases a with
    | destroyTask w u d x rest =>
        cases hagent
        cases (hself (s.destroy x) _).symm.trans ht
        exact Or.inl ⟨x :: tasks, ha.1.2, List.subset_cons_self x tasks⟩
    | returnValue w u v f =>
        cases hagent
        cases (hself s _).symm.trans ht
        exact Or.inr ⟨_, f, ha.2, rfl⟩
    | throwException w u e f =>
        cases hagent
        cases (hself s _).symm.trans ht
        exact Or.inr ⟨_, f, ha.2, rfl⟩
    | start => cases hagent
    | getReturns d => cases hagent
    | destroyRoot d => cases hagent
    | create w u b child rest f =>
        cases hagent
        cases (hself (s.set s.count (newTask t child b)) _).symm.trans ht
    | drop w u rest f =>
        cases hagent
        cases (hself (s.destroy (f 0)) _).symm.trans ht
    | exchangeFirst w u b =>
        cases hagent
        cases (hself ((s.set b.awaited _).schedule b.awaited) _).symm.trans ht
    | setContinuation w u b =>
        cases hagent
        cases (hself (s.set b.awaited _) _).symm.trans ht
    | get w u b d =>
        cases hagent
        cases (hself (s.consume movedFrom b.awaited d) _).symm.trans ht
    | transferTo w u v b =>
        cases hagent
        have hne : t ≠ v := by
          rintro rfl
          cases ha.2.symm.trans ha.1.2
        have hpc : ((next movedFrom s (.transferTo w t v b)).task t).pc =
            .finished :=
          (congrArg Task.pc (task_set_of_ne _ _ hne)).trans (hself s _)
        cases hpc.symm.trans ht
    | _ =>
        cases hagent
        cases (hself s _).symm.trans ht
  · rcases pc_next_of_ne movedFrom h ha hagent with
      hpc | ⟨b, -, hget⟩
    · exact Or.inl ⟨tasks, hpc.symm.trans ht, List.Subset.refl tasks⟩
    · cases hget.symm.trans ht

/-- Only a coroutine that awaits a local task uses it. -/
theorem awaits_of_touched (h : Sound s) (ha : Enabled s a) {x : ℕ}
    (htouched : a.touched = some x) (howns : s.Owns t x) :
    ∃ b, (s.task t).pc = .awaitSuspend b ∨ (s.task t).pc = .get b := by
  have hpos := Nat.zero_lt_of_lt howns.lt
  cases a with
  | start =>
      cases htouched
      exact absurd hpos (Nat.lt_irrefl 0)
  | getReturns c =>
      cases htouched
      exact absurd hpos (Nat.lt_irrefl 0)
  | exchangeFirst w u b =>
      cases htouched
      have hu : u = t :=
        (h.owns_awaited ha.1 rfl).parent.symm.trans howns.parent
      exact ⟨b, Or.inl (hu ▸ ha.1.2)⟩
  | get w u b c =>
      cases htouched
      have hu : u = t :=
        (h.owns_awaited ha.1 rfl).parent.symm.trans howns.parent
      exact ⟨b, Or.inr (hu ▸ ha.1.2)⟩
  | _ => cases htouched

theorem joined_next (h : Sound s) (hf : Faithful movedFrom s)
    (hj : Joined movedFrom s) (ha : Enabled s a) :
    Joined movedFrom (next movedFrom s a) where
  frame t f' ht := by
    rcases frame_step h hf ha ht with
      ⟨f, hframe, hsame | hstep⟩ | ⟨hlt, -, hconfig⟩
    · rw [hsame]
      exact hj.frame t f hframe
    · exact hstep.joined (hj.frame t f hframe)
    · rw [hconfig]
      exact hj.source t hlt
  source t ht := by
    by_cases hlt : t < s.count
    · rw [source_next movedFrom hlt]
      exact hj.source t hlt
    · cases a with
      | create w u b child rest tasks =>
          have htn : t = s.count := by
            change t < s.count + 1 at ht
            omega
          have hu := h.runs_lt_count ha
          have hframe : (s.task u).pc.frame =
              some ⟨_, .create b child rest, tasks⟩ := by
            rw [ha.2]
            rfl
          have hnew : (next movedFrom s (.create w u b child rest tasks)).task
              t = newTask u child b := by
            subst htn
            refine (task_set_of_ne _ _ (Nat.ne_of_gt hu)).trans ?_
            exact task_set_self s _
          rw [hnew]
          exact (hj.frame u _ hframe).1
      | _ => exact absurd ht hlt
  destroying t c tasks ht := by
    rcases destroying_next h ha ht with ⟨rest, hpc, hsub⟩ | ⟨n, f, hpc, rfl⟩
    · intro x hx
      have howns : s.Owns t x := h.owned.owns_of_pc hpc (hsub hx)
      rw [slot_next h hf ha howns.lt_count]
      · exact hj.destroying t c rest hpc x (hsub hx)
      · intro htouched
        obtain ⟨b, hb | hb⟩ := awaits_of_touched h ha htouched howns
        · cases hpc.symm.trans hb
        · cases hpc.symm.trans hb
    · intro x hx
      have howns : s.Owns t x := h.owned.owns_of_pc hpc hx
      have hframe : (s.task t).pc.frame = some ⟨n, .finish c, f⟩ := by
        rw [hpc]
        rfl
      obtain ⟨i, rfl⟩ := List.mem_ofFn.mp hx
      rw [slot_next h hf ha howns.lt_count]
      · exact hj.frame t _ hframe i
      · intro htouched
        obtain ⟨b, hb | hb⟩ := awaits_of_touched h ha htouched howns
        · cases hpc.symm.trans hb
        · cases hpc.symm.trans hb

/-! ## Some step can be taken -/

/-- A task that holds up its destructor is run by a worker. -/
theorem active_of_not_destroyable (h : Sound s) (hf : Faithful movedFrom s)
    {x : ℕ} (hpending : ((s.task x).slot movedFrom).pending = false)
    (hx : ¬(s.task x).Destroyable) : (s.task x).pc.active = true := by
  unfold Task.Destroyable at hx
  push Not at hx
  obtain ⟨hstarted, hfinal⟩ := hx
  have hconsumed : (s.task x).consumed = true := by
    unfold Task.slot at hpending
    rw [hstarted, Bool.true_and, Bool.not_eq_false'] at hpending
    exact hpending
  have hpublished := (hf.settled x).consumed hconsumed
  rw [(h.ok x).result] at hpublished
  rw [(h.ok x).final] at hfinal
  cases hpc : (s.task x).pc <;> rw [hpc] at hpublished hfinal <;>
    first
    | rfl
    | exact absurd rfl hfinal
    | cases hpublished

/-- If a coroutine runs, some worker can take a step. -/
theorem exists_enabled_of_active (h : Sound s) (hf : Faithful movedFrom s)
    (hj : Joined movedFrom s) (t : ℕ)
    (ht : (s.task t).pc.active = true) : ∃ a, Enabled s a := by
  have hlt : t < s.count := by
    apply h.owned.lt_count
    intro hpc
    rw [hpc] at ht
    cases ht
  obtain ⟨n, hn⟩ : ∃ n, n = s.count - t := ⟨_, rfl⟩
  induction n using Nat.strong_induction_on generalizing t with
  | _ n ih =>
      obtain ⟨w, hw⟩ := h.working.held t ht
      -- A destructor waits for a task that runs, and has a larger number.
      have hblocked : ∀ x, x ∈ (s.task t).pc.tasks →
          ((s.task x).slot movedFrom).pending = false →
            ¬(s.task x).Destroyable → ∃ a, Enabled s a := by
        intro x hx hpending hnot
        have howns := h.owned.owns t x hx
        have hactive := active_of_not_destroyable h hf hpending hnot
        have := howns.lt
        have := howns.lt_count
        exact ih (s.count - x) (by omega) x hactive howns.lt_count rfl
      cases hpc : (s.task t).pc with
      | initial =>
          rw [hpc] at ht
          cases ht
      | suspended b =>
          rw [hpc] at ht
          cases ht
      | finished =>
          rw [hpc] at ht
          cases ht
      | running f =>
          obtain ⟨n, rest, tasks⟩ := f
          cases rest with
          | finish c =>
              cases c with
              | value v => exact ⟨.returnValue w t v tasks, hw, hpc⟩
              | exception e => exact ⟨.throwException w t e tasks, hw, hpc⟩
          | create b child rest =>
              exact ⟨.create w t b child rest tasks, hw, hpc⟩
          | coAwait i rest =>
              cases hready :
                  (s.task (tasks i)).result.isSome with
              | true =>
                  exact ⟨.awaitReadyTrue w t ⟨n, i, rest, tasks⟩,
                    ⟨hw, hpc⟩, hready⟩
              | false =>
                  exact ⟨.awaitReadyFalse w t ⟨n, i, rest, tasks⟩,
                    ⟨hw, hpc⟩, hready⟩
          | drop rest =>
              by_cases hx : (s.task (tasks 0)).Destroyable
              · exact ⟨.drop w t rest tasks, ⟨hw, hpc⟩, hx⟩
              · refine hblocked (tasks 0) ?_ ?_ hx
                · rw [hpc]
                  exact List.mem_ofFn.mpr ⟨0, rfl⟩
                · exact (hj.frame t ⟨_, .drop rest, tasks⟩
                    (by rw [hpc]; rfl)).drop
      | awaitSuspend b =>
          cases hstarted : (s.task b.awaited).started with
          | true => exact ⟨.exchangeAgain w t b, ⟨hw, hpc⟩, hstarted⟩
          | false => exact ⟨.exchangeFirst w t b, ⟨hw, hpc⟩, hstarted⟩
      | setContinuation b =>
          cases hhandoff : (s.task b.awaited).handoff with
          | empty => exact ⟨.setContinuation w t b, ⟨hw, hpc⟩, hhandoff⟩
          | continuation u =>
              exact ⟨.continuationTaken w t b u, ⟨hw, hpc⟩, hhandoff⟩
          | ready => exact ⟨.alreadyReady w t b, ⟨hw, hpc⟩, hhandoff⟩
      | get b =>
          have hready := h.ready t
          rw [hpc] at hready
          obtain ⟨c, hc⟩ := Option.isSome_iff_exists.mp hready
          exact ⟨.get w t b c, ⟨hw, hpc⟩, hc⟩
      | destroying c tasks =>
          cases tasks with
          | nil =>
              cases c with
              | value v => exact ⟨.tasksDestroyed w t v, hw, hpc⟩
              | exception e => exact ⟨.unhandledException w t e, hw, hpc⟩
          | cons x tasks =>
              by_cases hx : (s.task x).Destroyable
              · exact ⟨.destroyTask w t c x tasks, ⟨hw, hpc⟩, hx⟩
              · refine hblocked x ?_ ?_ hx
                · rw [hpc]
                  exact List.mem_cons_self
                · exact hj.destroying t c _ hpc x List.mem_cons_self
      | setReady => exact ⟨.setReady w t, hw, hpc⟩
      | storeFinal u => exact ⟨.storeFinal w t u, hw, hpc⟩
      | transfer u =>
          cases u with
          | none => exact ⟨.transferNoop w t, hw, hpc⟩
          | some u =>
              have howes : (s.task t).owes = some u := by
                unfold Task.owes
                rw [hpc]
              have hwaits := (h.linked u t).mpr howes
              cases hu : (s.task u).pc with
              | suspended b => exact ⟨.transferTo w t u b, ⟨hw, hpc⟩, hu⟩
              | _ =>
                  rw [hu] at hwaits
                  cases hwaits

/-- If a task was started and is not final, some step can be taken. -/
theorem exists_enabled_of_started (h : Sound s) (hf : Faithful movedFrom s)
    (hj : Joined movedFrom s) (hk : 0 < k) (t : ℕ)
    (hstarted : (s.task t).started = true)
    (hfinal : (s.task t).pc.final = false) : ∃ a, Enabled s a := by
  have hlt := h.owned.lt_count_of_started hstarted
  obtain ⟨n, hn⟩ : ∃ n, n = s.count - t := ⟨_, rfl⟩
  induction n using Nat.strong_induction_on generalizing t with
  | _ n ih =>
      cases hpc : (s.task t).pc with
      | initial =>
          have hmem := (h.queued.mem t).mpr ⟨hstarted, hpc⟩
          cases hw : s.worker ⟨0, hk⟩ with
          | none => exact ⟨.resume ⟨0, hk⟩ t, hw, hmem⟩
          | some u =>
              exact exists_enabled_of_active h hf hj u
                (h.working.active _ u hw)
      | suspended b =>
          have howes := (h.linked t b.awaited).mp (by rw [hpc]; rfl)
          have howns : s.Owns t b.awaited :=
            h.owned.owns_of_pc hpc b.awaited_mem
          cases hoff : (s.task b.awaited).pc.handedOff with
          | true =>
              refine exists_enabled_of_active h hf hj b.awaited ?_
              cases hp : (s.task b.awaited).pc with
              | storeFinal u => rfl
              | transfer u => rfl
              | finished =>
                  have hready := (h.ok b.awaited).handoff.mpr hoff
                  unfold Task.owes at howes
                  rw [hp, hready] at howes
                  cases howes
              | _ =>
                  rw [hp] at hoff
                  cases hoff
          | false =>
              rw [Placed.owes_of_not_handedOff hoff] at howes
              have hcontinued : (s.task b.awaited).handoff =
                  .continuation t := by
                cases hh : (s.task b.awaited).handoff <;> rw [hh] at howes <;>
                  cases howes
                rfl
              have hbegun := (h.ok b.awaited).continued t hcontinued
              have hnot : (s.task b.awaited).pc.final = false := by
                cases hp : (s.task b.awaited).pc <;> rw [hp] at hoff <;>
                  first | rfl | cases hoff
              have := howns.lt
              have := howns.lt_count
              exact ih (s.count - b.awaited) (by omega) b.awaited hbegun hnot
                howns.lt_count rfl
      | finished =>
          rw [hpc] at hfinal
          cases hfinal
      | _ =>
          refine exists_enabled_of_active h hf hj t ?_
          rw [hpc]
          rfl

end Steps

theorem joined_reachable {movedFrom : V → V} {root : Body V E 0}
    (hroot : root.Joined movedFrom Fin.elim0) {s : State k V E}
    (hs : (system movedFrom k root).Reachable s) : Joined movedFrom s := by
  refine hs.invariant_of (J := fun s => Sound s ∧ Faithful movedFrom s)
    (Joined movedFrom)
    (fun s hs => ⟨sound_reachable hs, faithful_reachable hs⟩) ?_
    fun s a hJ hj ha => joined_next hJ.1 hJ.2 hj ha
  rintro s rfl
  exact ⟨nofun, fun _ _ => hroot, nofun⟩

/-- As long as `run` has not returned, some step can be taken. -/
theorem exists_enabled {movedFrom : V → V} {root : Body V E 0}
    (hroot : root.Joined movedFrom Fin.elim0) (hk : 0 < k) {s : State k V E}
    (hs : (system movedFrom k root).Reachable s)
    (hmain : ∀ c, s.main ≠ .returned c) : ∃ a, Enabled s a := by
  have h := sound_reachable hs
  have hf := faithful_reachable hs
  have hj := joined_reachable hroot hs
  have hstarted := h.root
  cases hpc : s.main with
  | start => exact ⟨.start, hpc⟩
  | returned c => exact absurd hpc (hmain c)
  | get =>
      rw [hpc] at hstarted
      cases hresult : (s.task 0).result with
      | some c => exact ⟨.getReturns c, hpc, hresult⟩
      | none =>
          refine exists_enabled_of_started h hf hj hk 0 hstarted ?_
          have hpublished := (h.ok 0).result
          rw [hresult] at hpublished
          cases hp : (s.task 0).pc <;> rw [hp] at hpublished <;>
            first | rfl | cases hpublished
  | destroy c =>
      rw [hpc] at hstarted
      cases hfinal : (s.task 0).finalSuspendReached with
      | true => exact ⟨.destroyRoot c, hpc, fun _ => hfinal⟩
      | false =>
          refine exists_enabled_of_started h hf hj hk 0 hstarted ?_
          rw [← (h.ok 0).final]
          exact hfinal

/-- No wake-up was lost: while a handle is scheduled and somebody could take
it, not all who could are asleep. -/
def KeepsAwake (s : State k V E) (asleep : Fin k → Prop) : Prop :=
  ∀ t ∈ s.queue, ∀ w, s.worker w = none →
    ∃ w', s.worker w' = none ∧ ¬asleep w'

/-- If every task that is started is awaited before it is destroyed, a run has
returned when no step is left but the taking of a handle by a worker that is
asleep, provided that there are workers and that no wake-up was lost: awaiting
never wedges them. -/
theorem run_completes {movedFrom : V → V} {root : Body V E 0}
    (hroot : root.Joined movedFrom Fin.elim0) (hk : 0 < k)
    {l : List (Action k V E)}
    (hl : (system movedFrom k root).Executes (initialState k root) l)
    (asleep : Fin k → Prop)
    (hawake : KeepsAwake
      ((system movedFrom k root).after (initialState k root) l) asleep)
    (hstuck : ∀ a, Enabled
      ((system movedFrom k root).after (initialState k root) l) a →
        ∃ w t, a = .resume w t ∧ asleep w) :
    ((system movedFrom k root).after (initialState k root) l).main =
      .returned (root.eval movedFrom Fin.elim0) := by
  have hs : (system movedFrom k root).Reachable
      ((system movedFrom k root).after (initialState k root) l) :=
    hl.reachable (.init rfl)
  by_cases hmain : ∃ c, ((system movedFrom k root).after
      (initialState k root) l).main = .returned c
  · obtain ⟨c, hc⟩ := hmain
    rw [hc, (returns_reachable hs).returned c hc]
  · push Not at hmain
    obtain ⟨a, ha⟩ := exists_enabled hroot hk hs hmain
    obtain ⟨w, t, rfl, -⟩ := hstuck a ha
    -- Somebody who is awake could take the handle.
    obtain ⟨w', hidle, hnot⟩ := hawake t ha.2 w ha.1
    obtain ⟨u, x, heq, hasleep⟩ := hstuck (.resume w' t) ⟨hidle, ha.2⟩
    cases heq
    exact absurd hasleep hnot

/-- Nothing is left to do when `run` has returned, no handle is scheduled, and
all workers are in their loop. -/
theorem not_enabled_of_idle {s : State k V E} {c : Completion V E}
    (hmain : s.main = .returned c) (hqueue : s.queue = [])
    (hworker : ∀ w, s.worker w = none) (a : Action k V E) :
    ¬Enabled s a := by
  have hruns : ∀ (w : Fin k) (t : ℕ) (p : Pc V E), ¬s.Runs w t p :=
    fun w t p hr => nomatch (hworker w).symm.trans hr.1
  intro ha
  cases a with
  | start => cases hmain.symm.trans ha
  | getReturns d => cases hmain.symm.trans ha.1
  | destroyRoot d => cases hmain.symm.trans ha.1
  | resume w t =>
      have hmem := ha.2
      rw [hqueue] at hmem
      cases hmem
  | _ =>
      first
      | exact hruns _ _ _ ha
      | exact hruns _ _ _ ha.1

theorem joined_sumBody : sumBody.Joined (fun _ => 0) Fin.elim0 :=
  ⟨nofun, nofun, Fin.forall_fin_two.mpr ⟨rfl, rfl⟩⟩

theorem run_completes_sum :
    ((system (fun _ => 0) 1 sumBody).after (initialState 1 sumBody)
      sumRun).main = .returned (sumBody.eval (fun _ => 0) Fin.elim0) := by
  refine run_completes joined_sumBody Nat.one_pos executes_sumRun
    (fun _ => True) nofun fun a ha => ?_
  refine absurd ha (not_enabled_of_idle (c := .value 5) rfl rfl ?_ a)
  intro w
  rw [Subsingleton.elim w 0]
  rfl

end CoAwait
end Ethreads
