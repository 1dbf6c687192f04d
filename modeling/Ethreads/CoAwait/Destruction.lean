import Ethreads.CoAwait.Progress

/-!
# Frames are destroyed once

A frame is destroyed by the coroutine that owns the task, or by the caller of
`run`, and nobody uses the task afterwards: all that its coroutine may still do
is to return from its final suspend point.  When `run` returns, no frame is
left.
-/

namespace Ethreads
namespace CoAwait

open CoroTask (Completion)

universe u v

variable {V : Type u} {E : Type v} {k : ℕ}

/-- `run` has destroyed the root. -/
def MainPc.destroyed : MainPc V E → ℕ
  | returned _ => 1
  | _ => 0

/-- A task is a local one of its parent, or it was destroyed. -/
structure Kept (s : State k V E) : Prop where
  root : (s.task 0).destroyed = s.main.destroyed
  parent : ∀ x < s.count, 0 < x → (s.task x).parent < x
  kept : ∀ x < s.count, 0 < x →
    x ∈ (s.task (s.task x).parent).pc.tasks ∨ (s.task x).destroyed = 1
  destroyable : ∀ x, (s.task x).destroyed = 1 → (s.task x).Destroyable

/-- The task that a step works on besides the coroutine that takes it: it is
tested, started, awaited, asked for its result or resumed. -/
def Action.uses : Action k V E → Option ℕ
  | start | getReturns _ => some 0
  | resume _ t => some t
  | awaitReadyTrue _ _ a | awaitReadyFalse _ _ a | exchangeFirst _ _ a
  | exchangeAgain _ _ a | setContinuation _ _ a | continuationTaken _ _ a _
  | alreadyReady _ _ a | get _ _ a _ => some a.awaited
  | transferTo _ _ p _ => some p
  | _ => none

section Steps

variable {movedFrom : V → V} {s : State k V E} {a : Action k V E} {w : Fin k}
  {t x : ℕ}

/-- What a step that neither creates nor destroys a frame keeps of a task. -/
def Task.holding (y : Task V E) : List ℕ × ℕ × ℕ :=
  (y.pc.tasks, y.parent, y.destroyed)

variable (movedFrom) in
theorem holding_next (h : Sound s) (ha : Enabled s a)
    (hdestroys : a.destroys = none)
    (hcount : (next movedFrom s a).count = s.count) (t : ℕ) :
    ((next movedFrom s a).task t).holding = (s.task t).holding := by
  have hset : ∀ (s : State k V E) (x : ℕ) (r : Task V E),
      r.holding = (s.task x).holding →
        ((s.set x r).task t).holding = (s.task t).holding :=
    fun s x r hr => apply_task_set s r Task.holding hr t
  have hrun : ∀ {w : Fin k} {u : ℕ} {p : Pc V E}, s.Runs w u p →
      ∀ r : Task V E, r.pc.tasks = p.tasks → r.parent = (s.task u).parent →
        r.destroyed = (s.task u).destroyed →
          ((s.set u r).task t).holding = (s.task t).holding := by
    intro w u p hr r htasks hparent hdestroyed
    apply hset s u r
    unfold Task.holding
    rw [htasks, hparent, hdestroyed, hr.2]
  have hthen : ∀ {w : Fin k} {u x : ℕ} {p : Pc V E}, s.Runs w u p → u ≠ x →
      ∀ (r : Task V E) (q : Pc V E), r.holding = (s.task x).holding →
        q.tasks = p.tasks → (((s.set x r).goto u q).task t).holding =
          (s.task t).holding := by
    intro w u x p hr hux r q hholding hq
    refine (hset (s.set x r) u _ ?_).trans (hset s x r hholding)
    unfold Task.holding
    rw [(hr.set r hux).2, hq]
  cases a with
  | start => exact hset s 0 _ rfl
  | getReturns c => exact hset s 0 _ rfl
  | destroyRoot c => cases hdestroys
  | resume w u =>
      obtain ⟨-, hpc⟩ := (h.queued.mem u).mp ha.2
      refine hset s u _ ?_
      unfold Task.holding
      rw [hpc]
      rfl
  | create w u b child rest tasks =>
      exact absurd hcount (Nat.succ_ne_self s.count)
  | drop w u rest tasks => cases hdestroys
  | awaitReadyTrue w u b => exact hrun ha.1 _ rfl rfl rfl
  | awaitReadyFalse w u b => exact hrun ha.1 _ rfl rfl rfl
  | exchangeFirst w u b =>
      refine hthen ha.1 (h.owns_awaited ha.1 rfl).ne _ _ ?_ rfl
      rfl
  | exchangeAgain w u b => exact hrun ha.1 _ rfl rfl rfl
  | setContinuation w u b =>
      refine hthen ha.1 (h.owns_awaited ha.1 rfl).ne _ _ ?_ rfl
      rfl
  | continuationTaken w u b v => exact hrun ha.1 _ rfl rfl rfl
  | alreadyReady w u b => exact hrun ha.1 _ rfl rfl rfl
  | get w u b c =>
      refine hthen ha.1 (h.owns_awaited ha.1 rfl).ne _ _ ?_ rfl
      rfl
  | returnValue w u v tasks => exact hrun ha _ rfl rfl rfl
  | throwException w u e tasks => exact hrun ha _ rfl rfl rfl
  | destroyTask w u c x tasks => cases hdestroys
  | tasksDestroyed w u v => exact hrun ha _ rfl rfl rfl
  | unhandledException w u e => exact hrun ha _ rfl rfl rfl
  | setReady w u => exact hrun ha _ rfl rfl rfl
  | storeFinal w u v => exact hrun ha _ rfl rfl rfl
  | transferNoop w u => exact hrun ha _ rfl rfl rfl
  | transferTo w u v b =>
      have hvu : v ≠ u := by
        rintro rfl
        cases ha.2.symm.trans ha.1.2
      refine (hset (s.goto u .finished) v _ ?_).trans
        (hrun ha.1 _ rfl rfl rfl)
      have hv : ((s.goto u .finished).task v).pc = .suspended b :=
        (congrArg Task.pc (task_set_of_ne s _ hvu)).trans ha.2
      unfold Task.holding
      rw [hv]
      rfl

/-- A task is started by its owner only. -/
theorem started_next (htouched : a.touched ≠ some x) (hx : x < s.count) :
    ((next movedFrom s a).task x).started = (s.task x).started := by
  have hset : ∀ (s : State k V E) (t : ℕ) (r : Task V E),
      r.started = (s.task t).started →
        ((s.set t r).task x).started = (s.task x).started :=
    fun s t r hr => apply_task_set s r Task.started hr x
  have hgoto : ∀ (s : State k V E) (t : ℕ) (p : Pc V E),
      ((s.goto t p).task x).started = (s.task x).started :=
    fun s t p => apply_task_goto s Task.started p (fun _ => rfl) x
  cases a with
  | start =>
      exact congrArg Task.started
        (task_set_of_ne s _ fun heq => htouched (congrArg some heq.symm))
  | create w t b child rest tasks =>
      refine (hgoto (s.set s.count (newTask t child b)) t _).trans ?_
      rw [task_set_of_ne s _ (Nat.ne_of_lt hx)]
  | drop w t rest tasks =>
      refine (hgoto _ t _).trans (hset s _ _ ?_)
      rfl
  | exchangeFirst w t b =>
      refine (hgoto _ t _).trans ?_
      exact congrArg Task.started
        (task_set_of_ne s _ fun heq => htouched (congrArg some heq.symm))
  | setContinuation w t b =>
      refine (hgoto _ t _).trans (hset s _ _ ?_)
      rfl
  | get w t b c =>
      refine (hgoto _ t _).trans (hset s _ _ ?_)
      rfl
  | destroyTask w t c y tasks =>
      refine (hgoto _ t _).trans (hset s _ _ ?_)
      rfl
  | transferTo w t u b => exact (hgoto _ u _).trans (hgoto s t _)
  | _ => exact hset s _ _ rfl

/-- A coroutine that is final takes the last step at most. -/
theorem final_next (h : Sound s) (ha : Enabled s a)
    (hfinal : (s.task x).pc.final = true) :
    ((next movedFrom s a).task x).pc.final = true := by
  have hnot : ∀ {w : Fin k} {p : Pc V E}, s.Runs w x p →
      p.final = true := by
    intro w p hr
    rw [← hr.2]
    exact hfinal
  by_cases hagent : a.agent = some x
  · cases a with
    | start => cases hagent
    | getReturns c => cases hagent
    | destroyRoot c => cases hagent
    | resume w u =>
        cases hagent
        rw [((h.queued.mem x).mp ha.2).2] at hfinal
        cases hfinal
    | transferNoop w u =>
        cases hagent
        exact congrArg (fun y : Task V E => y.pc.final) (task_set_self s _)
    | transferTo w u v b =>
        cases hagent
        have hne : x ≠ v := by
          rintro rfl
          cases ha.2.symm.trans ha.1.2
        have hpc : ((next movedFrom s (.transferTo w x v b)).task x).pc =
            .finished :=
          (congrArg Task.pc (task_set_of_ne _ _ hne)).trans
            (congrArg Task.pc (task_set_self s _))
        rw [hpc]
        rfl
    | _ =>
        cases hagent
        first
        | cases hnot ha
        | cases hnot ha.1
  · rcases pc_next_of_ne movedFrom h ha hagent with
      hpc | ⟨b, hsuspended, -⟩
    · rw [hpc]
      exact hfinal
    · rw [hsuspended] at hfinal
      cases hfinal

theorem destroyable_next (h : Sound s) (ha : Enabled s a)
    (htouched : a.touched ≠ some x) (hx : x < s.count)
    (hdestroyable : (s.task x).Destroyable) :
    ((next movedFrom s a).task x).Destroyable := by
  intro hstarted
  rw [started_next htouched hx] at hstarted
  have hfinal := hdestroyable hstarted
  rw [(h.ok x).final] at hfinal
  rw [((h.next movedFrom ha).ok x).final]
  exact final_next h ha hfinal

/-- A task whose slot a step changes was not destroyed. -/
theorem not_destroyed_of_touched (h : Sound s) (hk : Kept s)
    (ha : Enabled s a) (htouched : a.touched = some x) :
    (s.task x).destroyed = 0 := by
  cases a with
  | start =>
      cases htouched
      rw [hk.root, show s.main = .start from ha]
      rfl
  | getReturns c =>
      cases htouched
      rw [hk.root, ha.1]
      rfl
  | exchangeFirst w t b =>
      cases htouched
      exact (h.owns_awaited ha.1 rfl).destroyed
  | get w t b c =>
      cases htouched
      exact (h.owns_awaited ha.1 rfl).destroyed
  | _ => cases htouched

/-- A task whose frame a step destroys was not destroyed before, and its
destructor does not wait. -/
theorem destroyable_of_destroys (h : Sound s) (hk : Kept s)
    (ha : Enabled s a) (hdestroys : a.destroys = some x) :
    x < s.count ∧ (s.task x).destroyed = 0 ∧ (s.task x).Destroyable := by
  cases a with
  | destroyRoot c =>
      cases hdestroys
      refine ⟨h.owned.pos, ?_, ha.2⟩
      rw [hk.root, ha.1]
      rfl
  | drop w t rest tasks =>
      cases hdestroys
      have howns : s.Owns t (tasks 0) :=
        h.owned.owns_of_pc ha.1.2 (List.mem_ofFn.mpr ⟨0, rfl⟩)
      exact ⟨howns.lt_count, howns.destroyed, ha.2⟩
  | destroyTask w t c y tasks =>
      cases hdestroys
      have howns : s.Owns t x :=
        h.owned.owns_of_pc ha.1.2 List.mem_cons_self
      exact ⟨howns.lt_count, howns.destroyed, ha.2⟩
  | _ => cases hdestroys

theorem lt_count_of_destroyed (h : Sound s)
    (hx : (s.task x).destroyed = 1) : x < s.count := by
  by_contra hge
  cases hx.symm.trans (h.owned.unused x (Nat.le_of_not_lt hge)).destroyed

/-- A task that was destroyed stays so that its destructor does not wait. -/
theorem destroyable_kept (h : Sound s) (hk : Kept s) (ha : Enabled s a)
    (hx : (s.task x).destroyed = 1) :
    ((next movedFrom s a).task x).Destroyable := by
  refine destroyable_next h ha ?_ (lt_count_of_destroyed h hx)
    (hk.destroyable x hx)
  intro htouched
  cases hx.symm.trans (not_destroyed_of_touched h hk ha htouched)

theorem kept_of_same (h : Sound s) (hk : Kept s) (ha : Enabled s a)
    (hdestroys : a.destroys = none)
    (hcount : (next movedFrom s a).count = s.count)
    (hmain : (next movedFrom s a).main.destroyed = s.main.destroyed) :
    Kept (next movedFrom s a) := by
  have hholding := holding_next movedFrom h ha hdestroys hcount
  have htasks : ∀ t, ((next movedFrom s a).task t).pc.tasks =
      (s.task t).pc.tasks := fun t => congrArg (fun y => y.1) (hholding t)
  have hparent : ∀ t, ((next movedFrom s a).task t).parent =
      (s.task t).parent := fun t => congrArg (fun y => y.2.1) (hholding t)
  have hdestroyed : ∀ t, ((next movedFrom s a).task t).destroyed =
      (s.task t).destroyed := fun t => congrArg (fun y => y.2.2) (hholding t)
  refine ⟨?_, fun x hx hpos => ?_, fun x hx hpos => ?_, fun x hx => ?_⟩
  · rw [hdestroyed, hmain]
    exact hk.root
  · rw [hparent]
    exact hk.parent x (hcount ▸ hx) hpos
  · rw [hparent, htasks, hdestroyed]
    exact hk.kept x (hcount ▸ hx) hpos
  · rw [hdestroyed] at hx
    exact destroyable_kept h hk ha hx

theorem kept_release (h : Sound s) (hk : Kept s) (ha : Enabled s a)
    {p q : Pc V E} (hp : (s.task t).pc = p) (htasks : p.tasks = x :: q.tasks)
    (htouched : a.touched ≠ some x) (hdestroyable : (s.task x).Destroyable)
    (htask : (next movedFrom s a).task = ((s.destroy x).goto t q).task)
    (hcount : (next movedFrom s a).count = s.count)
    (hmain : (next movedFrom s a).main = s.main) :
    Kept (next movedFrom s a) := by
  have howns : s.Owns t x := by
    apply h.owned.owns_of_pc hp
    rw [htasks]
    exact List.mem_cons_self
  have hparent : ∀ y, ((next movedFrom s a).task y).parent =
      (s.task y).parent := by
    intro y
    rw [htask, apply_task_goto _ Task.parent q (fun _ => rfl) y]
    exact apply_task_destroy s Task.parent (fun _ _ => rfl) y
  have hself : ((next movedFrom s a).task x).destroyed = 1 := by
    rw [htask, apply_task_goto _ Task.destroyed q (fun _ => rfl) x]
    unfold State.destroy
    rw [task_set_self]
    exact congrArg Nat.succ howns.destroyed
  have hdestroyed : ∀ y, y ≠ x → ((next movedFrom s a).task y).destroyed =
      (s.task y).destroyed := by
    intro y hy
    rw [htask, apply_task_goto _ Task.destroyed q (fun _ => rfl) y]
    unfold State.destroy
    rw [task_set_of_ne s _ hy]
  have htasks' : ∀ u y, y ≠ x → y ∈ (s.task u).pc.tasks →
      y ∈ ((next movedFrom s a).task u).pc.tasks := by
    intro u y hy hmem
    rw [htask]
    by_cases hu : u = t
    · subst hu
      rw [hp, htasks] at hmem
      unfold State.goto
      rw [task_set_self]
      exact (List.mem_cons.mp hmem).resolve_left hy
    · unfold State.goto
      rw [task_set_of_ne _ _ hu,
        apply_task_destroy s Task.pc (fun _ _ => rfl) u]
      exact hmem
  refine ⟨?_, fun y hy hpos => ?_, fun y hy hpos => ?_, fun y hy => ?_⟩
  · rw [hdestroyed 0 (Nat.ne_of_lt (Nat.zero_lt_of_lt howns.lt)), hmain]
    exact hk.root
  · rw [hparent]
    exact hk.parent y (hcount ▸ hy) hpos
  · by_cases hyx : y = x
    · subst hyx
      exact Or.inr hself
    · rw [hparent, hdestroyed y hyx]
      exact (hk.kept y (hcount ▸ hy) hpos).imp_left (htasks' _ y hyx)
  · by_cases hyx : y = x
    · subst hyx
      exact destroyable_next h ha htouched howns.lt_count hdestroyable
    · rw [hdestroyed y hyx] at hy
      exact destroyable_kept h hk ha hy

theorem kept_create (h : Sound s) (hk : Kept s) {n : ℕ} {b : Bool}
    {child : Body V E 0} {rest : Body V E (n + 1)} {tasks : Fin n → ℕ}
    (ha : Enabled s (.create w t b child rest tasks)) :
    Kept (next movedFrom s (.create w t b child rest tasks)) := by
  have hlt := h.runs_lt_count ha
  have hnew : (next movedFrom s (.create w t b child rest tasks)).task
      s.count = newTask t child b :=
    (task_set_of_ne _ _ (Nat.ne_of_gt hlt)).trans (task_set_self s _)
  have hkept : ∀ {α : Type} (f : Task V E → α),
      (∀ (y : Task V E) (q : Pc V E), f { y with pc := q } = f y) →
        ∀ y < s.count,
          f ((next movedFrom s (.create w t b child rest tasks)).task y) =
            f (s.task y) := by
    intro α f hf y hy
    refine (apply_task_goto (s.set s.count (newTask t child b)) f _
      (fun z => hf z _) y).trans ?_
    rw [task_set_of_ne s _ (Nat.ne_of_lt hy)]
  have hparent := hkept Task.parent fun _ _ => rfl
  have hdestroyed := hkept Task.destroyed fun _ _ => rfl
  have hself : ((next movedFrom s (.create w t b child rest tasks)).task
      t).pc = .running ⟨n + 1, rest, Fin.cons s.count tasks⟩ :=
    congrArg Task.pc (task_set_self (s.set s.count (newTask t child b)) _)
  have htasks : ∀ u y, y ∈ (s.task u).pc.tasks →
      y ∈ ((next movedFrom s (.create w t b child rest tasks)).task
        u).pc.tasks := by
    intro u y hy
    by_cases hu : u = t
    · subst hu
      rw [ha.2] at hy
      rw [hself]
      obtain ⟨i, hi⟩ := List.mem_ofFn.mp hy
      exact List.mem_ofFn.mpr ⟨i.succ, hi⟩
    · have hun : u ≠ s.count := by
        rintro rfl
        rw [(h.owned.unused _ (Nat.le_refl _)).pc] at hy
        cases hy
      have hsame : (next movedFrom s (.create w t b child rest tasks)).task
          u = s.task u :=
        (task_set_of_ne _ _ hu).trans (task_set_of_ne s _ hun)
      rw [hsame]
      exact hy
  have hcases : ∀ y, y < s.count + 1 → y < s.count ∨ y = s.count :=
    fun y hy => Nat.lt_succ_iff_lt_or_eq.mp hy
  refine ⟨?_, fun y hy hpos => ?_, fun y hy hpos => ?_, fun y hy => ?_⟩
  · rw [hdestroyed 0 h.owned.pos]
    exact hk.root
  · rcases hcases y hy with hy | rfl
    · rw [hparent y hy]
      exact hk.parent y hy hpos
    · rw [hnew]
      exact hlt
  · rcases hcases y hy with hy | rfl
    · rw [hparent y hy, hdestroyed y hy]
      exact (hk.kept y hy hpos).imp_left (htasks _ y)
    · rw [hnew]
      refine Or.inl ?_
      change s.count ∈ ((next movedFrom s
        (.create w t b child rest tasks)).task t).pc.tasks
      rw [hself]
      exact List.mem_ofFn.mpr ⟨0, rfl⟩
  · have hold : (s.task y).destroyed = 1 := by
      by_cases hyn : y = s.count
      · subst hyn
        rw [hnew] at hy
        cases hy
      · by_cases hlt' : y < s.count
        · rw [hdestroyed y hlt'] at hy
          exact hy
        · have hy' := lt_count_of_destroyed (h.next movedFrom ha) hy
          change y < s.count + 1 at hy'
          omega
    exact destroyable_kept h hk ha hold

theorem kept_next (h : Sound s) (hk : Kept s) (ha : Enabled s a) :
    Kept (next movedFrom s a) := by
  cases a with
  | start =>
      refine kept_of_same h hk ha rfl rfl ?_
      rw [show s.main = .start from ha]
      rfl
  | getReturns c =>
      refine kept_of_same h hk ha rfl rfl ?_
      rw [ha.1]
      rfl
  | destroyRoot c =>
      have hroot := (destroyable_of_destroys h hk ha rfl).2.1
      have hself : ((next movedFrom s (.destroyRoot c)).task 0).destroyed =
          1 := by
        refine (congrArg Task.destroyed (task_set_self s _)).trans ?_
        exact congrArg Nat.succ hroot
      have hparent : ∀ y, ((next movedFrom s (.destroyRoot c)).task
          y).parent = (s.task y).parent :=
        apply_task_destroy s Task.parent fun _ _ => rfl
      have hpc : ∀ y, ((next movedFrom s (.destroyRoot c)).task y).pc =
          (s.task y).pc := apply_task_destroy s Task.pc fun _ _ => rfl
      have hother : ∀ y, y ≠ 0 →
          (next movedFrom s (.destroyRoot c)).task y = s.task y :=
        fun y hy => task_set_of_ne s _ hy
      refine ⟨hself, fun y hy hpos => ?_, fun y hy hpos => ?_, fun y hy => ?_⟩
      · rw [hparent]
        exact hk.parent y hy hpos
      · rw [hparent, hpc, hother y (Nat.ne_of_gt hpos)]
        exact hk.kept y hy hpos
      · by_cases hy0 : y = 0
        · subst hy0
          exact destroyable_next h ha nofun h.owned.pos ha.2
        · rw [hother y hy0] at hy
          exact destroyable_kept h hk ha hy
  | create w t b child rest tasks => exact kept_create h hk ha
  | drop w t rest tasks =>
      exact kept_release h hk ha (q := .running ⟨_, rest, Fin.tail tasks⟩)
        ha.1.2 List.ofFn_succ nofun ha.2 rfl rfl rfl
  | destroyTask w t c x tasks =>
      exact kept_release h hk ha (q := .destroying c tasks) ha.1.2 rfl nofun
        ha.2 rfl rfl rfl
  | _ => exact kept_of_same h hk ha rfl rfl rfl

/-- Once `run` has returned, every frame was destroyed. -/
theorem destroyed_of_returned (h : Sound s) (hk : Kept s)
    {c : Completion V E} (hmain : s.main = .returned c) :
    ∀ x < s.count, (s.task x).destroyed = 1 := by
  have hroot : (s.task 0).destroyed = 1 := by
    rw [hk.root, hmain]
    rfl
  have htasks : ∀ x, (s.task x).destroyed = 1 →
      (s.task x).pc.tasks = [] := by
    intro x hx
    have hdestroyable := hk.destroyable x hx
    cases hstarted : (s.task x).started with
    | false =>
        rw [(h.ok x).initial hstarted]
        rfl
    | true =>
        have hfinal := hdestroyable hstarted
        rw [(h.ok x).final] at hfinal
        cases hpc : (s.task x).pc <;> rw [hpc] at hfinal <;>
          first | rfl | cases hfinal
  intro x
  induction x using Nat.strong_induction_on with
  | _ x ih =>
      intro hx
      by_cases hpos : 0 < x
      · have hlt := hk.parent x hx hpos
        have hparent := ih _ hlt (hlt.trans hx)
        rcases hk.kept x hx hpos with hmem | hdestroyed
        · rw [htasks _ hparent] at hmem
          cases hmem
        · exact hdestroyed
      · rw [Nat.eq_zero_of_not_pos hpos]
        exact hroot

theorem destroyed_le_one (h : Sound s) (hk : Kept s) (x : ℕ) :
    (s.task x).destroyed ≤ 1 := by
  by_cases hx : x < s.count
  · by_cases hpos : 0 < x
    · rcases hk.kept x hx hpos with hmem | hdestroyed
      · rw [(h.owned.owns _ x hmem).destroyed]
        exact Nat.zero_le 1
      · exact Nat.le_of_eq hdestroyed
    · rw [Nat.eq_zero_of_not_pos hpos, hk.root]
      cases s.main with
      | returned c => exact Nat.le_refl 1
      | _ => exact Nat.zero_le 1
  · rw [(h.owned.unused x (Nat.le_of_not_lt hx)).destroyed]
    exact Nat.zero_le 1

/-- A task that was started and is not final was not destroyed. -/
theorem not_destroyed_of_started (h : Sound s) (hk : Kept s)
    (hstarted : (s.task x).started = true)
    (hfinal : (s.task x).pc.final = false) : (s.task x).destroyed = 0 := by
  have hle := destroyed_le_one h hk x
  have hne : (s.task x).destroyed ≠ 1 := by
    intro hone
    have hset := hk.destroyable x hone hstarted
    rw [(h.ok x).final, hfinal] at hset
    cases hset
  omega

theorem not_destroyed_of_mem_queue (h : Sound s) (hk : Kept s)
    (hx : x ∈ s.queue) : (s.task x).destroyed = 0 := by
  obtain ⟨hstarted, hpc⟩ := (h.queued.mem x).mp hx
  exact not_destroyed_of_started h hk hstarted (by rw [hpc]; rfl)

theorem not_destroyed_of_suspended (h : Sound s) (hk : Kept s)
    {b : Awaiting V E} (hpc : (s.task x).pc = .suspended b) :
    (s.task x).destroyed = 0 := by
  refine not_destroyed_of_started h hk ((h.ok x).started ?_) (by rw [hpc]; rfl)
  rw [hpc]
  exact nofun

/-- The continuation of a task is a coroutine that awaits it. -/
theorem not_destroyed_of_owes (h : Sound s) (hk : Kept s) {y : ℕ}
    (howes : (s.task y).owes = some x) : (s.task x).destroyed = 0 := by
  have hwaits := (h.linked x y).mpr howes
  cases hpc : (s.task x).pc with
  | suspended b => exact not_destroyed_of_suspended h hk hpc
  | _ =>
      rw [hpc] at hwaits
      cases hwaits

/-- A task that a step works on was not destroyed. -/
theorem not_destroyed_of_uses (h : Sound s) (hk : Kept s) (ha : Enabled s a)
    (huses : a.uses = some x) : (s.task x).destroyed = 0 := by
  have hawaited : ∀ {w : Fin k} {t : ℕ} {p : Pc V E} {b : Awaiting V E},
      s.Runs w t p → p.tasks = List.ofFn b.tasks →
        (s.task b.awaited).destroyed = 0 :=
    fun hr hp => (h.owns_awaited hr hp).destroyed
  cases a with
  | start => exact not_destroyed_of_touched h hk ha huses
  | getReturns c => exact not_destroyed_of_touched h hk ha huses
  | resume w t => cases huses; exact not_destroyed_of_mem_queue h hk ha.2
  | awaitReadyTrue w t b => cases huses; exact hawaited ha.1 rfl
  | awaitReadyFalse w t b => cases huses; exact hawaited ha.1 rfl
  | exchangeFirst w t b => cases huses; exact hawaited ha.1 rfl
  | exchangeAgain w t b => cases huses; exact hawaited ha.1 rfl
  | setContinuation w t b => cases huses; exact hawaited ha.1 rfl
  | continuationTaken w t b u => cases huses; exact hawaited ha.1 rfl
  | alreadyReady w t b => cases huses; exact hawaited ha.1 rfl
  | get w t b c => cases huses; exact hawaited ha.1 rfl
  | transferTo w t u b =>
      cases huses
      exact not_destroyed_of_suspended h hk ha.2
  | _ => cases huses

/-- The coroutine of a destroyed task returns from its final suspend point at
most. -/
theorem transfer_of_agent (h : Sound s) (hk : Kept s) (ha : Enabled s a)
    (hagent : a.agent = some t) (ht : (s.task t).destroyed = 1) :
    ∃ u, (s.task t).pc = .transfer u := by
  have hdestroyable := hk.destroyable t ht
  have hruns : ∀ {w : Fin k} {p : Pc V E}, s.Runs w t p →
      ∃ u, (s.task t).pc = .transfer u := by
    intro w p hr
    have hactive := h.working.active w t hr.1
    have hfinal := hdestroyable (h.runs_started hr)
    rw [(h.ok t).final] at hfinal
    cases hpc : (s.task t).pc with
    | transfer u => exact ⟨u, rfl⟩
    | finished =>
        rw [hpc] at hactive
        cases hactive
    | _ =>
        rw [hpc] at hfinal
        cases hfinal
  cases a with
  | start => cases hagent
  | getReturns c => cases hagent
  | destroyRoot c => cases hagent
  | resume w u =>
      cases hagent
      obtain ⟨hstarted, hpc⟩ := (h.queued.mem t).mp ha.2
      have hfinal := hdestroyable hstarted
      rw [(h.ok t).final, hpc] at hfinal
      cases hfinal
  | _ =>
      cases hagent
      first
      | exact hruns ha
      | exact hruns ha.1

end Steps

theorem kept_reachable {movedFrom : V → V} {root : Body V E 0}
    {s : State k V E} (hs : (system movedFrom k root).Reachable s) :
    Kept s := by
  refine hs.invariant_of Kept (fun s hs => sound_reachable hs) ?_
    fun s a h hk ha => kept_next h hk ha
  rintro s rfl
  refine ⟨rfl, fun x hx hpos => ?_, fun x hx hpos => ?_, nofun⟩
  · exact absurd hpos (Nat.not_lt.mpr (Nat.le_of_lt_succ hx))
  · exact absurd hpos (Nat.not_lt.mpr (Nat.le_of_lt_succ hx))

/-- What may be done with the frames of a state. -/
structure FramesSafe (s : State k V E) : Prop where
  once : ∀ t, (s.task t).destroyed ≤ 1
  used : ∀ (a : Action k V E) (t : ℕ), Enabled s a → a.uses = some t →
    (s.task t).destroyed = 0
  destroys : ∀ (a : Action k V E) (t : ℕ), Enabled s a →
    a.destroys = some t → (s.task t).destroyed = 0
  scheduled : ∀ t ∈ s.queue, (s.task t).destroyed = 0
  continuation : ∀ t x, (s.task x).owes = some t → (s.task t).destroyed = 0
  agent : ∀ (a : Action k V E) (t : ℕ), Enabled s a → a.agent = some t →
    (s.task t).destroyed = 1 → ∃ u, (s.task t).pc = .transfer u
  returned : ∀ c, s.main = .returned c →
    ∀ t < s.count, (s.task t).destroyed = 1

/-- In every run each frame is destroyed at most once; no step uses, awaits,
resumes or destroys a task whose frame is gone, and no handle of one is
scheduled or kept as a continuation; its coroutine can only leave its final
suspend point, and no frame is left when `run` returns. -/
theorem framesSafe_of_executes {movedFrom : V → V} {root : Body V E 0}
    {l : List (Action k V E)}
    (hl : (system movedFrom k root).Executes (initialState k root) l) :
    FramesSafe
      ((system movedFrom k root).after (initialState k root) l) := by
  have hs := hl.reachable (.init rfl)
  have h := sound_reachable hs
  have hk := kept_reachable hs
  exact
    { once := destroyed_le_one h hk
      used := fun a t ha => not_destroyed_of_uses h hk ha
      destroys := fun a t ha hdestroys =>
        (destroyable_of_destroys h hk ha hdestroys).2.1
      scheduled := fun t => not_destroyed_of_mem_queue h hk
      continuation := fun t x => not_destroyed_of_owes h hk
      agent := fun a t ha => transfer_of_agent h hk ha
      returned := fun c => destroyed_of_returned h hk }

theorem framesSafe_sumRun :
    FramesSafe ((system (fun _ => 0) 1 sumBody).after (initialState 1 sumBody)
      sumRun) :=
  framesSafe_of_executes executes_sumRun

end CoAwait
end Ethreads
