import Ethreads.CoAwait.Model
import Mathlib.Data.List.FinRange

/-!
# Who uses a task

A task is a local one of the coroutine that has created it until its frame is
destroyed.  Its parent has a smaller number, so that coroutines await each
other in one direction only.
-/

namespace Ethreads
namespace CoAwait

open CoroTask (Completion)

universe u v

variable {V : Type u} {E : Type v} {k : ℕ}

/-- The local tasks that are still to be destroyed. -/
def Pc.tasks : Pc V E → List ℕ
  | running f => List.ofFn f.tasks
  | awaitSuspend a | setContinuation a | suspended a | get a =>
      List.ofFn a.tasks
  | destroying _ tasks => tasks
  | _ => []

theorem Awaiting.awaited_mem (a : Awaiting V E) :
    a.awaited ∈ List.ofFn a.tasks :=
  List.mem_ofFn.mpr ⟨a.index, rfl⟩

def Pc.active : Pc V E → Bool
  | initial | suspended _ | finished => false
  | _ => true

/-! ## Updates -/

section Updates

variable (s : State k V E) {t x : ℕ} (r : Task V E)

@[simp] theorem task_set_self : (s.set x r).task x = r :=
  Function.update_self ..

theorem task_set_of_ne (hne : t ≠ x) : (s.set x r).task t = s.task t :=
  Function.update_of_ne hne ..

@[simp] theorem count_set : (s.set x r).count = s.count := rfl

@[simp] theorem queue_set : (s.set x r).queue = s.queue := rfl

@[simp] theorem worker_set : (s.set x r).worker = s.worker := rfl

/-- What holds of the new task and of the others holds of all. -/
theorem forall_task_set {P : ℕ → Task V E → Prop} (hr : P x r)
    (h : ∀ t, P t (s.task t)) (t : ℕ) : P t ((s.set x r).task t) := by
  by_cases ht : t = x
  · subst ht
    rw [task_set_self]
    exact hr
  · rw [task_set_of_ne s r ht]
    exact h t

/-- A function of the tasks that the new one does not change. -/
theorem apply_task_set {α : Type*} (f : Task V E → α)
    (hf : f r = f (s.task x)) (t : ℕ) :
    f ((s.set x r).task t) = f (s.task t) :=
  forall_task_set s r (P := fun t y => f y = f (s.task t)) hf
    (fun _ => rfl) t

/-- A function of the tasks that does not depend on their destructions. -/
theorem apply_task_destroy {α : Type*} (f : Task V E → α)
    (hf : ∀ y n, f { y with destroyed := n } = f y) (t : ℕ) :
    f ((s.destroy x).task t) = f (s.task t) := by
  apply apply_task_set
  exact hf (s.task x) _

/-- A function of the tasks that does not depend on where they stand. -/
theorem apply_task_goto {α : Type*} (f : Task V E → α) (p : Pc V E)
    (hf : ∀ y, f { y with pc := p } = f y) (t : ℕ) :
    f ((s.goto x p).task t) = f (s.task t) := by
  apply apply_task_set
  exact hf (s.task x)

end Updates

theorem State.Runs.set {s : State k V E} {w : Fin k} {t x : ℕ} {p : Pc V E}
    (h : s.Runs w t p) (r : Task V E) (hne : t ≠ x) :
    (s.set x r).Runs w t p := by
  refine ⟨h.1, ?_⟩
  rw [task_set_of_ne s r hne]
  exact h.2

/-! ## Ownership -/

structure Task.Unused (x : Task V E) : Prop where
  started : x.started = false
  result : x.result = none
  handoff : x.handoff = .empty
  destroyed : x.destroyed = 0
  pc : x.pc = .initial

theorem unused_newTask (p : ℕ) (source : Body V E 0) :
    (newTask p source false).Unused :=
  ⟨rfl, rfl, rfl, rfl, rfl⟩

/-- The coroutine `t` has created the task `x` and not destroyed it. -/
structure State.Owns (s : State k V E) (t x : ℕ) : Prop where
  lt : t < x
  lt_count : x < s.count
  parent : (s.task x).parent = t
  destroyed : (s.task x).destroyed = 0

theorem State.Owns.ne {s : State k V E} {t x : ℕ} (h : s.Owns t x) : t ≠ x :=
  Nat.ne_of_lt h.lt

/-- Each local task is owned by its coroutine. -/
structure Owned (s : State k V E) : Prop where
  pos : 0 < s.count
  unused : ∀ x, s.count ≤ x → (s.task x).Unused
  owns : ∀ t, ∀ x ∈ (s.task t).pc.tasks, s.Owns t x
  nodup : ∀ t, (s.task t).pc.tasks.Nodup

namespace Owned

variable {s s' : State k V E} {w : Fin k} {t x : ℕ}

theorem congr (h : Owned s) (htask : s'.task = s.task)
    (hcount : s'.count = s.count) : Owned s' where
  pos := by
    rw [hcount]
    exact h.pos
  unused y hy := by
    rw [htask]
    exact h.unused y (hcount ▸ hy)
  owns u y hy := by
    rw [htask] at hy
    obtain ⟨hlt, hy, hparent, hdestroyed⟩ := h.owns u y hy
    rw [← hcount] at hy
    rw [← htask] at hparent hdestroyed
    exact ⟨hlt, hy, hparent, hdestroyed⟩
  nodup u := by
    rw [htask]
    exact h.nodup u

theorem lt_count (h : Owned s) (ht : (s.task t).pc ≠ .initial) :
    t < s.count := by
  by_contra hge
  exact ht (h.unused t (Nat.le_of_not_lt hge)).pc

theorem lt_count_of_started (h : Owned s) (ht : (s.task t).started = true) :
    t < s.count := by
  by_contra hge
  cases ht.symm.trans (h.unused t (Nat.le_of_not_lt hge)).started

theorem owns_of_pc (h : Owned s) {p : Pc V E} (hp : (s.task t).pc = p)
    (hx : x ∈ p.tasks) : s.Owns t x := by
  apply h.owns t x
  rw [hp]
  exact hx

/-- Two coroutines have no local task in common. -/
theorem unique (h : Owned s) {u : ℕ} (ht : x ∈ (s.task t).pc.tasks)
    (hu : x ∈ (s.task u).pc.tasks) : t = u :=
  (h.owns t x ht).parent.symm.trans (h.owns u x hu).parent

theorem set (h : Owned s) {r : Task V E} (hx : x < s.count)
    (hparent : r.parent = (s.task x).parent)
    (hdestroyed : ∀ u, s.Owns u x → r.destroyed = (s.task x).destroyed)
    (htasks : r.pc.tasks = (s.task x).pc.tasks) : Owned (s.set x r) where
  pos := h.pos
  unused y hy := by
    rw [task_set_of_ne s r (Nat.ne_of_gt (lt_of_lt_of_le hx hy))]
    exact h.unused y hy
  owns u y hy := by
    rw [apply_task_set s r (fun z => z.pc.tasks) htasks u] at hy
    have howns := h.owns u y hy
    refine ⟨howns.lt, howns.lt_count, ?_, ?_⟩
    · rw [apply_task_set s r Task.parent hparent y]
      exact howns.parent
    · by_cases hyx : y = x
      · subst hyx
        rw [task_set_self, hdestroyed u howns]
        exact howns.destroyed
      · rw [task_set_of_ne s r hyx]
        exact howns.destroyed
  nodup u := by
    rw [apply_task_set s r (fun z => z.pc.tasks) htasks u]
    exact h.nodup u

theorem goto (h : Owned s) {p q : Pc V E} (hp : (s.task t).pc = p)
    (hne : p ≠ .initial) (htasks : q.tasks = p.tasks) :
    Owned (s.goto t q) := by
  subst hp
  exact h.set (h.lt_count hne) rfl (fun _ _ => rfl) htasks

theorem release (h : Owned s) {p q : Pc V E} (hp : (s.task t).pc = p)
    (hne : p ≠ .initial) (htasks : p.tasks = x :: q.tasks) :
    Owned ((s.destroy x).goto t q) := by
  have hmem : x ∈ (s.task t).pc.tasks := by
    rw [hp, htasks]
    exact List.mem_cons_self
  have hx := h.owns t x hmem
  have hnodup := h.nodup t
  rw [hp, htasks, List.nodup_cons] at hnodup
  have ht : t < s.count := h.lt_count (hp ▸ hne)
  have hself : ((s.destroy x).goto t q).task t =
      { s.task t with pc := q } := by
    unfold State.goto State.destroy
    rw [task_set_self, task_set_of_ne _ _ hx.ne]
  have hother : ∀ u, u ≠ t →
      ((s.destroy x).goto t q).task u = (s.destroy x).task u :=
    fun u hu => task_set_of_ne _ _ hu
  have hpc : ∀ u, u ≠ t →
      (((s.destroy x).goto t q).task u).pc = (s.task u).pc := by
    intro u hu
    rw [hother u hu]
    exact apply_task_destroy s Task.pc (fun _ _ => rfl) u
  have hkept : ∀ u y, y ≠ x → s.Owns u y →
      ((s.destroy x).goto t q).Owns u y := by
    intro u y hyx hy
    have htask : (((s.destroy x).goto t q).task y).parent =
        (s.task y).parent ∧ (((s.destroy x).goto t q).task y).destroyed =
          (s.task y).destroyed := by
      by_cases hyt : y = t
      · subst hyt
        rw [hself]
        exact ⟨rfl, rfl⟩
      · rw [hother y hyt]
        unfold State.destroy
        rw [task_set_of_ne s _ hyx]
        exact ⟨rfl, rfl⟩
    exact ⟨hy.lt, hy.lt_count, htask.1.trans hy.parent,
      htask.2.trans hy.destroyed⟩
  constructor
  · exact h.pos
  · intro y hy
    have hyt : y ≠ t := Nat.ne_of_gt (lt_of_lt_of_le ht hy)
    have hyx : y ≠ x := Nat.ne_of_gt (lt_of_lt_of_le hx.lt_count hy)
    rw [hother y hyt]
    unfold State.destroy
    rw [task_set_of_ne s _ hyx]
    exact h.unused y hy
  · intro u y hy
    by_cases hu : u = t
    · subst hu
      rw [hself] at hy
      apply hkept u y
      · rintro rfl
        exact hnodup.1 hy
      · apply h.owns u y
        rw [hp, htasks]
        exact List.mem_cons_of_mem x hy
    · rw [hpc u hu] at hy
      apply hkept u y
      · rintro rfl
        exact hu (h.unique hy hmem)
      · exact h.owns u y hy
  · intro u
    by_cases hu : u = t
    · subst hu
      rw [hself]
      exact hnodup.2
    · rw [hpc u hu]
      exact h.nodup u

theorem create (h : Owned s) {p q : Pc V E} (hp : (s.task t).pc = p)
    (hne : p ≠ .initial) (htasks : q.tasks = s.count :: p.tasks)
    (child : Body V E 0) (b : Bool)
    (htask : s'.task =
      ((s.set s.count (newTask t child b)).goto t q).task)
    (hcount : s'.count = s.count + 1) : Owned s' := by
  have ht : t < s.count := h.lt_count (hp ▸ hne)
  have hself : s'.task t = { s.task t with pc := q } := by
    rw [htask]
    unfold State.goto
    rw [task_set_self, task_set_of_ne _ _ (Nat.ne_of_lt ht)]
  have hnew : s'.task s.count = newTask t child b := by
    rw [htask]
    unfold State.goto
    rw [task_set_of_ne _ _ (Nat.ne_of_gt ht), task_set_self]
  have hother : ∀ u, u ≠ t → u ≠ s.count → s'.task u = s.task u := by
    intro u hu hn
    rw [htask]
    unfold State.goto
    rw [task_set_of_ne _ _ hu, task_set_of_ne _ _ hn]
  have hkept : ∀ u y, s.Owns u y → s'.Owns u y := by
    intro u y hy
    have hy' : (s'.task y).parent = (s.task y).parent ∧
        (s'.task y).destroyed = (s.task y).destroyed := by
      by_cases hyt : y = t
      · subst hyt
        rw [hself]
        exact ⟨rfl, rfl⟩
      · rw [hother y hyt (Nat.ne_of_lt hy.lt_count)]
        exact ⟨rfl, rfl⟩
    refine ⟨hy.lt, ?_, hy'.1.trans hy.parent, hy'.2.trans hy.destroyed⟩
    rw [hcount]
    exact Nat.lt_succ_of_lt hy.lt_count
  have hfresh : s.count ∉ p.tasks := by
    intro hmem
    exact Nat.lt_irrefl _ (h.owns_of_pc hp hmem).lt_count
  constructor
  · rw [hcount]
    exact Nat.succ_pos _
  · intro y hy
    rw [hcount] at hy
    rw [hother y (Nat.ne_of_gt (ht.trans hy)) (Nat.ne_of_gt hy)]
    exact h.unused y (Nat.le_of_lt hy)
  · intro u y hy
    by_cases hu : u = t
    · subst hu
      rw [hself] at hy
      rcases List.mem_cons.mp (htasks ▸ hy) with rfl | hold
      · refine ⟨ht, ?_, ?_, ?_⟩
        · rw [hcount]
          exact Nat.lt_succ_self _
        · rw [hnew]
          rfl
        · rw [hnew]
          rfl
      · exact hkept u y (h.owns_of_pc hp hold)
    · by_cases hn : u = s.count
      · subst hn
        rw [hnew] at hy
        cases hy
      · rw [hother u hu hn] at hy
        exact hkept u y (h.owns u y hy)
  · intro u
    by_cases hu : u = t
    · subst hu
      rw [hself]
      refine htasks ▸ List.nodup_cons.mpr ⟨hfresh, ?_⟩
      rw [← hp]
      exact h.nodup u
    · by_cases hn : u = s.count
      · subst hn
        rw [hnew]
        exact List.nodup_nil
      · rw [hother u hu hn]
        exact h.nodup u

end Owned

end CoAwait
end Ethreads
