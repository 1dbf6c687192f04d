import Ethreads.CoAwait.Ownership

/-!
# The tasks and the workers

What the flags of a task say about its coroutine, where the handles of the
coroutines are, and who resumes a coroutine that is suspended.
-/

namespace Ethreads
namespace CoAwait

open CoroTask (Completion)

universe u v

variable {V : Type u} {E : Type v} {k : ℕ}

/-! ## The flags of a task -/

def Pc.published : Pc V E → Bool
  | destroying (.value _) _ | setReady | storeFinal _ | transfer _
  | finished => true
  | _ => false

def Pc.handedOff : Pc V E → Bool
  | storeFinal _ | transfer _ | finished => true
  | _ => false

def Pc.final : Pc V E → Bool
  | transfer _ | finished => true
  | _ => false

/-- The flags of a task agree with where its coroutine stands. -/
structure Task.Ok (x : Task V E) : Prop where
  result : x.result.isSome = x.pc.published
  handoff : x.handoff = .ready ↔ x.pc.handedOff = true
  final : x.finalSuspendReached = x.pc.final
  started : x.pc ≠ .initial → x.started = true
  continued : ∀ p, x.handoff = .continuation p → x.started = true

theorem ok_newTask (p : ℕ) (source : Body V E 0) (b : Bool) :
    (newTask p source b).Ok := by
  refine ⟨rfl, ?_, rfl, fun hne => absurd rfl hne, ?_⟩
  · constructor <;> exact nofun
  · exact nofun

theorem Task.Ok.goto {x : Task V E} (h : x.Ok) {p q : Pc V E}
    (hp : x.pc = p) (hne : p ≠ .initial)
    (hpublished : q.published = p.published)
    (hhandedOff : q.handedOff = p.handedOff) (hfinal : q.final = p.final) :
    Task.Ok { x with pc := q } := by
  subst hp
  exact ⟨h.result.trans hpublished.symm, by rw [hhandedOff]; exact h.handoff,
    h.final.trans hfinal.symm, fun _ => h.started hne, h.continued⟩

theorem Task.Ok.consume {x : Task V E} (h : x.Ok) (c : Completion V E)
    (hresult : x.result.isSome = true) (b : Bool) :
    Task.Ok { x with result := some c, consumed := b } where
  result := hresult.symm.trans h.result
  handoff := h.handoff
  final := h.final
  started := h.started
  continued := h.continued

theorem Task.Ok.destroy {x : Task V E} (h : x.Ok) (n : ℕ) :
    Task.Ok { x with destroyed := n } :=
  ⟨h.result, h.handoff, h.final, h.started, h.continued⟩

theorem Task.Ok.start {x : Task V E} (h : x.Ok) :
    Task.Ok { x with started := true } :=
  ⟨h.result, h.handoff, h.final, fun _ => rfl, fun _ _ => rfl⟩

theorem Task.Ok.initial {x : Task V E} (h : x.Ok)
    (hstarted : x.started = false) : x.pc = .initial := by
  by_contra hne
  cases hstarted.symm.trans (h.started hne)

theorem Task.Ok.goto_all {s : State k V E} (h : ∀ x, (s.task x).Ok) {t : ℕ}
    {p q : Pc V E} (hp : (s.task t).pc = p) (hne : p ≠ .initial)
    (hpublished : q.published = p.published)
    (hhandedOff : q.handedOff = p.handedOff) (hfinal : q.final = p.final)
    (x : ℕ) : ((s.goto t q).task x).Ok :=
  forall_task_set s _ (P := fun _ x => x.Ok)
    ((h t).goto hp hne hpublished hhandedOff hfinal) h x

/-! ## The queue and the workers -/

/-- The handles of the coroutines that have not begun are scheduled once. -/
structure Queued (s : State k V E) : Prop where
  mem : ∀ t, t ∈ s.queue ↔
    (s.task t).started = true ∧ (s.task t).pc = .initial
  nodup : s.queue.Nodup

theorem Queued.of_same {s s' : State k V E} (h : Queued s)
    (hqueue : s'.queue = s.queue)
    (hsame : ∀ t, (s'.task t).started = true ∧ (s'.task t).pc = .initial ↔
      (s.task t).started = true ∧ (s.task t).pc = .initial) :
    Queued s' := by
  refine ⟨fun t => ?_, ?_⟩
  · rw [hqueue, hsame t]
    exact h.mem t
  · rw [hqueue]
    exact h.nodup

theorem Queued.set {s : State k V E} (h : Queued s) {x : ℕ} {r : Task V E}
    (hsame : r.started = true ∧ r.pc = .initial ↔
      (s.task x).started = true ∧ (s.task x).pc = .initial) :
    Queued (s.set x r) := by
  refine h.of_same rfl fun t => ?_
  exact forall_task_set s r (P := fun t y =>
    y.started = true ∧ y.pc = .initial ↔
      (s.task t).started = true ∧ (s.task t).pc = .initial)
    hsame (fun _ => Iff.rfl) t

theorem Queued.goto {s : State k V E} (h : Queued s) {t : ℕ} {p q : Pc V E}
    (hp : (s.task t).pc = p) (hne : p ≠ .initial) (hq : q ≠ .initial) :
    Queued (s.goto t q) := by
  subst hp
  exact h.set ⟨fun hr => absurd hr.2 hq, fun hr => absurd hr.2 hne⟩

theorem Queued.start {s s' : State k V E} (h : Queued s) {x : ℕ}
    (hstarted : (s.task x).started = false)
    (hpc : (s.task x).pc = .initial)
    (htask : s'.task = (s.set x { s.task x with started := true }).task)
    (hqueue : s'.queue = s.queue ++ [x]) : Queued s' := by
  have hx : x ∉ s.queue := by
    intro hmem
    cases hstarted.symm.trans ((h.mem x).mp hmem).1
  constructor
  · intro t
    rw [hqueue, htask, List.mem_append, List.mem_singleton]
    by_cases ht : t = x
    · subst ht
      rw [task_set_self]
      exact ⟨fun _ => ⟨rfl, hpc⟩, fun _ => Or.inr rfl⟩
    · rw [task_set_of_ne s _ ht, ← h.mem t]
      exact ⟨fun hor => hor.resolve_right ht, Or.inl⟩
  · rw [hqueue]
    exact h.nodup.append (List.nodup_singleton x)
      (List.disjoint_singleton.mpr hx)

/-- Each worker runs one coroutine, and each coroutine that is active is run
by one worker. -/
structure Working (s : State k V E) : Prop where
  active : ∀ w t, s.worker w = some t → (s.task t).pc.active = true
  held : ∀ t, (s.task t).pc.active = true → ∃ w, s.worker w = some t
  single : ∀ w w' t, s.worker w = some t → s.worker w' = some t → w = w'

namespace Working

variable {s s' : State k V E} {w : Fin k} {t : ℕ}

theorem of_same (h : Working s) (hworker : s'.worker = s.worker)
    (hsame : ∀ t, (s'.task t).pc.active = (s.task t).pc.active) :
    Working s' := by
  refine ⟨fun w t => ?_, fun t => ?_, fun w w' t => ?_⟩
  · rw [hworker, hsame]
    exact h.active w t
  · rw [hworker, hsame]
    exact h.held t
  · rw [hworker]
    exact h.single w w' t

theorem set (h : Working s) {x : ℕ} {r : Task V E}
    (hsame : r.pc.active = (s.task x).pc.active) : Working (s.set x r) :=
  h.of_same rfl (apply_task_set s r (fun y => y.pc.active) hsame)

theorem goto (h : Working s) {p q : Pc V E} (hr : s.Runs w t p)
    (hq : q.active = true) : Working (s.goto t q) :=
  h.set (hq.trans (h.active w t hr.1).symm)

theorem leave (h : Working s) {p q : Pc V E} (hr : s.Runs w t p)
    (hq : q.active = false) : Working ((s.goto t q).work w none) := by
  have hself : ((s.goto t q).task t).pc.active = false := by
    unfold State.goto
    rw [task_set_self]
    exact hq
  have hother : ∀ u, u ≠ t →
      ((s.goto t q).task u).pc.active = (s.task u).pc.active := by
    intro u hu
    unfold State.goto
    rw [task_set_of_ne s _ hu]
  have hworker : ∀ v, v ≠ w →
      ((s.goto t q).work w none).worker v = s.worker v :=
    fun v hv => Function.update_of_ne hv ..
  have hnone : ((s.goto t q).work w none).worker w = none :=
    Function.update_self ..
  have hold : ∀ v u, ((s.goto t q).work w none).worker v = some u →
      v ≠ w ∧ s.worker v = some u := by
    intro v u hv
    by_cases hvw : v = w
    · subst hvw
      cases hnone.symm.trans hv
    · exact ⟨hvw, (hworker v hvw).symm.trans hv⟩
  constructor
  · intro v u hv
    obtain ⟨hvw, hu⟩ := hold v u hv
    have hut : u ≠ t := by
      rintro rfl
      exact hvw (h.single v w u hu hr.1)
    exact (hother u hut).trans (h.active v u hu)
  · intro u hu
    by_cases hut : u = t
    · subst hut
      cases hself.symm.trans hu
    · obtain ⟨v, hv⟩ := h.held u ((hother u hut).symm.trans hu)
      have hvw : v ≠ w := by
        rintro rfl
        exact hut (Option.some.inj (hv.symm.trans hr.1))
      exact ⟨v, (hworker v hvw).trans hv⟩
  · intro v v' u hv hv'
    exact h.single v v' u (hold v u hv).2 (hold v' u hv').2

theorem enter (h : Working s) {q : Pc V E} (hw : s.worker w = none)
    (ht : (s.task t).pc.active = false) (hq : q.active = true)
    (htask : s'.task = (s.goto t q).task)
    (hworker : s'.worker = Function.update s.worker w (some t)) :
    Working s' := by
  have hself : (s'.task t).pc.active = true := by
    rw [htask]
    unfold State.goto
    rw [task_set_self]
    exact hq
  have hother : ∀ u, u ≠ t →
      (s'.task u).pc.active = (s.task u).pc.active := by
    intro u hu
    rw [htask]
    unfold State.goto
    rw [task_set_of_ne s _ hu]
  have hfree : ∀ v, s.worker v ≠ some t := by
    intro v hv
    cases ht.symm.trans (h.active v t hv)
  have hcases : ∀ v u, s'.worker v = some u →
      v = w ∧ u = t ∨ u ≠ t ∧ s.worker v = some u := by
    intro v u hv
    rw [hworker] at hv
    by_cases hvw : v = w
    · subst hvw
      rw [Function.update_self] at hv
      exact Or.inl ⟨rfl, (Option.some.inj hv).symm⟩
    · rw [Function.update_of_ne hvw] at hv
      refine Or.inr ⟨?_, hv⟩
      rintro rfl
      exact hfree v hv
  constructor
  · intro v u hv
    rcases hcases v u hv with ⟨-, rfl⟩ | ⟨hu, hv⟩
    · exact hself
    · exact (hother u hu).trans (h.active v u hv)
  · intro u hu
    by_cases hut : u = t
    · subst hut
      refine ⟨w, ?_⟩
      rw [hworker]
      exact Function.update_self ..
    · obtain ⟨v, hv⟩ := h.held u ((hother u hut).symm.trans hu)
      have hvw : v ≠ w := by
        rintro rfl
        cases hw.symm.trans hv
      refine ⟨v, ?_⟩
      rw [hworker, Function.update_of_ne hvw]
      exact hv
  · intro v v' u hv hv'
    rcases hcases v u hv with ⟨rfl, rfl⟩ | ⟨hu, hv⟩
    · rcases hcases v' u hv' with ⟨rfl, -⟩ | ⟨hu, -⟩
      · rfl
      · exact absurd rfl hu
    · rcases hcases v' u hv' with ⟨rfl, rfl⟩ | ⟨-, hv'⟩
      · exact absurd rfl hu
      · exact h.single v v' u hv hv'

end Working

/-! ## Continuations -/

/-- Who is resumed when the task completes. -/
def Task.owes (x : Task V E) : Option ℕ :=
  match x.pc with
  | .storeFinal p | .transfer p => p
  | _ => x.handoff.found

/-- The task that a suspended coroutine waits for. -/
def Pc.waitsFor : Pc V E → Option ℕ
  | suspended a => some a.awaited
  | _ => none

/-- A coroutine is suspended exactly if the task that it waits for is going to
resume it. -/
def Linked (s : State k V E) : Prop :=
  ∀ p x, (s.task p).pc.waitsFor = some x ↔ (s.task x).owes = some p

theorem Linked.of_same {s s' : State k V E} (h : Linked s)
    (hwaits : ∀ t, (s'.task t).pc.waitsFor = (s.task t).pc.waitsFor)
    (howes : ∀ t, (s'.task t).owes = (s.task t).owes) : Linked s' := by
  intro p x
  rw [hwaits, howes]
  exact h p x

theorem Linked.set {s : State k V E} (h : Linked s) {x : ℕ} {r : Task V E}
    (hwaits : r.pc.waitsFor = (s.task x).pc.waitsFor)
    (howes : r.owes = (s.task x).owes) : Linked (s.set x r) :=
  h.of_same (apply_task_set s r (fun y => y.pc.waitsFor) hwaits)
    (apply_task_set s r Task.owes howes)

theorem Linked.link {s s' : State k V E} (h : Linked s) {t x : ℕ}
    (hwaits : (s'.task t).pc.waitsFor = some x)
    (hrunning : (s.task t).pc.waitsFor = none)
    (hwaitsOther : ∀ u, u ≠ t →
      (s'.task u).pc.waitsFor = (s.task u).pc.waitsFor)
    (howes : (s'.task x).owes = some t) (hfree : (s.task x).owes = none)
    (howesOther : ∀ y, y ≠ x → (s'.task y).owes = (s.task y).owes) :
    Linked s' := by
  intro u y
  by_cases hu : u = t
  · subst hu
    rw [hwaits]
    by_cases hy : y = x
    · subst hy
      rw [howes]
      exact ⟨fun _ => rfl, fun _ => rfl⟩
    · rw [howesOther y hy, ← h u y, hrunning]
      exact ⟨fun heq => absurd (Option.some.inj heq).symm hy, nofun⟩
  · rw [hwaitsOther u hu, h u y]
    by_cases hy : y = x
    · subst hy
      rw [hfree, howes]
      exact ⟨nofun, fun heq => absurd (Option.some.inj heq).symm hu⟩
    · rw [howesOther y hy]

theorem Linked.unlink {s s' : State k V E} (h : Linked s) {t x : ℕ}
    (hold : (s.task x).owes = some t)
    (hwaits : (s'.task t).pc.waitsFor = none)
    (hwaitsOther : ∀ u, u ≠ t →
      (s'.task u).pc.waitsFor = (s.task u).pc.waitsFor)
    (howes : (s'.task x).owes = none)
    (howesOther : ∀ y, y ≠ x → (s'.task y).owes = (s.task y).owes) :
    Linked s' := by
  have hx := (h t x).mpr hold
  intro u y
  by_cases hu : u = t
  · subst hu
    rw [hwaits]
    by_cases hy : y = x
    · subst hy
      rw [howes]
      exact ⟨nofun, nofun⟩
    · rw [howesOther y hy, ← h u y, hx]
      exact ⟨nofun, fun heq => absurd (Option.some.inj heq).symm hy⟩
  · rw [hwaitsOther u hu, h u y]
    by_cases hy : y = x
    · subst hy
      rw [hold, howes]
      exact ⟨fun heq => absurd (Option.some.inj heq).symm hu, nofun⟩
    · rw [howesOther y hy]

/-- The steps of an await that were taken already have left their mark. -/
def State.Ready (s : State k V E) : Pc V E → Prop
  | .setContinuation a => (s.task a.awaited).started = true
  | .get a => (s.task a.awaited).result.isSome = true
  | _ => True

theorem State.Ready.mono {s s' : State k V E} {p : Pc V E} (h : s.Ready p)
    (hstarted : ∀ x, (s.task x).started = true →
      (s'.task x).started = true)
    (hresult : ∀ x, (s.task x).result.isSome = true →
      (s'.task x).result.isSome = true) : s'.Ready p := by
  cases p with
  | setContinuation a => exact hstarted _ h
  | get a => exact hresult _ h
  | _ => trivial

end CoAwait
end Ethreads
