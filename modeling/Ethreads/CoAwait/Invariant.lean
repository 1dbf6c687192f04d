import Ethreads.CoAwait.Tasks

/-!
# The invariant of the coroutines

Each step of the program keeps what the previous modules say about tasks,
workers, handles and continuations.
-/

namespace Ethreads
namespace CoAwait

open CoroTask (Completion)

universe u v

variable {V : Type u} {E : Type v} {k : ℕ}

def MainPc.started : MainPc V E → Bool
  | start => false
  | _ => true

/-- Tasks, workers, handles and continuations agree with each other. -/
structure Placed (s : State k V E) : Prop where
  ok : ∀ x, (s.task x).Ok
  queued : Queued s
  working : Working s
  linked : Linked s
  ready : ∀ t, s.Ready (s.task t).pc
  root : (s.task 0).started = s.main.started

namespace Placed

variable {s s' : State k V E} {w : Fin k} {t x : ℕ} {p q : Pc V E}

theorem congr (h : Placed s) (htask : s'.task = s.task)
    (hqueue : s'.queue = s.queue) (hworker : s'.worker = s.worker)
    (hmain : s'.main.started = s.main.started) : Placed s' where
  ok := by
    rw [htask]
    exact h.ok
  queued := by
    refine h.queued.of_same hqueue fun t => ?_
    rw [htask]
  working := by
    refine h.working.of_same hworker fun t => ?_
    rw [htask]
  linked := by
    refine h.linked.of_same (fun t => ?_) fun t => ?_ <;> rw [htask]
  ready t := by
    rw [htask]
    apply (h.ready t).mono <;> rw [htask] <;> exact fun _ => id
  root := by
    rw [htask, hmain]
    exact h.root

theorem runs_active (h : Placed s) (hr : s.Runs w t p) : p.active = true := by
  rw [← hr.2]
  exact h.working.active w t hr.1

theorem runs_ne_initial (h : Placed s) (hr : s.Runs w t p) :
    p ≠ .initial := by
  rintro rfl
  cases h.runs_active hr

theorem runs_started (h : Placed s) (hr : s.Runs w t p) :
    (s.task t).started = true := by
  apply (h.ok t).started
  rw [hr.2]
  exact h.runs_ne_initial hr

theorem waitsFor_of_active (hactive : p.active = true) :
    p.waitsFor = none := by
  cases p with
  | suspended a => cases hactive
  | _ => rfl

/-- A change of one task that neither suspends nor resumes a coroutine. -/
theorem set (h : Placed s) {r : Task V E}
    (hstarted : r.started = (s.task x).started)
    (hactive : r.pc.active = (s.task x).pc.active)
    (hinitial : r.pc = .initial ↔ (s.task x).pc = .initial)
    (hwaits : r.pc.waitsFor = (s.task x).pc.waitsFor)
    (howes : r.owes = (s.task x).owes) (hok : r.Ok)
    (hresult : (s.task x).result.isSome = true → r.result.isSome = true)
    (hready : s.Ready r.pc) : Placed (s.set x r) where
  ok := forall_task_set s r (P := fun _ y => y.Ok) hok h.ok
  queued := h.queued.set (by rw [hstarted, hinitial])
  working := h.working.set hactive
  linked := h.linked.set hwaits howes
  ready := by
    have hmono : ∀ q, s.Ready q → (s.set x r).Ready q := by
      intro q hq
      refine hq.mono (fun y hy => ?_) fun y hy => ?_
      · rw [apply_task_set s r Task.started hstarted y]
        exact hy
      · by_cases hyx : y = x
        · subst hyx
          rw [task_set_self]
          exact hresult hy
        · rw [task_set_of_ne s r hyx]
          exact hy
    exact forall_task_set s r (P := fun _ y => (s.set x r).Ready y.pc)
      (hmono _ hready) fun t => hmono _ (h.ready t)
  root := (apply_task_set s r Task.started hstarted 0).trans h.root

/-- A step of the coroutine itself that keeps it on its worker. -/
theorem advance (h : Placed s) (hr : s.Runs w t p) {r : Task V E}
    (hstarted : r.started = (s.task t).started)
    (hactive : r.pc.active = true) (howes : r.owes = (s.task t).owes)
    (hok : r.Ok)
    (hresult : (s.task t).result.isSome = true → r.result.isSome = true)
    (hready : s.Ready r.pc) : Placed (s.set t r) := by
  have hp := h.runs_active hr
  obtain ⟨hw, rfl⟩ := hr
  refine h.set hstarted (hactive.trans hp.symm) ?_ ?_ howes hok hresult hready
  · constructor
    · intro hinitial
      rw [hinitial] at hactive
      cases hactive
    · intro hinitial
      rw [hinitial] at hp
      cases hp
  · rw [waitsFor_of_active hactive, waitsFor_of_active hp]

theorem owes_of_not_handedOff {y : Task V E}
    (hpc : y.pc.handedOff = false) : y.owes = y.handoff.found := by
  unfold Task.owes
  cases hp : y.pc with
  | storeFinal c =>
      rw [hp] at hpc
      cases hpc
  | transfer c =>
      rw [hp] at hpc
      cases hpc
  | _ => rfl

theorem goto (h : Placed s) (hr : s.Runs w t p)
    (hactive : q.active = true) (hpublished : q.published = p.published)
    (hp : p.handedOff = false) (hq : q.handedOff = false)
    (hready : s.Ready q) : Placed (s.goto t q) := by
  have hfinal : ∀ p : Pc V E, p.handedOff = false → p.final = false := by
    intro p hp
    cases p <;> first | rfl | cases hp
  refine h.advance hr rfl hactive ?_ ?_ id hready
  · have hold : (s.task t).owes = (s.task t).handoff.found := by
      apply owes_of_not_handedOff
      rw [hr.2]
      exact hp
    exact (owes_of_not_handedOff hq).trans hold.symm
  · exact (h.ok t).goto hr.2 (h.runs_ne_initial hr) hpublished
      (hq.trans hp.symm) ((hfinal q hq).trans (hfinal p hp).symm)

theorem consume (h : Placed s) (movedFrom : V → V) (c : Completion V E)
    (hresult : (s.task x).result.isSome = true) :
    Placed (s.consume movedFrom x c) :=
  h.set rfl rfl Iff.rfl rfl rfl ((h.ok x).consume _ hresult true)
    (fun _ => rfl) (h.ready x)

theorem destroy (h : Placed s) (x : ℕ) : Placed (s.destroy x) :=
  h.set rfl rfl Iff.rfl rfl rfl ((h.ok x).destroy _) id (h.ready x)

theorem start (h : Placed s) {r : Task V E}
    (hr : r = { s.task x with started := true })
    (hstarted : (s.task x).started = false)
    (htask : s'.task = (s.set x r).task) (hqueue : s'.queue = s.queue ++ [x])
    (hworker : s'.worker = s.worker)
    (hroot : (s'.task 0).started = s'.main.started) : Placed s' := by
  have hpc : ∀ t, (s'.task t).pc = (s.task t).pc := by
    rw [htask]
    exact apply_task_set s r Task.pc (by rw [hr])
  have hresult : ∀ t, (s'.task t).result = (s.task t).result := by
    rw [htask]
    exact apply_task_set s r Task.result (by rw [hr])
  have hkept : ∀ t, (s.task t).started = true →
      (s'.task t).started = true := by
    rw [htask]
    refine forall_task_set s r (P := fun t y =>
      (s.task t).started = true → y.started = true) ?_ fun _ => id
    rw [hr]
    exact fun _ => rfl
  constructor
  · rw [htask]
    refine forall_task_set s r (P := fun _ y => y.Ok) ?_ h.ok
    rw [hr]
    exact (h.ok x).start
  · rw [hr] at htask
    exact h.queued.start hstarted ((h.ok x).initial hstarted) htask hqueue
  · refine h.working.of_same hworker fun t => ?_
    rw [hpc]
  · refine h.linked.of_same (fun t => ?_) ?_
    · rw [hpc]
    · rw [htask]
      apply apply_task_set s r Task.owes
      rw [hr]
      rfl
  · intro t
    rw [hpc]
    refine (h.ready t).mono hkept fun y hy => ?_
    rw [hresult]
    exact hy
  · exact hroot

theorem resume (h : Placed s) (hw : s.worker w = none) (ht : t ∈ s.queue)
    (f : Frame V E)
    (htask : s'.task = (s.goto t (.running f)).task)
    (hqueue : s'.queue = s.queue.erase t)
    (hworker : s'.worker = Function.update s.worker w (some t))
    (hmain : s'.main = s.main) : Placed s' := by
  obtain ⟨hstarted, hpc⟩ := (h.queued.mem t).mp ht
  have hok := h.ok t
  have hresult := hok.result
  have hhandoff := hok.handoff
  have hfinal := hok.final
  rw [hpc] at hresult hhandoff hfinal
  have hpc' : ∀ u, u ≠ t → (s'.task u).pc = (s.task u).pc := by
    intro u hu
    rw [htask]
    unfold State.goto
    rw [task_set_of_ne s _ hu]
  have hself : s'.task t = { s.task t with pc := .running f } := by
    rw [htask]
    exact task_set_self ..
  constructor
  · rw [htask]
    exact forall_task_set s _ (P := fun _ y => y.Ok)
      ⟨hresult, hhandoff, hfinal, fun _ => hstarted, hok.continued⟩ h.ok
  · constructor
    · intro u
      rw [hqueue, h.queued.nodup.mem_erase_iff, h.queued.mem u]
      by_cases hu : u = t
      · subst hu
        rw [hself]
        exact ⟨fun hor => absurd rfl hor.1, fun hor => nomatch hor.2⟩
      · rw [htask]
        unfold State.goto
        rw [task_set_of_ne s _ hu]
        exact ⟨fun hor => hor.2, fun hor => ⟨hu, hor⟩⟩
    · rw [hqueue]
      exact h.queued.nodup.erase t
  · refine h.working.enter hw ?_ rfl htask hworker
    rw [hpc]
    rfl
  · refine h.linked.of_same (fun u => ?_) fun u => ?_
    · by_cases hu : u = t
      · subst hu
        rw [hself, hpc]
        rfl
      · rw [hpc' u hu]
    · by_cases hu : u = t
      · subst hu
        rw [hself]
        symm
        apply owes_of_not_handedOff
        rw [hpc]
        rfl
      · rw [htask]
        unfold State.goto
        rw [task_set_of_ne s _ hu]
  · intro u
    have hkept : s'.Ready (s.task u).pc := by
      refine (h.ready u).mono (fun y hy => ?_) fun y hy => ?_
      · rw [htask, ← hy]
        exact apply_task_goto s Task.started _ (fun _ => rfl) y
      · rw [htask, ← hy]
        exact apply_task_goto s (fun z => z.result.isSome) _ (fun _ => rfl) y
    by_cases hu : u = t
    · subst hu
      rw [hself]
      trivial
    · rw [hpc' u hu]
      exact hkept
  · rw [htask, hmain, ← h.root]
    exact apply_task_goto s Task.started _ (fun _ => rfl) 0

theorem create (h : Placed s) {n : ℕ} (hn : (s.task n).Unused)
    (hpos : 0 < n) (hr : s.Runs w t p) (htn : t ≠ n) (child : Body V E 0)
    (b : Bool) (hactive : q.active = true)
    (hpublished : q.published = p.published) (hp : p.handedOff = false)
    (hq : q.handedOff = false) (hready : ∀ s : State k V E, s.Ready q)
    (htask : s'.task = ((s.set n (newTask t child b)).goto t q).task)
    (hqueue : s'.queue = if b then s.queue ++ [n] else s.queue)
    (hworker : s'.worker = s.worker) (hmain : s'.main = s.main) :
    Placed s' := by
  have hnew : Placed (s.set n (newTask t child false)) := by
    refine h.set ?_ ?_ ?_ ?_ ?_ (ok_newTask t child false) ?_ trivial
    · exact hn.started.symm
    · rw [hn.pc]
      rfl
    · rw [hn.pc]
      exact Iff.rfl
    · rw [hn.pc]
      rfl
    · unfold Task.owes
      rw [hn.pc, hn.handoff]
      rfl
    · rw [hn.result]
      exact nofun
  cases b with
  | false =>
      have hgoto := hnew.goto (hr.set _ htn) hactive hpublished hp hq
        (hready _)
      exact hgoto.congr htask hqueue hworker (congrArg _ hmain)
  | true =>
      have hstart : Placed
          { s.set n (newTask t child true) with queue := s.queue ++ [n] } := by
        refine hnew.start (x := n) (r := newTask t child true) ?_ ?_ ?_ rfl
          rfl ?_
        · rw [task_set_self]
          rfl
        · rw [task_set_self]
          rfl
        · exact (Function.update_idem ..).symm
        · refine Eq.trans ?_ h.root
          exact congrArg Task.started
            (task_set_of_ne s _ (Nat.ne_of_lt hpos))
      have hgoto := hstart.goto (hr.set (newTask t child true) htn) hactive
        hpublished hp hq (hready _)
      exact hgoto.congr htask hqueue hworker (congrArg _ hmain)

/-- A coroutine registers as the continuation of a task. -/
theorem suspend (h : Placed s) {a : Awaiting V E} {r : Task V E}
    (hr : s.Runs w t (.setContinuation a)) (hne : t ≠ a.awaited)
    (hempty : (s.task a.awaited).handoff = .empty)
    (hset : r = { s.task a.awaited with handoff := .continuation t })
    (htask : s'.task = ((s.set a.awaited r).goto t (.suspended a)).task)
    (hqueue : s'.queue = s.queue)
    (hworker : s'.worker = Function.update s.worker w none)
    (hmain : s'.main = s.main) : Placed s' := by
  have hstarted : (s.task a.awaited).started = true := by
    have hready := h.ready t
    rw [hr.2] at hready
    exact hready
  have hoff : (s.task a.awaited).pc.handedOff = false := by
    by_contra hnot
    rw [Bool.not_eq_false] at hnot
    cases hempty.symm.trans ((h.ok _).handoff.mpr hnot)
  have hr' : (s.set a.awaited r).Runs w t (.setContinuation a) :=
    hr.set r hne
  have hpc : ∀ y, ((s.set a.awaited r).task y).pc = (s.task y).pc :=
    apply_task_set s r Task.pc (by rw [hset])
  have hself : s'.task t = { s.task t with pc := .suspended a } := by
    rw [htask]
    unfold State.goto
    rw [task_set_self, task_set_of_ne s r hne]
  have hawaited : s'.task a.awaited = r := by
    rw [htask]
    unfold State.goto
    rw [task_set_of_ne _ _ hne.symm, task_set_self]
  have hother : ∀ y, y ≠ t → y ≠ a.awaited → s'.task y = s.task y := by
    intro y hy hya
    rw [htask]
    unfold State.goto
    rw [task_set_of_ne _ _ hy, task_set_of_ne s r hya]
  have hok : ∀ y, ((s.set a.awaited r).task y).Ok := by
    refine forall_task_set s r (P := fun _ y => y.Ok) ?_ h.ok
    obtain ⟨hresult, -, hfinal, hbegun, -⟩ := h.ok a.awaited
    rw [hset]
    refine ⟨hresult, ?_, hfinal, hbegun, fun _ _ => hstarted⟩
    rw [hoff]
    constructor <;> exact nofun
  constructor
  · rw [htask]
    exact Task.Ok.goto_all hok hr'.2 (h.runs_ne_initial hr) rfl rfl rfl
  · have hqueued : Queued (s.set a.awaited r) := by
      apply h.queued.set
      rw [hset]
    have hgoto : Queued ((s.set a.awaited r).goto t (.suspended a)) :=
      hqueued.goto hr'.2 (h.runs_ne_initial hr) nofun
    refine hgoto.of_same hqueue fun y => ?_
    rw [htask]
  · have hworking : Working (s.set a.awaited r) := by
      apply h.working.set
      rw [hset]
    refine (hworking.leave (q := .suspended a) hr' rfl).of_same hworker
      fun y => ?_
    rw [htask]
    rfl
  · refine h.linked.link (t := t) (x := a.awaited) ?_ ?_ ?_ ?_ ?_ ?_
    · rw [hself]
      rfl
    · rw [hr.2]
      rfl
    · intro u hu
      rw [htask]
      unfold State.goto
      rw [task_set_of_ne _ _ hu, hpc]
    · rw [hawaited, hset]
      exact owes_of_not_handedOff hoff
    · rw [owes_of_not_handedOff hoff, hempty]
      rfl
    · intro y hy
      by_cases hyt : y = t
      · subst hyt
        rw [hself]
        have hold : (s.task y).owes = (s.task y).handoff.found := by
          apply owes_of_not_handedOff
          rw [hr.2]
          rfl
        exact hold.symm
      · rw [hother y hyt hy]
  · intro y
    have hkept : s'.Ready (s.task y).pc := by
      refine (h.ready y).mono (fun z hz => ?_) fun z hz => ?_
      · rw [htask, ← hz, apply_task_goto _ Task.started _ (fun _ => rfl) z]
        exact apply_task_set s r Task.started (by rw [hset]) z
      · rw [htask, ← hz, apply_task_goto _ Task.result _ (fun _ => rfl) z]
        exact congrArg _ (apply_task_set s r Task.result (by rw [hset]) z)
    by_cases hy : y = t
    · subst hy
      rw [hself]
      trivial
    · have hsame : (s'.task y).pc = (s.task y).pc := by
        rw [htask]
        unfold State.goto
        rw [task_set_of_ne _ _ hy, hpc]
      rw [hsame]
      exact hkept
  · rw [htask, hmain, ← h.root,
      apply_task_goto _ Task.started _ (fun _ => rfl) 0]
    exact apply_task_set s r Task.started (by rw [hset]) 0

theorem ok_publish {y : Task V E} (hy : y.Ok) (hpc : y.pc = p)
    (hne : p ≠ .initial) (hp : p.handedOff = false)
    (hpublished : q.published = true) (hq : q.handedOff = false)
    (c : Completion V E) : Task.Ok { y with result := some c, pc := q } := by
  have hfinal : ∀ p : Pc V E, p.handedOff = false → p.final = false := by
    intro p hp
    cases p <;> first | rfl | cases hp
  obtain ⟨-, hhandoff, hfin, hstarted, hcontinued⟩ := hy
  rw [hpc] at hhandoff hfin hstarted
  refine ⟨hpublished.symm, ?_, ?_, fun _ => hstarted hne, hcontinued⟩
  · change y.handoff = .ready ↔ q.handedOff = true
    rw [hhandoff, hp, hq]
  · change y.finalSuspendReached = q.final
    rw [hfin, hfinal p hp, hfinal q hq]

/-- A coroutine that has transferred control is finished. -/
theorem ok_finished {y : Task V E} (hy : y.Ok) {c : Option ℕ}
    (hpc : y.pc = .transfer c) : Task.Ok { y with pc := .finished } := by
  obtain ⟨hresult, hhandoff, hfinal, hstarted, -⟩ := hy
  rw [hpc] at hresult hhandoff hfinal
  have hbegun : y.started = true := by
    apply hstarted
    rw [hpc]
    exact nofun
  exact ⟨hresult, hhandoff, hfinal, fun _ => hbegun, fun _ _ => hbegun⟩

theorem owes_finished {y : Task V E} (hy : y.Ok) {c : Option ℕ}
    (hpc : y.pc = .transfer c) :
    Task.owes { y with pc := .finished } = none := by
  have hready : y.handoff = .ready := by
    apply hy.handoff.mpr
    rw [hpc]
    rfl
  change y.handoff.found = none
  rw [hready]
  rfl

theorem finish (h : Placed s) (hr : s.Runs w t (.transfer none)) :
    Placed ((s.goto t .finished).work w none) := by
  have hne := h.runs_ne_initial hr
  have hready : ∀ y, ((s.goto t .finished).work w none).Ready
      (s.task y).pc := by
    intro y
    refine (h.ready y).mono (fun z hz => ?_) fun z hz => ?_
    · exact (apply_task_goto s Task.started _ (fun _ => rfl) z).trans hz
    · have hsame : ((s.goto t .finished).task z).result =
          (s.task z).result :=
        apply_task_goto s Task.result _ (fun _ => rfl) z
      change ((s.goto t .finished).task z).result.isSome = true
      rw [hsame]
      exact hz
  constructor
  · exact forall_task_set s _ (P := fun _ y => y.Ok)
      (ok_finished (h.ok t) hr.2) h.ok
  · have hgoto : Queued (s.goto t .finished) := h.queued.goto hr.2 hne nofun
    exact hgoto.of_same rfl fun _ => Iff.rfl
  · exact h.working.leave hr rfl
  · have hgoto : Linked (s.goto t .finished) := by
      apply h.linked.set
      · rw [hr.2]
        rfl
      · rw [owes_finished (h.ok t) hr.2]
        unfold Task.owes
        rw [hr.2]
    exact hgoto
  · exact forall_task_set s _ (P := fun _ y =>
      ((s.goto t .finished).work w none).Ready y.pc) trivial hready
  · exact (apply_task_goto s Task.started _ (fun _ => rfl) 0).trans h.root

theorem transfer (h : Placed s) {u : ℕ} {a : Awaiting V E}
    (hr : s.Runs w t (.transfer (some u)))
    (hu : (s.task u).pc = .suspended a) :
    Placed (((s.goto t .finished).goto u (.get a)).work w (some u)) := by
  have hut : u ≠ t := by
    rintro rfl
    cases hu.symm.trans hr.2
  have hne := h.runs_ne_initial hr
  have howes : (s.task t).owes = some u := by
    unfold Task.owes
    rw [hr.2]
  have hawaited : a.awaited = t := by
    have hwaits := (h.linked u t).mpr howes
    rw [hu] at hwaits
    exact Option.some.inj hwaits
  have hpublished : (s.task t).result.isSome = true := by
    rw [(h.ok t).result, hr.2]
    rfl
  have hu' : ((s.goto t .finished).task u).pc = .suspended a := by
    unfold State.goto
    rw [task_set_of_ne s _ hut]
    exact hu
  have hok : ∀ y, ((s.goto t .finished).task y).Ok :=
    forall_task_set s _ (P := fun _ y => y.Ok) (ok_finished (h.ok t) hr.2)
      h.ok
  have hself : ((s.goto t .finished).goto u (.get a)).task u =
      { s.task u with pc := .get a } := by
    unfold State.goto
    rw [task_set_self, task_set_of_ne s _ hut]
  have hfinished : ((s.goto t .finished).goto u (.get a)).task t =
      { s.task t with pc := .finished } := by
    unfold State.goto
    rw [task_set_of_ne _ _ hut.symm, task_set_self]
  have hother : ∀ y, y ≠ u → y ≠ t →
      ((s.goto t .finished).goto u (.get a)).task y = s.task y := by
    intro y hyu hyt
    unfold State.goto
    rw [task_set_of_ne _ _ hyu, task_set_of_ne _ _ hyt]
  have hstarted : ∀ y,
      (((s.goto t .finished).goto u (.get a)).task y).started =
        (s.task y).started := by
    intro y
    rw [apply_task_goto _ Task.started _ (fun _ => rfl) y]
    exact apply_task_goto _ Task.started _ (fun _ => rfl) y
  have hresult : ∀ y,
      (((s.goto t .finished).goto u (.get a)).task y).result =
        (s.task y).result := by
    intro y
    rw [apply_task_goto _ Task.result _ (fun _ => rfl) y]
    exact apply_task_goto _ Task.result _ (fun _ => rfl) y
  constructor
  · exact Task.Ok.goto_all hok hu' nofun rfl rfl rfl
  · have hgoto : Queued (s.goto t .finished) := h.queued.goto hr.2 hne nofun
    have hgoto' : Queued ((s.goto t .finished).goto u (.get a)) :=
      hgoto.goto hu' nofun nofun
    exact hgoto'.of_same rfl fun _ => Iff.rfl
  · have hleave : Working ((s.goto t .finished).work w none) :=
      h.working.leave hr rfl
    refine hleave.enter (w := w) (t := u) (q := .get a) ?_ ?_ rfl rfl ?_
    · exact Function.update_self ..
    · change ((s.goto t .finished).task u).pc.active = false
      rw [hu']
      rfl
    · exact (Function.update_idem ..).symm
  · refine h.linked.unlink howes ?_ ?_ ?_ ?_
    · change (((s.goto t .finished).goto u (.get a)).task u).pc.waitsFor = _
      rw [hself]
      rfl
    · intro y hy
      change (((s.goto t .finished).goto u (.get a)).task y).pc.waitsFor = _
      by_cases hyt : y = t
      · subst hyt
        rw [hfinished, hr.2]
        rfl
      · rw [hother y hy hyt]
    · change (((s.goto t .finished).goto u (.get a)).task t).owes = _
      rw [hfinished]
      exact owes_finished (h.ok t) hr.2
    · intro y hy
      change (((s.goto t .finished).goto u (.get a)).task y).owes = _
      by_cases hyu : y = u
      · subst hyu
        rw [hself]
        have hold : (s.task y).owes = (s.task y).handoff.found := by
          apply owes_of_not_handedOff
          rw [hu]
          rfl
        exact hold.symm
      · rw [hother y hyu hy]
  · intro y
    change State.Ready (((s.goto t .finished).goto u (.get a)).work w (some u))
      (((s.goto t .finished).goto u (.get a)).task y).pc
    by_cases hyu : y = u
    · subst hyu
      rw [hself]
      change (((s.goto t .finished).goto y (.get a)).task
        a.awaited).result.isSome = true
      rw [hresult, hawaited]
      exact hpublished
    · by_cases hyt : y = t
      · subst hyt
        rw [hfinished]
        trivial
      · rw [hother y hyu hyt]
        refine (h.ready y).mono (fun z hz => ?_) fun z hz => ?_
        · exact (hstarted z).trans hz
        · exact (congrArg Option.isSome (hresult z)).trans hz
  · exact (hstarted 0).trans h.root

end Placed

structure Sound (s : State k V E) : Prop extends Placed s where
  owned : Owned s

namespace Sound

variable {s s' : State k V E} {w : Fin k} {t x : ℕ} {p q : Pc V E}

theorem runs_lt_count (h : Sound s) (hr : s.Runs w t p) : t < s.count := by
  apply h.owned.lt_count
  rw [hr.2]
  exact h.runs_ne_initial hr

theorem owns_awaited (h : Sound s) {a : Awaiting V E} (hr : s.Runs w t p)
    (htasks : p.tasks = List.ofFn a.tasks) : s.Owns t a.awaited := by
  apply h.owned.owns_of_pc hr.2
  rw [htasks]
  exact a.awaited_mem

/-- Nobody else registers as the continuation of a task. -/
theorem not_continued (h : Sound s) {a : Awaiting V E} {u : ℕ}
    (hr : s.Runs w t (.setContinuation a))
    (hu : (s.task a.awaited).handoff = .continuation u) : False := by
  have hoff : (s.task a.awaited).pc.handedOff = false := by
    by_contra hnot
    rw [Bool.not_eq_false] at hnot
    cases hu.symm.trans ((h.ok _).handoff.mpr hnot)
  have howes : (s.task a.awaited).owes = some u := by
    rw [Placed.owes_of_not_handedOff hoff, hu]
    rfl
  have hwaits := (h.linked u a.awaited).mpr howes
  have hut : u ≠ t := by
    rintro rfl
    rw [hr.2] at hwaits
    cases hwaits
  cases hpc : (s.task u).pc with
  | suspended b =>
      rw [hpc] at hwaits
      have howns : s.Owns u b.awaited := h.owned.owns_of_pc hpc b.awaited_mem
      rw [Option.some.inj hwaits] at howns
      exact hut (howns.parent.symm.trans (h.owns_awaited hr rfl).parent)
  | _ =>
      rw [hpc] at hwaits
      cases hwaits

/-- The tasks that a step of the program sets up stay owned. -/
theorem owned_next (movedFrom : V → V) (h : Sound s) {a : Action k V E}
    (ha : Enabled s a) : Owned (next movedFrom s a) := by
  have hgoto : ∀ {w : Fin k} {t : ℕ} {p q : Pc V E}, s.Runs w t p →
      q.tasks = p.tasks → Owned (s.goto t q) :=
    fun hr htasks => h.owned.goto hr.2 (h.runs_ne_initial hr) htasks
  have hadvance : ∀ {w : Fin k} {t : ℕ} {p : Pc V E}, s.Runs w t p →
      ∀ r : Task V E, r.parent = (s.task t).parent →
        r.destroyed = (s.task t).destroyed → r.pc.tasks = p.tasks →
          Owned (s.set t r) := by
    intro w t p hr r hparent hdestroyed htasks
    refine h.owned.set (h.runs_lt_count hr) hparent (fun _ _ => hdestroyed) ?_
    rw [hr.2]
    exact htasks
  have hchild : ∀ {t x : ℕ}, s.Owns t x → ∀ r : Task V E,
      r.parent = (s.task x).parent → r.destroyed = (s.task x).destroyed →
        r.pc = (s.task x).pc → Owned (s.set x r) := by
    intro t x hx r hparent hdestroyed hpc
    refine h.owned.set hx.lt_count hparent (fun _ _ => hdestroyed) ?_
    rw [hpc]
  cases a with
  | start =>
      refine (h.owned.set (x := 0) h.owned.pos ?_ ?_ ?_).congr rfl rfl
      · rfl
      · exact fun _ _ => rfl
      · rfl
  | getReturns c =>
      refine (h.owned.set (x := 0) h.owned.pos ?_ ?_ ?_).congr rfl rfl
      · rfl
      · exact fun _ _ => rfl
      · rfl
  | destroyRoot c =>
      refine (h.owned.set (x := 0) h.owned.pos ?_ ?_ ?_).congr rfl rfl
      · rfl
      · exact fun u hu => absurd hu.lt (Nat.not_lt_zero u)
      · rfl
  | resume w t =>
      obtain ⟨hstarted, hpc⟩ := (h.queued.mem t).mp ha.2
      have hlt := h.owned.lt_count_of_started hstarted
      refine (h.owned.set (x := t) hlt ?_ ?_ ?_).congr rfl rfl
      · rfl
      · exact fun _ _ => rfl
      · rw [hpc]
        rfl
  | create w t b child rest tasks =>
      refine h.owned.create (q := .running ⟨_, rest, Fin.cons s.count tasks⟩)
        ha.2 (h.runs_ne_initial ha) ?_ child b rfl rfl
      exact List.ofFn_succ
  | drop w t rest tasks =>
      exact h.owned.release (q := .running ⟨_, rest, Fin.tail tasks⟩) ha.1.2
        (h.runs_ne_initial ha.1) List.ofFn_succ
  | awaitReadyTrue w t a => exact hgoto ha.1 rfl
  | awaitReadyFalse w t a => exact hgoto ha.1 rfl
  | exchangeFirst w t a =>
      have hx := h.owns_awaited ha.1 rfl
      have hset := hchild hx { s.task a.awaited with started := true } rfl rfl
        rfl
      have hschedule : Owned ((s.set a.awaited
          { s.task a.awaited with started := true }).schedule a.awaited) :=
        hset.congr rfl rfl
      exact hschedule.goto (ha.1.set _ hx.ne).2 (h.runs_ne_initial ha.1) rfl
  | exchangeAgain w t a => exact hgoto ha.1 rfl
  | setContinuation w t a =>
      have hx := h.owns_awaited ha.1 rfl
      have hset := hchild hx
        { s.task a.awaited with handoff := .continuation t } rfl rfl rfl
      have hsuspend := hset.goto (q := .suspended a) (ha.1.set _ hx.ne).2
        (h.runs_ne_initial ha.1) rfl
      exact hsuspend.congr rfl rfl
  | continuationTaken w t a u => exact (h.not_continued ha.1 ha.2).elim
  | alreadyReady w t a => exact hgoto ha.1 rfl
  | get w t a c =>
      have hx := h.owns_awaited ha.1 rfl
      have hset : Owned (s.consume movedFrom a.awaited c) :=
        hchild hx _ rfl rfl rfl
      exact hset.goto (ha.1.set _ hx.ne).2 (h.runs_ne_initial ha.1) rfl
  | returnValue w t x tasks => exact hadvance ha _ rfl rfl rfl
  | throwException w t e tasks => exact hgoto ha rfl
  | destroyTask w t c x tasks =>
      exact h.owned.release ha.1.2 (h.runs_ne_initial ha.1) rfl
  | tasksDestroyed w t x => exact hgoto ha rfl
  | unhandledException w t e => exact hadvance ha _ rfl rfl rfl
  | setReady w t => exact hadvance ha _ rfl rfl rfl
  | storeFinal w t u => exact hadvance ha _ rfl rfl rfl
  | transferNoop w t =>
      have hfinish : Owned (s.goto t .finished) := hgoto ha rfl
      exact hfinish.congr rfl rfl
  | transferTo w t u a =>
      have hfinish : Owned (s.goto t .finished) := hgoto ha.1 rfl
      have hut : u ≠ t := by
        rintro rfl
        cases ha.2.symm.trans ha.1.2
      have hu : ((s.goto t .finished).task u).pc = .suspended a :=
        (congrArg Task.pc (task_set_of_ne s _ hut)).trans ha.2
      have hresume := hfinish.goto (q := .get a) hu nofun rfl
      exact hresume.congr rfl rfl

theorem placed_next (movedFrom : V → V) (h : Sound s) {a : Action k V E}
    (ha : Enabled s a) : Placed (next movedFrom s a) := by
  have howes : ∀ {t : ℕ} {p : Pc V E}, (s.task t).pc = p →
      p.handedOff = false → (s.task t).owes = (s.task t).handoff.found := by
    rintro t p rfl hp
    exact Placed.owes_of_not_handedOff hp
  cases a with
  | start =>
      have hmain : s.main = .start := ha
      refine h.start (x := 0) rfl ?_ rfl rfl rfl ?_
      · rw [h.root, hmain]
        rfl
      · exact congrArg Task.started (task_set_self s _)
  | getReturns c =>
      have hresult : (s.task 0).result.isSome = true := by
        rw [ha.2]
        rfl
      refine (h.consume movedFrom c hresult).congr rfl rfl rfl ?_
      change true = s.main.started
      rw [ha.1]
      rfl
  | destroyRoot c =>
      refine (h.destroy 0).congr rfl rfl rfl ?_
      change true = s.main.started
      rw [ha.1]
      rfl
  | resume w t => exact h.resume ha.1 ha.2 _ rfl rfl rfl rfl
  | create w t b child rest tasks =>
      have hlt := h.runs_lt_count ha
      exact h.create (q := .running ⟨_, rest, Fin.cons s.count tasks⟩)
        (h.owned.unused _ (Nat.le_refl _)) h.owned.pos ha (Nat.ne_of_lt hlt)
        child b rfl rfl rfl rfl (fun _ => trivial) rfl rfl rfl rfl
  | drop w t rest tasks =>
      have hx : s.Owns t (tasks 0) := by
        apply h.owned.owns_of_pc ha.1.2
        exact List.mem_ofFn.mpr ⟨0, rfl⟩
      exact (h.destroy _).goto (ha.1.set _ hx.ne) rfl rfl rfl rfl trivial
  | awaitReadyTrue w t a => exact h.goto ha.1 rfl rfl rfl rfl ha.2
  | awaitReadyFalse w t a => exact h.goto ha.1 rfl rfl rfl rfl trivial
  | exchangeFirst w t a =>
      have hx := h.owns_awaited ha.1 rfl
      have hstart : Placed ((s.set a.awaited
          { s.task a.awaited with started := true }).schedule a.awaited) := by
        refine h.start rfl ha.2 rfl rfl rfl ?_
        refine Eq.trans ?_ h.root
        exact congrArg Task.started (task_set_of_ne s _
          (Nat.ne_of_lt (Nat.zero_lt_of_lt hx.lt)))
      refine hstart.goto (ha.1.set _ hx.ne) rfl rfl rfl rfl ?_
      exact congrArg Task.started (task_set_self s _)
  | exchangeAgain w t a => exact h.goto ha.1 rfl rfl rfl rfl ha.2
  | setContinuation w t a =>
      exact h.suspend ha.1 (h.owns_awaited ha.1 rfl).ne ha.2 rfl rfl rfl rfl
        rfl
  | continuationTaken w t a u => exact (h.not_continued ha.1 ha.2).elim
  | alreadyReady w t a =>
      refine h.goto ha.1 rfl rfl rfl rfl ?_
      have hoff := (h.ok a.awaited).handoff.mp ha.2
      change (s.task a.awaited).result.isSome = true
      rw [(h.ok a.awaited).result]
      cases hpc : (s.task a.awaited).pc <;> rw [hpc] at hoff <;>
        first | rfl | cases hoff
  | get w t a c =>
      have hx := h.owns_awaited ha.1 rfl
      have hresult : (s.task a.awaited).result.isSome = true := by
        rw [ha.2]
        rfl
      exact (h.consume movedFrom c hresult).goto (ha.1.set _ hx.ne) rfl rfl
        rfl rfl trivial
  | returnValue w t x tasks =>
      refine h.advance ha rfl rfl (howes ha.2 rfl).symm ?_ (fun _ => rfl)
        trivial
      exact Placed.ok_publish (h.ok t) ha.2 nofun rfl rfl rfl _
  | throwException w t e tasks => exact h.goto ha rfl rfl rfl rfl trivial
  | destroyTask w t c x tasks =>
      have hx : s.Owns t x :=
        h.owned.owns_of_pc ha.1.2 List.mem_cons_self
      refine (h.destroy x).goto (ha.1.set _ hx.ne) rfl ?_ rfl rfl trivial
      cases c <;> rfl
  | tasksDestroyed w t x => exact h.goto ha rfl rfl rfl rfl trivial
  | unhandledException w t e =>
      refine h.advance ha rfl rfl (howes ha.2 rfl).symm ?_ (fun _ => rfl)
        trivial
      exact Placed.ok_publish (h.ok t) ha.2 nofun rfl rfl rfl _
  | setReady w t =>
      obtain ⟨hresult, -, hfinal, -, -⟩ := h.ok t
      rw [show (s.task t).pc = _ from ha.2] at hresult hfinal
      refine h.advance ha rfl rfl (howes ha.2 rfl).symm ?_ id trivial
      refine ⟨hresult, ?_, hfinal, fun _ => h.runs_started ha, fun _ _ =>
        h.runs_started ha⟩
      exact ⟨fun _ => rfl, fun _ => rfl⟩
  | storeFinal w t u =>
      obtain ⟨hresult, hhandoff, -, -, -⟩ := h.ok t
      rw [show (s.task t).pc = _ from ha.2] at hresult hhandoff
      refine h.advance ha rfl rfl ?_ ?_ id trivial
      · unfold Task.owes
        rw [show (s.task t).pc = _ from ha.2]
      · exact ⟨hresult, hhandoff, rfl, fun _ => h.runs_started ha,
          fun _ _ => h.runs_started ha⟩
  | transferNoop w t => exact h.finish ha
  | transferTo w t u a => exact h.transfer ha.1 ha.2

theorem next (movedFrom : V → V) (h : Sound s) {a : Action k V E}
    (ha : Enabled s a) : Sound (CoAwait.next movedFrom s a) :=
  ⟨h.placed_next movedFrom ha, h.owned_next movedFrom ha⟩

end Sound

theorem sound_initialState (k : ℕ) (root : Body V E 0) :
    Sound (initialState k root) where
  ok _ := ok_newTask 0 root false
  queued := ⟨fun _ => ⟨nofun, nofun⟩, List.nodup_nil⟩
  working := ⟨nofun, nofun, nofun⟩
  linked _ _ := ⟨nofun, nofun⟩
  ready _ := trivial
  root := rfl
  owned := ⟨Nat.one_pos, fun _ _ => unused_newTask 0 root, nofun,
    fun _ => List.nodup_nil⟩

theorem sound_reachable {movedFrom : V → V} {root : Body V E 0}
    {s : State k V E} (hs : (system movedFrom k root).Reachable s) :
    Sound s := by
  refine hs.invariant Sound ?_ fun s a h ha => h.next movedFrom ha
  rintro s rfl
  exact sound_initialState k root

end CoAwait
end Ethreads
