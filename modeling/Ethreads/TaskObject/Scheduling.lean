import Ethreads.TaskObject.Owners

/-!
# Scheduled frames

The agents rely on what they have read of the `started` flag and of
`final_suspend_reached`.  A frame that has begun to run was scheduled, and the
frame of a task that was not started never was.  If the frame of a started
task was not scheduled yet, the agent that starts the task is about to.
-/

namespace Ethreads
namespace TaskObject

variable {τ O F : Type*}

section Steps

variable [DecidableEq τ] [DecidableEq O] [DecidableEq F]
  {s s' : State τ O F} {a : Action τ O F}

/-! ## Agents on their objects -/

/-- The agents work on live objects, and a destructor has its object for
itself. -/
structure Engaged (s : State τ O F) : Prop where
  alive : ∀ {t x}, (s.pc t).object = some x → s.alive x = true
  alone : ∀ {t u x}, (s.pc t).object = some x → (s.pc t).destructs = true →
    (s.pc u).object = some x → u = t

omit [DecidableEq O] [DecidableEq F] in
theorem Engaged.goto (h : Engaged s) {t : τ} {q : Pc O}
    (hpc : s'.pc = Function.update s.pc t q)
    (halive : ∀ x u, (s.pc u).object = some x → u = t ∨ s'.alive x = true)
    (hq : ∀ x, q.object = some x → s'.alive x = true)
    (hdestructs : ∀ x u, q.object = some x → q.destructs = true →
      (s.pc u).object = some x → u = t)
    (hjoins : ∀ x u, q.object = some x → (s.pc u).object = some x →
      (s.pc u).destructs = true → u = t) : Engaged s' := by
  constructor
  · intro u x hu
    rw [hpc, Function.update_apply] at hu
    split at hu
    · exact hq x hu
    · rename_i hut
      exact (halive x u hu).resolve_left hut
  · intro u v x hu hd hv
    rw [hpc, Function.update_apply] at hu hd hv
    split at hu <;> rename_i hut
    · rw [if_pos hut] at hd
      split at hv <;> rename_i hvt
      · rw [hut, hvt]
      · exact absurd (hdestructs x v hu hd hv) hvt
    · rw [if_neg hut] at hd
      split at hv
      · exact absurd (hjoins x u hv hu hd) hut
      · exact h.alone hu hd hv

omit [DecidableEq O] [DecidableEq F] in
theorem Engaged.stay (h : Engaged s) {t : τ} {p q : Pc O} (ht : s.pc t = p)
    (hpc : s'.pc = Function.update s.pc t q) (halive : s'.alive = s.alive)
    (hobject : q.object = none ∨ q.object = p.object)
    (hdestructs : q.destructs = true → p.destructs = true) : Engaged s' := by
  have hsame : ∀ x, q.object = some x → (s.pc t).object = some x := by
    intro x hx
    rcases hobject with hnone | heq
    · rw [hnone] at hx
      exact absurd hx (by simp)
    · rw [ht, ← heq]
      exact hx
  refine h.goto hpc ?_ ?_ ?_ ?_
  · intro x u hu
    rw [halive]
    exact .inr (h.alive hu)
  · intro x hx
    rw [halive]
    exact h.alive (hsame x hx)
  · intro x u hx hd hu
    exact h.alone (hsame x hx) (by rw [ht]; exact hdestructs hd) hu
  · intro x u hx hu hd
    exact (h.alone hu hd (hsame x hx)).symm

omit [DecidableEq O] [DecidableEq F] in
theorem Engaged.enter (h : Engaged s) {t : τ} {x : O} {q : Pc O}
    (hx : s.Callable x) (hpc : s'.pc = Function.update s.pc t q)
    (halive : s'.alive = s.alive) (hobject : q.object = some x)
    (hdestructs : q.destructs = false) : Engaged s' := by
  refine h.goto hpc ?_ ?_ ?_ ?_
  · intro y u hu
    rw [halive]
    exact .inr (h.alive hu)
  · intro y hy
    rw [hobject, Option.some.injEq] at hy
    rw [halive, ← hy]
    exact hx.1
  · intro y u _ hd
    rw [hdestructs] at hd
    exact absurd hd (by simp)
  · intro y u hy hu hd
    rw [hobject, Option.some.injEq] at hy
    rw [hx.2 u (by rw [hy]; exact hu)] at hd
    exact absurd hd (by simp)

omit [DecidableEq F] in
theorem Engaged.leave (h : Engaged s) {t : τ} {x : O}
    (hobject : (s.pc t).object = some x) (hd : (s.pc t).destructs = true)
    (hpc : s'.pc = Function.update s.pc t .idle)
    (halive : s'.alive = Function.update s.alive x false) : Engaged s' := by
  refine h.goto hpc ?_ nofun nofun nofun
  intro y u hu
  by_cases hyx : y = x
  · left
    exact h.alone hobject hd (by rw [hu, hyx])
  · right
    rw [halive, Function.update_of_ne hyx]
    exact h.alive hu

omit [DecidableEq τ] [DecidableEq O] [DecidableEq F] in
theorem Engaged.of_same (h : Engaged s) (hpc : s'.pc = s.pc)
    (halive : s'.alive = s.alive) : Engaged s' := by
  constructor
  · rw [hpc, halive]
    exact h.alive
  · rw [hpc]
    exact h.alone

omit [DecidableEq τ] [DecidableEq F] in
theorem Engaged.revive (h : Engaged s) {x : O} (hpc : s'.pc = s.pc)
    (halive : s'.alive = Function.update s.alive x true) : Engaged s' := by
  constructor
  · intro t y hy
    rw [hpc] at hy
    by_cases hyx : y = x
    · rw [halive, hyx, Function.update_self]
    · rw [halive, Function.update_of_ne hyx]
      exact h.alive hy
  · rw [hpc]
    exact h.alone

theorem Engaged.next (h : Engaged s) (ha : Enabled s a) :
    Engaged (next s a) := by
  cases a with
  | create x f => exact h.revive rfl rfl
  | moveConstruct x y => exact h.revive rfl rfl
  | moveAssign x y =>
      refine h.of_same ?_ ?_ <;> cases hx : s.handle x <;>
        simp [TaskObject.next, hx, State.destroyFrame, State.takeFrom]
  | callStart t x => exact h.enter ha.2 rfl rfl rfl rfl
  | callGet t x => exact h.enter ha.2.1 rfl rfl rfl rfl
  | coAwait t x => exact h.enter ha.2.1 rfl rfl rfl rfl
  | destruct t x =>
      obtain ⟨-, halive, hunused⟩ := ha
      refine h.goto rfl (fun y u hu => .inr (h.alive hu)) ?_ ?_ ?_
      · rintro y ⟨⟩
        exact halive
      · rintro y u ⟨⟩ - hu
        exact absurd hu (hunused u)
      · rintro y u ⟨⟩ hu
        exact absurd hu (hunused u)
  | withoutFrame t x =>
      exact h.leave (by rw [ha.1]; rfl) (by rw [ha.1]; rfl) rfl rfl
  | destroy t x f =>
      exact h.leave (by rw [ha.1]; rfl) (by rw [ha.1]; rfl) rfl rfl
  | resume f | suspend f | wake f | complete f | publish f =>
      exact h.of_same rfl rfl
  | startAgain t x p | skipSchedule t x p | schedule t x p f =>
      cases p <;> exact h.stay ha.1 rfl rfl (by simp [afterStart, Pc.object])
        (by simp [afterStart, Pc.destructs])
  | _ =>
      exact h.stay ha.1 rfl rfl (by simp [Pc.object]) (by simp [Pc.destructs])

theorem engaged_of_reachable (hs : (system τ O F).Reachable s) :
    Engaged s := by
  refine hs.invariant Engaged ?_ fun s a h ha => h.next ha
  rintro s rfl
  exact ⟨nofun, nofun⟩

/-! ## The started flag -/

/-- What an agent may rely on about its object. -/
def Pc.Relies (s : State τ O F) : Pc O → Prop
  | .checkDone x _ | .schedule x _ => s.started x = true
  | .destroy x => s.started x = false ∨ s.isFinal x = true
  | _ => True

/-- Every agent may rely on what it read. -/
def Relying (s : State τ O F) : Prop :=
  ∀ t, (s.pc t).Relies s

omit [DecidableEq τ] [DecidableEq O] [DecidableEq F] in
theorem Pc.Relies.of_object {p : Pc O} (h : p.Relies s)
    (hstarted : ∀ x, p.object = some x → s'.started x = s.started x ∨
      s'.started x = true ∧ p.destructs = false)
    (hfinal : ∀ x, p.object = some x → s.isFinal x = true →
      s'.isFinal x = true) : p.Relies s' := by
  cases p with
  | checkDone x p | schedule x p =>
      rcases hstarted x rfl with heq | ⟨htrue, -⟩
      · exact heq.trans h
      · exact htrue
  | destroy x =>
      rcases hstarted x rfl with heq | ⟨-, hd⟩
      · exact h.imp heq.trans (hfinal x rfl)
      · exact absurd hd (by simp [Pc.destructs])
  | _ => trivial

omit [DecidableEq O] [DecidableEq F] in
theorem relies_goto (h : Relying s) {t : τ} {q : Pc O}
    (hpc : s'.pc = Function.update s.pc t q) (hq : q.Relies s')
    (hstarted : ∀ u x, u ≠ t → (s.pc u).object = some x →
      s'.started x = s.started x ∨
        s'.started x = true ∧ (s.pc u).destructs = false)
    (hfinal : ∀ u x, u ≠ t → (s.pc u).object = some x →
      s.isFinal x = true → s'.isFinal x = true) :
    Relying s' := by
  intro u
  rw [hpc, Function.update_apply]
  split <;> rename_i hut
  · exact hq
  · exact (h u).of_object (fun x => hstarted u x hut)
      fun x => hfinal u x hut

omit [DecidableEq O] [DecidableEq F] in
theorem relies_stay (h : Relying s) {t : τ} {q : Pc O}
    (hpc : s'.pc = Function.update s.pc t q) (hq : q.Relies s')
    (hstarted : s'.started = s.started) (hstate : s'.state = s.state)
    (hfinal : s'.finalSuspendReached = s.finalSuspendReached) :
    Relying s' := by
  refine relies_goto h hpc hq ?_ ?_
  · intro v x _ _
    rw [hstarted]
    exact .inl rfl
  · intro v x _ _ hx
    rw [State.isFinal, hstate, hfinal]
    exact hx

omit [DecidableEq F] in
theorem relies_setStarted (he : Engaged s) (h : Relying s)
    {t : τ} {x : O} {q : Pc O} (hobject : (s.pc t).object = some x)
    (hq : q.Relies ((s.goto t q).setStarted x)) :
    Relying ((s.goto t q).setStarted x) := by
  refine relies_goto h (t := t) (q := q) rfl hq ?_ fun _ _ _ _ hx => hx
  intro v y hvt hy
  by_cases hyx : y = x
  · right
    constructor
    · simp [State.setStarted, hyx]
    · by_contra hdv
      have htv := he.alone hy (by simpa using hdv) (by rw [hobject, hyx])
      exact hvt htv.symm
  · left
    simp [State.setStarted, State.goto, hyx]

omit [DecidableEq O] [DecidableEq F] in
theorem relies_leave (he : Engaged s) (h : Relying s) {t : τ} {x : O}
    (hobject : (s.pc t).object = some x) (hd : (s.pc t).destructs = true)
    (hpc : s'.pc = Function.update s.pc t .idle)
    (hstarted : s'.started = s.started)
    (hstate : ∀ y, y ≠ x → s'.state y = s.state y)
    (hfinal : s'.finalSuspendReached = s.finalSuspendReached) :
    Relying s' := by
  refine relies_goto h hpc trivial ?_ ?_
  · intro u y _ _
    rw [hstarted]
    exact .inl rfl
  · intro u y hut hy hfin
    have hyx : y ≠ x := by
      rintro rfl
      exact hut (he.alone hobject hd hy)
    rw [State.isFinal, hstate y hyx, hfinal]
    exact hfin

omit [DecidableEq τ] [DecidableEq O] [DecidableEq F] in
theorem relies_of_unused (h : Relying s) (x y : O)
    (hx : s.Unused x) (hy : s.Unused y) (hpc : s'.pc = s.pc)
    (hstarted : ∀ z, z ≠ x → z ≠ y → s'.started z = s.started z)
    (hstate : ∀ z, z ≠ x → z ≠ y → s'.state z = s.state z)
    (hfinal : s'.finalSuspendReached = s.finalSuspendReached) :
    Relying s' := by
  intro u
  have hne : ∀ z, (s.pc u).object = some z → z ≠ x ∧ z ≠ y := by
    intro z hz
    constructor
    · rintro rfl
      exact hx u hz
    · rintro rfl
      exact hy u hz
  rw [hpc]
  refine (h u).of_object ?_ ?_
  · intro z hz
    exact .inl (hstarted z (hne z hz).1 (hne z hz).2)
  · intro z hz hfin
    rw [State.isFinal, hstate z (hne z hz).1 (hne z hz).2, hfinal]
    exact hfin

omit [DecidableEq τ] [DecidableEq O] [DecidableEq F] in
theorem Engaged.unused_of_dead (he : Engaged s) {x : O}
    (hx : s.alive x = false) : s.Unused x := by
  intro t ht
  exact absurd ((he.alive ht).symm.trans hx) (by simp)

theorem relies_next (he : Engaged s) (h : Relying s)
    (ha : Enabled s a) : Relying (next s a) := by
  have hafter : ∀ (x : O) (p : CoroTask.Purpose) (s' : State τ O F),
      (afterStart x p).Relies s' := by
    intro x p s'
    cases p <;> trivial
  cases a with
  | create x f =>
      have hx := he.unused_of_dead ha.1
      refine relies_of_unused h x x hx hx rfl ?_ ?_ rfl <;>
        intro z hz _ <;> simp [next, State.frameTo, hz]
  | moveConstruct x y =>
      refine relies_of_unused h x y (he.unused_of_dead ha.1) ha.2.2.2 rfl ?_ ?_
        rfl <;> intro z hzx hzy <;> simp [next, State.takeFrom, hzx, hzy]
  | moveAssign x y =>
      refine relies_of_unused h x y ha.2.2.2.2.1 ha.2.2.2.2.2 ?_ ?_ ?_ ?_
      · cases hx : s.handle x <;>
          simp [next, hx, State.destroyFrame, State.takeFrom]
      · intro z hzx hzy
        cases hx : s.handle x <;>
          simp [next, hx, State.destroyFrame, State.takeFrom, hzx]
      · intro z hzx hzy
        cases hx : s.handle x <;>
          simp [next, hx, State.destroyFrame, State.takeFrom, hzx, hzy]
      · cases hx : s.handle x <;>
          simp [next, hx, State.destroyFrame, State.takeFrom]
  | startFirst t x p =>
      refine relies_setStarted he h (by rw [ha.1]; rfl) ?_
      simp [Pc.Relies, State.setStarted]
  | exchangeFirst t x =>
      refine relies_setStarted he h (by rw [ha.1]; rfl) ?_
      simp [Pc.Relies, State.setStarted]
  | notDone t x p =>
      have hx := h t
      rw [ha.1] at hx
      exact relies_stay h rfl hx rfl rfl rfl
  | foundUnstarted t x => exact relies_stay h rfl (.inl ha.2.2) rfl rfl rfl
  | foundFinal t x => exact relies_stay h rfl (.inr ha.2) rfl rfl rfl
  | withoutFrame t x =>
      refine relies_leave he h (t := t) (x := x) (by rw [ha.1]; rfl)
        (by rw [ha.1]; rfl) rfl rfl ?_ rfl
      intro y hy
      exact Function.update_of_ne hy _ _
  | destroy t x f =>
      refine relies_leave he h (t := t) (x := x) (by rw [ha.1]; rfl)
        (by rw [ha.1]; rfl) rfl rfl ?_ rfl
      intro y hy
      exact Function.update_of_ne hy _ _
  | publish f =>
      intro u
      refine (h u).of_object (fun _ _ => .inl rfl) ?_
      intro x _ hx
      obtain ⟨e, hxe, he⟩ := (Option.any_eq_true _ _).mp hx
      refine (Option.any_eq_true _ _).mpr ⟨e, hxe, ?_⟩
      by_cases hef : e = f
      · simp [next, hef]
      · simpa [next, hef] using he
  | resume f | suspend f | wake f | complete f =>
      exact fun u => (h u).of_object (fun _ _ => .inl rfl) fun _ _ hx => hx
  | startAgain t x p | skipSchedule t x p | schedule t x p f =>
      exact relies_stay h rfl (hafter x p _) rfl rfl rfl
  | _ => exact relies_stay h rfl trivial rfl rfl rfl

theorem relies_of_reachable (hs : (system τ O F).Reachable s) :
    Relying s := by
  refine hs.invariant_of Relying (fun s hs => engaged_of_reachable hs) ?_
    fun s a he h ha => relies_next he h ha
  rintro s rfl u
  trivial

/-! ## Scheduled frames -/

/-- The agent has set `started_` and is going to schedule the frame. -/
def Pc.starts : Pc O → Bool
  | .checkDone _ _ | .schedule _ _ => true
  | _ => false

/-- The frame of a task is scheduled by the agent that starts the task, and
runs only after that. -/
structure Counted (s : State τ O F) : Prop where
  absent : ∀ {f}, s.frame f = .absent → s.scheduled f = 0
  begun : ∀ {f}, s.frame f ≠ .absent → s.frame f ≠ .initial →
    0 < s.scheduled f
  unstarted : ∀ {x f}, s.handle x = some f → s.started x = false →
    s.scheduled f = 0
  pending : ∀ {x f}, s.handle x = some f → s.started x = true →
    s.scheduled f = 0 →
      ∃ t, (s.pc t).object = some x ∧ (s.pc t).starts = true

omit [DecidableEq τ] [DecidableEq O] [DecidableEq F] in
/-- Frames are only handed over while their tasks are not started. -/
theorem Counted.of_owners (h : Counted s) (hframe : s'.frame = s.frame)
    (hscheduled : s'.scheduled = s.scheduled)
    (howner : ∀ x f, s'.handle x = some f →
      (s.handle x = some f ∧ s'.started x = s.started x) ∨
        (s'.started x = false ∧
          ∃ y, s.handle y = some f ∧ s.started y = false))
    (hpc : ∀ t, (s.pc t).starts = true → (s'.pc t).starts = true ∧
      (s'.pc t).object = (s.pc t).object) : Counted s' := by
  constructor
  · rw [hframe, hscheduled]
    exact h.absent
  · rw [hframe, hscheduled]
    exact h.begun
  · intro x f hx hstarted
    rw [hscheduled]
    rcases howner x f hx with ⟨hx, heq⟩ | ⟨-, y, hy, hunstarted⟩
    · exact h.unstarted hx (heq ▸ hstarted)
    · exact h.unstarted hy hunstarted
  · intro x f hx hstarted hzero
    rw [hscheduled] at hzero
    rcases howner x f hx with ⟨hx, heq⟩ | ⟨hfalse, -⟩
    · obtain ⟨t, hobject, ht⟩ := h.pending hx (heq ▸ hstarted) hzero
      obtain ⟨ht', hobject'⟩ := hpc t ht
      exact ⟨t, hobject'.trans hobject, ht'⟩
    · exact absurd (hfalse.symm.trans hstarted) (by simp)

omit [DecidableEq O] [DecidableEq F] in
theorem Counted.stay (h : Counted s) {t : τ} {p q : Pc O} (ht : s.pc t = p)
    (hpc : s'.pc = Function.update s.pc t q)
    (hhandle : s'.handle = s.handle) (hstarted : s'.started = s.started)
    (hframe : s'.frame = s.frame) (hscheduled : s'.scheduled = s.scheduled)
    (hstarts : p.starts = true → q.starts = true ∧ q.object = p.object) :
    Counted s' := by
  refine h.of_owners hframe hscheduled ?_ ?_
  · intro x f hx
    rw [hhandle] at hx
    exact .inl ⟨hx, congrFun hstarted x⟩
  · intro u hu
    rw [hpc, Function.update_apply]
    split <;> rename_i hut
    · subst hut
      rw [ht] at hu ⊢
      exact hstarts hu
    · exact ⟨hu, rfl⟩

omit [DecidableEq F] in
theorem Counted.setStarted (h : Counted s) {t : τ} {x : O} {q : Pc O}
    (ht : (s.pc t).starts = false) (hobject : q.object = some x)
    (hq : q.starts = true) : Counted ((s.goto t q).setStarted x) := by
  have hold : ∀ {y : O}, y ≠ x →
      ((s.goto t q).setStarted x).started y = s.started y :=
    fun hyx => Function.update_of_ne hyx _ _
  have hself : ((s.goto t q).setStarted x).started x = true :=
    Function.update_self ..
  refine ⟨h.absent, h.begun, ?_, ?_⟩
  · intro y f hy hstarted
    have hyx : y ≠ x := by
      rintro rfl
      exact absurd (hself.symm.trans hstarted) (by simp)
    exact h.unstarted hy ((hold hyx).symm.trans hstarted)
  · intro y f hy hstarted hzero
    by_cases hyx : y = x
    · refine ⟨t, ?_, ?_⟩ <;> simp [State.setStarted, State.goto, *]
    · obtain ⟨u, hu, hstarts⟩ :=
        h.pending hy ((hold hyx).symm.trans hstarted) hzero
      have hut : u ≠ t := by
        rintro rfl
        exact absurd (ht.symm.trans hstarts) (by simp)
      have hpc : ((s.goto t q).setStarted x).pc u = s.pc u :=
        Function.update_of_ne hut _ _
      exact ⟨u, by rw [hpc, hu], by rw [hpc, hstarts]⟩

omit [DecidableEq τ] [DecidableEq O] in
theorem Counted.frameTo (h : Counted s) {f : F} {q : FramePc}
    (hf : 0 < s.scheduled f) (hq : q ≠ .absent) :
    Counted (s.frameTo f q) := by
  refine ⟨?_, ?_, h.unstarted, h.pending⟩
  · intro e he
    by_cases hef : e = f
    · exact absurd he (by simpa [State.frameTo, hef] using hq)
    · exact h.absent (by simpa [State.frameTo, hef] using he)
  · intro e he hinitial
    by_cases hef : e = f
    · exact hef ▸ hf
    · exact h.begun (by simpa [State.frameTo, hef] using he)
        (by simpa [State.frameTo, hef] using hinitial)

theorem Counted.create (h : Counted s) {x : O} {f : F}
    (habsent : s.frame f = .absent) :
    Counted (TaskObject.next s (.create x f)) := by
  constructor
  · intro e he
    by_cases hef : e = f
    · exact absurd he (by simp [TaskObject.next, State.frameTo, hef])
    · exact h.absent (by simpa [TaskObject.next, State.frameTo, hef] using he)
  · intro e he hinitial
    by_cases hef : e = f
    · exact absurd hinitial (by simp [TaskObject.next, State.frameTo, hef])
    · exact h.begun (by simpa [TaskObject.next, State.frameTo, hef] using he)
        (by simpa [TaskObject.next, State.frameTo, hef] using hinitial)
  · intro y e hy hstarted
    by_cases hyx : y = x
    · have hef : f = e := by simpa [TaskObject.next, hyx] using hy
      exact h.absent (hef ▸ habsent)
    · exact h.unstarted (x := y) (by simpa [TaskObject.next, hyx] using hy)
        (by simpa [TaskObject.next, hyx] using hstarted)
  · intro y e hy hstarted hzero
    by_cases hyx : y = x
    · exact absurd hstarted (by simp [TaskObject.next, hyx])
    · exact h.pending (x := y) (by simpa [TaskObject.next, hyx] using hy)
        (by simpa [TaskObject.next, hyx] using hstarted) hzero

omit [DecidableEq O] [DecidableEq F] in
/-- An agent leaves a task without scheduling it: its frame had ended. -/
theorem Counted.skipSchedule (h : Counted s) {t : τ} {x : O}
    {p : CoroTask.Purpose} (ha : Enabled s (.skipSchedule t x p)) :
    Counted (s.goto t (afterStart x p)) := by
  refine ⟨h.absent, h.begun, h.unstarted, ?_⟩
  intro y f hy hstarted hzero
  obtain ⟨u, hu, hstarts⟩ := h.pending hy hstarted hzero
  have hut : u ≠ t := by
    rintro rfl
    rw [ha.1] at hu
    obtain rfl : x = y := Option.some.inj hu
    rcases ha.2 with hnone | hdone
    · exact absurd (hnone.symm.trans hy) (by simp)
    · have hdone : (s.frame f).isDone = true := by
        rw [State.isDone, show s.handle x = some f from hy] at hdone
        exact hdone
      have hpos : 0 < s.scheduled f := by
        refine h.begun ?_ ?_ <;> intro hf <;>
          simp [hf, FramePc.isDone] at hdone
      exact hpos.ne' hzero
  have hpc : (s.goto t (afterStart x p)).pc u = s.pc u :=
    Function.update_of_ne hut _ _
  exact ⟨u, by rw [hpc, hu], by rw [hpc, hstarts]⟩

theorem Counted.schedule (h : Counted s) (ho : Owned s) (hr : Relying s)
    {t : τ} {x : O} {p : CoroTask.Purpose} {f : F}
    (ha : Enabled s (.schedule t x p f)) :
    Counted (TaskObject.next s (.schedule t x p f)) := by
  have hle : ∀ e, s.scheduled e ≤
      (TaskObject.next s (.schedule t x p f)).scheduled e := by
    intro e
    by_cases hef : e = f <;> simp [TaskObject.next, hef]
  have hsame : ∀ {e}, e ≠ f →
      (TaskObject.next s (.schedule t x p f)).scheduled e = s.scheduled e :=
    fun hef => Function.update_of_ne hef _ _
  have hstarted : s.started x = true := by
    have hx := hr t
    rw [ha.1] at hx
    exact hx
  have hne : ∀ {e}, s.frame e = .absent → e ≠ f := by
    rintro e he rfl
    exact ho.created ha.2 he
  constructor
  · intro e he
    rw [hsame (hne he)]
    exact h.absent he
  · intro e he hinitial
    exact (h.begun he hinitial).trans_le (hle e)
  · intro y e hy hunstarted
    rw [hsame]
    · exact h.unstarted hy hunstarted
    · rintro rfl
      obtain rfl := ho.unique hy ha.2
      exact absurd (hunstarted.symm.trans hstarted) (by simp)
  · intro y e hy hystarted hzero
    have hef : e ≠ f := by
      rintro rfl
      simp [TaskObject.next] at hzero
    rw [hsame hef] at hzero
    obtain ⟨u, hu, hstarts⟩ := h.pending hy hystarted hzero
    have hut : u ≠ t := by
      rintro rfl
      rw [ha.1] at hu
      obtain rfl : x = y := Option.some.inj hu
      exact hef (Option.some.inj (hy.symm.trans ha.2))
    have hpc : (TaskObject.next s (.schedule t x p f)).pc u = s.pc u :=
      Function.update_of_ne hut _ _
    exact ⟨u, by rw [hpc, hu], by rw [hpc, hstarts]⟩

omit [DecidableEq τ] [DecidableEq F] in
theorem Counted.takeFrom (h : Counted s) {x y : O} (hxy : x ≠ y)
    (hy : s.started y = false) : Counted (s.takeFrom x y) := by
  refine h.of_owners rfl rfl ?_ fun _ ht => ⟨ht, rfl⟩
  intro z f hz
  have hzy : z ≠ y := by
    rintro rfl
    simp [State.takeFrom] at hz
  by_cases hzx : z = x
  · right
    simp only [State.takeFrom, hzx, Function.update_of_ne hxy,
      Function.update_self] at hz ⊢
    exact ⟨hy, y, hz, hy⟩
  · left
    simp only [State.takeFrom, Function.update_of_ne hzy,
      Function.update_of_ne hzx] at hz ⊢
    exact ⟨hz, trivial⟩

omit [DecidableEq F] in
theorem Counted.leave (h : Counted s) {t : τ} {x : O}
    (hd : (s.pc t).destructs = true)
    (hpc : s'.pc = Function.update s.pc t .idle)
    (hhandle : s'.handle = Function.update s.handle x none)
    (hstarted : s'.started = s.started) (hframe : s'.frame = s.frame)
    (hscheduled : s'.scheduled = s.scheduled) : Counted s' := by
  refine h.of_owners hframe hscheduled ?_ ?_
  · intro y f hy
    have hyx : y ≠ x := by
      rintro rfl
      simp [hhandle] at hy
    rw [hhandle, Function.update_of_ne hyx] at hy
    exact .inl ⟨hy, congrFun hstarted y⟩
  · intro u hu
    have hut : u ≠ t := by
      rintro rfl
      revert hu hd
      cases s.pc u <;> simp [Pc.starts, Pc.destructs]
    rw [hpc, Function.update_of_ne hut]
    exact ⟨hu, rfl⟩

theorem Counted.next (h : Counted s) (ho : Owned s) (hr : Relying s)
    (ha : Enabled s a) : Counted (next s a) := by
  cases a with
  | create x f => exact h.create ha.2
  | startFirst t x p =>
      exact h.setStarted (by rw [ha.1]; rfl) rfl rfl
  | exchangeFirst t x =>
      exact h.setStarted (by rw [ha.1]; rfl) rfl rfl
  | skipSchedule t x p => exact h.skipSchedule ha
  | schedule t x p f => exact h.schedule ho hr ha
  | moveConstruct x y =>
      have hxy : x ≠ y := by
        rintro rfl
        exact absurd (ha.1.symm.trans ha.2.1) (by simp)
      have htake := h.takeFrom hxy ha.2.2.1
      exact ⟨htake.absent, htake.begun, htake.unstarted, htake.pending⟩
  | moveAssign x y =>
      have htake := h.takeFrom ha.2.2.1 ha.2.2.2.1
      cases hx : s.handle x <;> simp only [TaskObject.next, hx] <;>
        exact ⟨htake.absent, htake.begun, htake.unstarted, htake.pending⟩
  | withoutFrame t x | destroy t x f =>
      exact h.leave (t := t) (by rw [ha.1]; rfl) rfl rfl rfl rfl rfl
  | resume f => exact h.frameTo ha.2 (by simp)
  | suspend f | wake f =>
      have ha : s.frame f = _ := ha
      exact h.frameTo (h.begun (by simp [ha]) (by simp [ha])) (by simp)
  | complete f =>
      have ha : s.frame f = .running := ha
      have hf := h.frameTo (f := f) (q := .finalSuspend)
        (h.begun (by simp [ha]) (by simp [ha])) (by simp)
      exact ⟨hf.absent, hf.begun, hf.unstarted, hf.pending⟩
  | publish f =>
      have ha : s.frame f = .finalSuspend := ha
      have hf := h.frameTo (f := f) (q := .published)
        (h.begun (by simp [ha]) (by simp [ha])) (by simp)
      exact ⟨hf.absent, hf.begun, hf.unstarted, hf.pending⟩
  | notDone t x p => exact h.stay ha.1 rfl rfl rfl rfl rfl fun _ => ⟨rfl, rfl⟩
  | callStart t x | callGet t x | coAwait t x | destruct t x
  | startAgain t x p | awaitReadyTrue t x | awaitReadyFalse t x
  | exchangeAgain t x | waited t x | foundUnstarted t x | foundStarted t x
  | foundFinal t x =>
      exact h.stay ha.1 rfl rfl rfl rfl rfl (by rintro ⟨⟩)

theorem counted_of_reachable (hs : (system τ O F).Reachable s) :
    Counted s := by
  refine hs.invariant_of (J := fun s => Owned s ∧ Relying s) Counted
    (fun s hs => ⟨owned_of_reachable hs, relies_of_reachable hs⟩) ?_
    fun s a hJ h ha => h.next hJ.1 hJ.2 ha
  rintro s rfl
  exact ⟨fun _ => rfl, fun hf => absurd rfl hf, nofun, nofun⟩

end Steps

end TaskObject
end Ethreads
