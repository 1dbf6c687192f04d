import Ethreads.CoAwait.Evaluation
import Ethreads.CoAwait.Invariant

/-!
# Coroutines run their bodies

A coroutine sees each of its local tasks as a slot.  The steps of the program
are steps of the bodies on these slots, or change nothing that a body can see;
so each coroutine completes with what its body evaluates to.
-/

namespace Ethreads
namespace CoAwait

open CoroTask (Completion)

universe u v

variable {V : Type u} {E : Type v} {k : ℕ}

/-! ## The slots of a state -/

/-- What the body of a task completes with. -/
def Task.promised (movedFrom : V → V) (x : Task V E) : Completion V E :=
  x.source.eval movedFrom Fin.elim0

def Task.slot (movedFrom : V → V) (x : Task V E) : Slot V E where
  value := x.result.getD (x.promised movedFrom)
  pending := x.started && !x.consumed

/-- The body of a frame with the slots of its local tasks. -/
def State.config (movedFrom : V → V) (s : State k V E) (f : Frame V E) :
    Config V E where
  size := f.size
  rest := f.rest
  slots i := (s.task (f.tasks i)).slot movedFrom

/-- The frame of a coroutine inside its body. -/
def Pc.frame : Pc V E → Option (Frame V E)
  | running f => some f
  | awaitSuspend a | setContinuation a | suspended a | get a => some a.frame
  | _ => none

theorem tasks_of_frame {p : Pc V E} {f : Frame V E} (hf : p.frame = some f) :
    p.tasks = List.ofFn f.tasks := by
  cases p <;> cases hf <;> rfl

/-- A result that nobody has consumed is what the body completes with. -/
structure Task.Settled (movedFrom : V → V) (x : Task V E) : Prop where
  completion : ∀ c tasks, x.pc = .destroying c tasks →
    c = x.promised movedFrom
  result : ∀ c, x.result = some c → x.consumed = false →
    c = x.promised movedFrom
  consumed : x.consumed = true → x.result.isSome = true

/-- Each coroutine is on the way to what its body completes with. -/
structure Faithful (movedFrom : V → V) (s : State k V E) : Prop where
  outlook : ∀ t f, (s.task t).pc.frame = some f →
    (s.config movedFrom f).eval movedFrom = (s.task t).promised movedFrom
  settled : ∀ t, (s.task t).Settled movedFrom

/-- The task whose slot a step changes. -/
def Action.touched : Action k V E → Option ℕ
  | exchangeFirst _ _ a | get _ _ a _ => some a.awaited
  | start | getReturns _ => some 0
  | _ => none

/-- The coroutine whose frame a step changes. -/
def Action.advances : Action k V E → Option ℕ
  | resume _ t | create _ t _ _ _ _ | drop _ t _ _ | get _ t _ _
  | returnValue _ t _ _ | throwException _ t _ _ => some t
  | _ => none

section Steps

variable {movedFrom : V → V} {s : State k V E} {a : Action k V E} {w : Fin k}
  {t : ℕ}

/-- A result that is stored is what the body completes with. -/
theorem slot_publish {x : Task V E} (hnone : x.result = none) {p : Pc V E}
    {c : Completion V E} (hc : c = x.promised movedFrom) :
    Task.slot movedFrom { x with result := some c, pc := p } =
      x.slot movedFrom := by
  unfold Task.slot
  rw [hnone, hc]
  rfl

theorem result_eq_none {x : Task V E} (hx : x.Ok) {p : Pc V E}
    (hp : x.pc = p) (hpublished : p.published = false) : x.result = none := by
  have hresult := hx.result
  rw [hp, hpublished] at hresult
  exact Option.not_isSome_iff_eq_none.mp (by rw [hresult]; exact nofun)

/-- The other slots stay as they are. -/
theorem slot_next (h : Sound s) (hf : Faithful movedFrom s)
    (ha : Enabled s a) {x : ℕ} (hx : x < s.count)
    (hne : a.touched ≠ some x) :
    ((next movedFrom s a).task x).slot movedFrom =
      (s.task x).slot movedFrom := by
  have hgoto : ∀ (s : State k V E) (t : ℕ) (p : Pc V E),
      ((s.goto t p).task x).slot movedFrom = (s.task x).slot movedFrom :=
    fun s t p => apply_task_goto s (Task.slot movedFrom) p (fun _ => rfl) x
  have hdestroy : ∀ t, ((s.destroy t).task x).slot movedFrom =
      (s.task x).slot movedFrom :=
    fun t => apply_task_destroy s (Task.slot movedFrom) (fun _ _ => rfl) x
  have hset : ∀ (t : ℕ) (r : Task V E),
      r.slot movedFrom = (s.task t).slot movedFrom →
        ((s.set t r).task x).slot movedFrom = (s.task x).slot movedFrom :=
    fun t r hr => apply_task_set s r (Task.slot movedFrom) hr x
  have hother : ∀ (t : ℕ) (r : Task V E), t ≠ x →
      ((s.set t r).task x).slot movedFrom = (s.task x).slot movedFrom := by
    intro t r ht
    rw [task_set_of_ne s r ht.symm]
  cases a with
  | start => exact hother 0 _ fun heq => hne (congrArg some heq)
  | getReturns c => exact hother 0 _ fun heq => hne (congrArg some heq)
  | destroyRoot c => exact hdestroy 0
  | resume w t => exact hgoto s t _
  | create w t b child rest tasks =>
      refine (hgoto (s.set s.count (newTask t child b)) t _).trans ?_
      exact hother _ _ (Nat.ne_of_gt hx)
  | drop w t rest tasks => exact (hgoto _ t _).trans (hdestroy _)
  | awaitReadyTrue w t b => exact hgoto s t _
  | awaitReadyFalse w t b => exact hgoto s t _
  | exchangeFirst w t b =>
      refine (hgoto _ t _).trans ?_
      exact hother _ _ fun heq => hne (congrArg some heq)
  | exchangeAgain w t b => exact hgoto s t _
  | setContinuation w t b =>
      refine (hgoto _ t _).trans (hset b.awaited _ ?_)
      rfl
  | continuationTaken w t b u => exact hgoto s t _
  | alreadyReady w t b => exact hgoto s t _
  | get w t b c =>
      refine (hgoto _ t _).trans ?_
      exact hother _ _ fun heq => hne (congrArg some heq)
  | returnValue w t v tasks =>
      refine hset t _ ?_
      refine slot_publish (result_eq_none (h.ok t) ha.2 rfl) ?_
      exact hf.outlook t ⟨_, .finish (.value v), tasks⟩ (by rw [ha.2]; rfl)
  | throwException w t e tasks => exact hgoto s t _
  | destroyTask w t c y tasks => exact (hgoto _ t _).trans (hdestroy y)
  | tasksDestroyed w t v => exact hgoto s t _
  | unhandledException w t e =>
      refine hset t _ ?_
      exact slot_publish (result_eq_none (h.ok t) ha.2 rfl)
        ((hf.settled t).completion _ _ ha.2)
  | setReady w t =>
      refine hset t _ ?_
      rfl
  | storeFinal w t u =>
      refine hset t _ ?_
      rfl
  | transferNoop w t => exact hgoto s t _
  | transferTo w t u b => exact (hgoto _ u _).trans (hgoto s t _)

theorem owns_of_frame (h : Sound s) {f : Frame V E}
    (ht : (s.task t).pc.frame = some f) (i : Fin f.size) :
    s.Owns t (f.tasks i) := by
  apply h.owned.owns t
  rw [tasks_of_frame ht]
  exact List.mem_ofFn.mpr ⟨i, rfl⟩

theorem injective_of_frame (h : Sound s) {f : Frame V E}
    (ht : (s.task t).pc.frame = some f) : Function.Injective f.tasks := by
  have hnodup := h.owned.nodup t
  rw [tasks_of_frame ht] at hnodup
  exact List.nodup_ofFn.mp hnodup

/-! ## The configuration of a frame after a step -/

theorem config_same (h : Sound s) (hf : Faithful movedFrom s)
    (ha : Enabled s a) {f : Frame V E} (ht : (s.task t).pc.frame = some f)
    (hne : ∀ x, a.touched = some x → s.Owns t x → False) :
    (next movedFrom s a).config movedFrom f = s.config movedFrom f := by
  unfold State.config
  congr 1
  funext i
  have howns := owns_of_frame h ht i
  exact slot_next h hf ha howns.lt_count fun htouched =>
    hne _ htouched howns

theorem config_begin (s : State k V E) (b : Body V E 0) :
    s.config movedFrom ⟨0, b, Fin.elim0⟩ = ⟨0, b, Fin.elim0⟩ := by
  unfold State.config
  congr 1
  exact Subsingleton.elim _ _

theorem config_create (h : Sound s) (hf : Faithful movedFrom s) {n : ℕ}
    {b : Bool} {child : Body V E 0} {rest : Body V E (n + 1)}
    {tasks : Fin n → ℕ}
    (ha : Enabled s (.create w t b child rest tasks)) :
    (next movedFrom s (.create w t b child rest tasks)).config movedFrom
        ⟨n + 1, rest, Fin.cons s.count tasks⟩ =
      ⟨n + 1, rest, Fin.cons ⟨child.eval movedFrom Fin.elim0, b⟩
        fun i => (s.task (tasks i)).slot movedFrom⟩ := by
  have htn : s.count ≠ t := (Nat.ne_of_lt (h.runs_lt_count ha)).symm
  have hframe : (s.task t).pc.frame =
      some ⟨n, .create b child rest, tasks⟩ := by
    rw [ha.2]
    rfl
  unfold State.config
  congr 1
  funext i
  cases i using Fin.cases with
  | zero =>
      have hnew : (next movedFrom s (.create w t b child rest tasks)).task
          s.count = newTask t child b := by
        change (((s.set s.count (newTask t child b)).goto t _).task s.count) =
          _
        unfold State.goto
        rw [task_set_of_ne _ _ htn, task_set_self]
      change ((next movedFrom s (.create w t b child rest tasks)).task
        s.count).slot movedFrom = ⟨child.eval movedFrom Fin.elim0, b⟩
      rw [hnew]
      exact congrArg _ (Bool.and_true b)
  | succ i =>
      exact slot_next h hf ha (owns_of_frame h hframe i).lt_count nofun

theorem config_drop (h : Sound s) (hf : Faithful movedFrom s) {n : ℕ}
    {rest : Body V E n} {tasks : Fin (n + 1) → ℕ}
    (ha : Enabled s (.drop w t rest tasks)) :
    (next movedFrom s (.drop w t rest tasks)).config movedFrom
        ⟨n, rest, Fin.tail tasks⟩ =
      ⟨n, rest, Fin.tail fun i => (s.task (tasks i)).slot movedFrom⟩ := by
  have hframe : (s.task t).pc.frame = some ⟨n + 1, .drop rest, tasks⟩ := by
    rw [ha.1.2]
    rfl
  unfold State.config
  congr 1
  funext i
  exact slot_next h hf ha (owns_of_frame h hframe i.succ).lt_count nofun

/-- Only the slot of the awaited task changes. -/
theorem config_update (h : Sound s) (hf : Faithful movedFrom s)
    (ha : Enabled s a) {b : Awaiting V E}
    (ht : (s.task t).pc.frame = some b.frame)
    (htouched : a.touched = some b.awaited) (rest : Body V E b.size) :
    (next movedFrom s a).config movedFrom ⟨b.size, rest, b.tasks⟩ =
      ⟨b.size, rest,
        Function.update (fun i => (s.task (b.tasks i)).slot movedFrom) b.index
          (((next movedFrom s a).task b.awaited).slot movedFrom)⟩ := by
  unfold State.config
  congr 1
  funext i
  by_cases hi : i = b.index
  · subst hi
    rw [Function.update_self]
    rfl
  · rw [Function.update_of_ne hi]
    have howns : s.Owns t (b.tasks i) := owns_of_frame h ht i
    refine slot_next h hf ha howns.lt_count ?_
    rw [htouched]
    intro heq
    have hinj : Function.Injective b.tasks := injective_of_frame h ht
    exact hi (hinj (Option.some.inj heq)).symm

/-- A task that is started becomes pending. -/
theorem config_exchangeFirst (h : Sound s) (hf : Faithful movedFrom s)
    {b : Awaiting V E} (ha : Enabled s (.exchangeFirst w t b)) :
    (next movedFrom s (.exchangeFirst w t b)).config movedFrom b.frame =
      ⟨b.size, .coAwait b.index b.rest,
        Function.update (fun i => (s.task (b.tasks i)).slot movedFrom) b.index
          ⟨((s.task b.awaited).slot movedFrom).value, true⟩⟩ := by
  have hframe : (s.task t).pc.frame = some b.frame := by
    rw [ha.1.2]
    rfl
  have hne := (h.owns_awaited ha.1 rfl).ne
  have hconsumed : (s.task b.awaited).consumed = false := by
    by_contra hnot
    rw [Bool.not_eq_false] at hnot
    have hresult := (hf.settled _).consumed hnot
    rw [(h.ok b.awaited).result, (h.ok b.awaited).initial ha.2] at hresult
    cases hresult
  have hslot : ((next movedFrom s (.exchangeFirst w t b)).task
      b.awaited).slot movedFrom =
        ⟨((s.task b.awaited).slot movedFrom).value, true⟩ := by
    have htask : (next movedFrom s (.exchangeFirst w t b)).task b.awaited =
        { s.task b.awaited with started := true } := by
      change (((s.set b.awaited { s.task b.awaited with
        started := true }).schedule b.awaited).goto t _).task b.awaited = _
      unfold State.goto
      rw [task_set_of_ne _ _ hne.symm]
      exact task_set_self s _
    rw [htask]
    unfold Task.slot
    rw [hconsumed]
    rfl
  rw [← hslot]
  exact config_update h hf ha hframe rfl _

theorem config_kept (h : Sound s) (hf : Faithful movedFrom s)
    (ha : Enabled s a) {f : Frame V E} (ht : (s.task t).pc.frame = some f)
    (hne : a.advances ≠ some t) :
    (next movedFrom s a).config movedFrom f = s.config movedFrom f ∨
      ∃ (n : ℕ) (i : Fin n) (rest : Completion V E → Body V E n)
        (slots : Fin n → Slot V E),
        s.config movedFrom f = ⟨n, .coAwait i rest, slots⟩ ∧
          (next movedFrom s a).config movedFrom f =
            ⟨n, .coAwait i rest,
              Function.update slots i ⟨(slots i).value, true⟩⟩ := by
  by_cases htouched : ∀ x, a.touched = some x → s.Owns t x → False
  · exact Or.inl (config_same h hf ha ht htouched)
  · push Not at htouched
    obtain ⟨x, hx, howns, -⟩ := htouched
    have hpos := Nat.zero_lt_of_lt howns.lt
    cases a with
    | start =>
        cases hx
        exact absurd hpos (Nat.lt_irrefl 0)
    | getReturns c =>
        cases hx
        exact absurd hpos (Nat.lt_irrefl 0)
    | exchangeFirst w u b =>
        cases hx
        have hu : u = t :=
          (h.owns_awaited ha.1 rfl).parent.symm.trans howns.parent
        subst hu
        have hframe : (s.task u).pc.frame = some b.frame := by
          rw [ha.1.2]
          rfl
        cases hframe.symm.trans ht
        exact Or.inr ⟨b.size, b.index, b.rest, _, rfl,
          config_exchangeFirst h hf ha⟩
    | get w u b c =>
        cases hx
        have hu : u = t :=
          (h.owns_awaited ha.1 rfl).parent.symm.trans howns.parent
        exact absurd (congrArg some hu) hne
    | _ => cases hx

theorem config_get (h : Sound s) (hf : Faithful movedFrom s)
    {b : Awaiting V E} {c : Completion V E}
    (ha : Enabled s (.get w t b c)) :
    (next movedFrom s (.get w t b c)).config movedFrom (b.resumed c) =
      ⟨b.size, b.rest ((s.task b.awaited).slot movedFrom).value,
        Function.update (fun i => (s.task (b.tasks i)).slot movedFrom) b.index
          (((s.task b.awaited).slot movedFrom).consume movedFrom)⟩ := by
  have hframe : (s.task t).pc.frame = some b.frame := by
    rw [ha.1.2]
    rfl
  have hne := (h.owns_awaited ha.1 rfl).ne
  have hvalue : ((s.task b.awaited).slot movedFrom).value = c := by
    change (s.task b.awaited).result.getD _ = c
    rw [ha.2]
    rfl
  have hslot : ((next movedFrom s (.get w t b c)).task b.awaited).slot
      movedFrom = ((s.task b.awaited).slot movedFrom).consume movedFrom := by
    have htask : (next movedFrom s (.get w t b c)).task b.awaited =
        { s.task b.awaited with
          result := some (afterGet movedFrom c), consumed := true } := by
      change ((s.consume movedFrom b.awaited c).goto t _).task b.awaited = _
      unfold State.goto
      rw [task_set_of_ne _ _ hne.symm]
      exact task_set_self s _
    rw [htask]
    unfold Slot.consume
    rw [hvalue]
    exact congrArg _ (Bool.and_false _)
  rw [hvalue, ← hslot]
  exact config_update h hf ha hframe rfl _

/-! ## The frame of a coroutine after a step -/

variable (movedFrom) in
theorem frame_same (h : Sound s) (ha : Enabled s a)
    (hne : a.advances ≠ some t) :
    ((next movedFrom s a).task t).pc.frame = (s.task t).pc.frame := by
  have hset : ∀ (s : State k V E) (x : ℕ) (r : Task V E),
      r.pc.frame = (s.task x).pc.frame →
        ((s.set x r).task t).pc.frame = (s.task t).pc.frame :=
    fun s x r hr => apply_task_set s r (fun y => y.pc.frame) hr t
  have hrun : ∀ {w : Fin k} {u : ℕ} {p : Pc V E}, s.Runs w u p →
      ∀ r : Task V E, r.pc.frame = p.frame →
        ((s.set u r).task t).pc.frame = (s.task t).pc.frame := by
    intro w u p hr r hframe
    apply hset s u r
    rw [hr.2]
    exact hframe
  have hother : ∀ (s : State k V E) (u : ℕ) (r : Task V E), u ≠ t →
      ((s.set u r).task t).pc.frame = (s.task t).pc.frame := by
    intro s u r hu
    rw [task_set_of_ne s r hu.symm]
  have hthen : ∀ {w : Fin k} {u x : ℕ} {p : Pc V E}, s.Runs w u p → u ≠ x →
      ∀ (r : Task V E) (q : Pc V E), r.pc = (s.task x).pc →
        q.frame = p.frame → (((s.set x r).goto u q).task t).pc.frame =
          (s.task t).pc.frame := by
    intro w u x p hr hux r q hrpc hq
    refine (hset (s.set x r) u _ ?_).trans (hset s x r ?_)
    · rw [(hr.set r hux).2]
      exact hq
    · rw [hrpc]
  cases a with
  | start => exact hset s 0 _ rfl
  | getReturns c => exact hset s 0 _ rfl
  | destroyRoot c => exact hset s 0 _ rfl
  | resume w u => exact hother s u _ fun heq => hne (congrArg some heq)
  | create w u b child rest tasks =>
      refine (hother _ u _ fun heq => hne (congrArg some heq)).trans ?_
      refine hset s s.count (newTask u child b) ?_
      rw [(h.owned.unused s.count (Nat.le_refl _)).pc]
      rfl
  | drop w u rest tasks =>
      refine (hother _ u _ fun heq => hne (congrArg some heq)).trans ?_
      exact hset s _ _ rfl
  | awaitReadyTrue w u b => exact hrun ha.1 _ rfl
  | awaitReadyFalse w u b => exact hrun ha.1 _ rfl
  | exchangeFirst w u b =>
      exact hthen ha.1 (h.owns_awaited ha.1 rfl).ne _ _ rfl rfl
  | exchangeAgain w u b => exact hrun ha.1 _ rfl
  | setContinuation w u b =>
      exact hthen ha.1 (h.owns_awaited ha.1 rfl).ne _ _ rfl rfl
  | continuationTaken w u b v => exact (h.not_continued ha.1 ha.2).elim
  | alreadyReady w u b => exact hrun ha.1 _ rfl
  | get w u b c =>
      refine (hother _ u _ fun heq => hne (congrArg some heq)).trans ?_
      exact hset s _ _ rfl
  | returnValue w u v tasks =>
      exact hother s u _ fun heq => hne (congrArg some heq)
  | throwException w u e tasks =>
      exact hother s u _ fun heq => hne (congrArg some heq)
  | destroyTask w u c x tasks =>
      have hx : s.Owns u x := h.owned.owns_of_pc ha.1.2 List.mem_cons_self
      exact hthen ha.1 hx.ne _ _ rfl rfl
  | tasksDestroyed w u v => exact hrun ha _ rfl
  | unhandledException w u e => exact hrun ha _ rfl
  | setReady w u => exact hrun ha _ rfl
  | storeFinal w u v => exact hrun ha _ rfl
  | transferNoop w u => exact hrun ha _ rfl
  | transferTo w u v b =>
      have hvu : v ≠ u := by
        rintro rfl
        cases ha.2.symm.trans ha.1.2
      refine (hset (s.goto u .finished) v _ ?_).trans (hrun ha.1 _ rfl)
      have hv : ((s.goto u .finished).task v).pc = .suspended b :=
        (congrArg Task.pc (task_set_of_ne s _ hvu)).trans ha.2
      rw [hv]
      rfl

/-- A frame is that of a coroutine that has begun. -/
theorem ne_initial_of_frame {x : Task V E} {f : Frame V E}
    (hf : x.pc.frame = some f) : x.pc ≠ .initial := by
  intro hpc
  rw [hpc] at hf
  cases hf

variable (movedFrom) in
/-- The source of a task does not change. -/
theorem source_next {x : ℕ} (hx : x < s.count) :
    ((next movedFrom s a).task x).source = (s.task x).source := by
  have hset : ∀ (s : State k V E) (t : ℕ) (r : Task V E),
      r.source = (s.task t).source →
        ((s.set t r).task x).source = (s.task x).source :=
    fun s t r hr => apply_task_set s r Task.source hr x
  have hgoto : ∀ (s : State k V E) (t : ℕ) (p : Pc V E),
      ((s.goto t p).task x).source = (s.task x).source :=
    fun s t p => apply_task_goto s Task.source p (fun _ => rfl) x
  cases a with
  | create w t b child rest tasks =>
      refine (hgoto (s.set s.count (newTask t child b)) t _).trans ?_
      rw [task_set_of_ne s _ (Nat.ne_of_lt hx)]
  | drop w t rest tasks =>
      refine (hgoto _ t _).trans (hset s _ _ ?_)
      rfl
  | exchangeFirst w t b =>
      refine (hgoto _ t _).trans (hset s _ _ ?_)
      rfl
  | setContinuation w t b =>
      refine (hgoto _ t _).trans (hset s _ _ ?_)
      rfl
  | get w t b c =>
      refine (hgoto _ t _).trans (hset s _ _ ?_)
      rfl
  | destroyTask w t c y tasks =>
      refine (hgoto _ t _).trans (hset s _ _ ?_)
      rfl
  | transferTo w t u b => exact (hgoto _ u _).trans (hgoto s t _)
  | _ => exact hset s _ _ rfl

/-! ## Results -/

theorem Task.Settled.goto {x : Task V E} (h : x.Settled movedFrom)
    {q : Pc V E} (hq : ∀ c tasks, q = .destroying c tasks →
      c = x.promised movedFrom) :
    Task.Settled movedFrom { x with pc := q } :=
  ⟨hq, h.result, h.consumed⟩

theorem Task.Settled.consume {x : Task V E} (h : x.Settled movedFrom)
    (c : Completion V E) :
    Task.Settled movedFrom { x with result := some c, consumed := true } :=
  ⟨h.completion, nofun, fun _ => rfl⟩

theorem settled_publish {x : Task V E} {q : Pc V E} {c : Completion V E}
    (hc : c = x.promised movedFrom)
    (hq : ∀ d tasks, q = .destroying d tasks → d = c) :
    Task.Settled movedFrom { x with result := some c, pc := q } where
  completion d tasks hd := (hq d tasks hd).trans hc
  result _ hd _ := (Option.some.inj hd).symm.trans hc
  consumed _ := rfl

/-- What a body that is at its end completes with. -/
theorem promised_of_finish (hf : Faithful movedFrom s) {n : ℕ}
    {c : Completion V E} {tasks : Fin n → ℕ}
    (hr : s.Runs w t (.running ⟨n, .finish c, tasks⟩)) :
    c = (s.task t).promised movedFrom := by
  apply hf.outlook t ⟨n, .finish c, tasks⟩
  rw [hr.2]
  rfl

theorem settled_next (h : Sound s) (hf : Faithful movedFrom s)
    (ha : Enabled s a) (x : ℕ) :
    ((next movedFrom s a).task x).Settled movedFrom := by
  have hgoto : ∀ (s : State k V E) (t : ℕ) (q : Pc V E),
      (∀ x, (s.task x).Settled movedFrom) →
        (∀ c tasks, q = .destroying c tasks →
          c = (s.task t).promised movedFrom) →
            ((s.goto t q).task x).Settled movedFrom :=
    fun s t q hs hq => forall_task_set s _
      (P := fun _ y => y.Settled movedFrom) ((hs t).goto hq) hs x
  have hset : ∀ (t : ℕ) (r : Task V E), r.Settled movedFrom →
      ∀ y, ((s.set t r).task y).Settled movedFrom :=
    fun t r hr => forall_task_set s r (P := fun _ y => y.Settled movedFrom) hr
      hf.settled
  have hkept : ∀ {t : ℕ} (r : Task V E), r.pc = (s.task t).pc →
      r.result = (s.task t).result → r.consumed = (s.task t).consumed →
        r.source = (s.task t).source → r.Settled movedFrom := by
    intro t r hpc hresult hconsumed hsource
    obtain ⟨hcompletion, hres, hcon⟩ := hf.settled t
    refine ⟨?_, ?_, ?_⟩
    · rw [hpc, Task.promised, hsource]
      exact hcompletion
    · rw [hresult, hconsumed, Task.promised, hsource]
      exact hres
    · rw [hresult, hconsumed]
      exact hcon
  cases a with
  | start =>
      refine hset 0 _ ?_ x
      exact hkept (t := 0) _ rfl rfl rfl rfl
  | getReturns c => exact hset 0 _ ((hf.settled 0).consume _) x
  | destroyRoot c =>
      refine hset 0 _ ?_ x
      exact hkept (t := 0) _ rfl rfl rfl rfl
  | resume w t => exact hgoto s t _ hf.settled nofun
  | create w t b child rest tasks =>
      refine hgoto _ t _ (hset s.count (newTask t child b) ?_) nofun
      exact ⟨nofun, nofun, nofun⟩
  | drop w t rest tasks =>
      refine hgoto _ t _ (hset _ _ ?_) nofun
      exact hkept (t := tasks 0) _ rfl rfl rfl rfl
  | awaitReadyTrue w t b => exact hgoto s t _ hf.settled nofun
  | awaitReadyFalse w t b => exact hgoto s t _ hf.settled nofun
  | exchangeFirst w t b =>
      refine hgoto _ t _ (hset b.awaited _ ?_) nofun
      exact hkept (t := b.awaited) _ rfl rfl rfl rfl
  | exchangeAgain w t b => exact hgoto s t _ hf.settled nofun
  | setContinuation w t b =>
      refine hgoto _ t _ (hset b.awaited _ ?_) nofun
      exact hkept (t := b.awaited) _ rfl rfl rfl rfl
  | continuationTaken w t b u => exact hgoto s t _ hf.settled nofun
  | alreadyReady w t b => exact hgoto s t _ hf.settled nofun
  | get w t b c =>
      exact hgoto _ t _ (hset b.awaited _ ((hf.settled b.awaited).consume _))
        nofun
  | returnValue w t v tasks =>
      refine hset t _ (settled_publish (promised_of_finish hf ha) ?_) x
      intro d l hd
      cases hd
      rfl
  | throwException w t e tasks =>
      refine hgoto s t _ hf.settled fun d l hd => ?_
      cases hd
      exact promised_of_finish hf ha
  | destroyTask w t c y tasks =>
      have hy : s.Owns t y := h.owned.owns_of_pc ha.1.2 List.mem_cons_self
      have hdestroy : ∀ z, ((s.destroy y).task z).Settled movedFrom :=
        hset y _ (hkept (t := y) _ rfl rfl rfl rfl)
      refine hgoto _ t _ hdestroy fun d l hd => ?_
      cases hd
      refine ((hf.settled t).completion c _ ha.1.2).trans ?_
      exact congrArg (Task.promised movedFrom)
        (task_set_of_ne s _ hy.ne).symm
  | tasksDestroyed w t v => exact hgoto s t _ hf.settled nofun
  | unhandledException w t e =>
      have hc := (hf.settled t).completion _ _ ha.2
      exact hset t _ (settled_publish (q := .setReady) hc nofun) x
  | setReady w t =>
      refine hset t _ ?_ x
      exact ⟨nofun, (hf.settled t).result, (hf.settled t).consumed⟩
  | storeFinal w t u =>
      refine hset t _ ?_ x
      exact ⟨nofun, (hf.settled t).result, (hf.settled t).consumed⟩
  | transferNoop w t => exact hgoto s t _ hf.settled nofun
  | transferTo w t u b =>
      have hfinish : ∀ y, ((s.goto t .finished).task y).Settled movedFrom :=
        hset t _ ((hf.settled t).goto nofun)
      exact hgoto _ u _ hfinish nofun

/-! ## Simulation -/

/-- The frame of a coroutine after a step stands for the same configuration as
before, or for that after a step of the body, or the coroutine has just
begun. -/
theorem frame_step (h : Sound s) (hf : Faithful movedFrom s)
    (ha : Enabled s a) {f' : Frame V E}
    (ht : ((next movedFrom s a).task t).pc.frame = some f') :
    (∃ f, (s.task t).pc.frame = some f ∧
      ((next movedFrom s a).config movedFrom f' = s.config movedFrom f ∨
        Config.Step movedFrom (s.config movedFrom f)
          ((next movedFrom s a).config movedFrom f'))) ∨
      t < s.count ∧ (s.task t).pc = .initial ∧
        (next movedFrom s a).config movedFrom f' =
          ⟨0, (s.task t).source, Fin.elim0⟩ := by
  by_cases hadvances : a.advances = some t
  · have hself : ∀ (s : State k V E) (q : Pc V E),
        ((s.goto t q).task t).pc.frame = q.frame := by
      intro s q
      unfold State.goto
      rw [task_set_self]
    cases a with
    | resume w u =>
        cases hadvances
        cases (hself s _).symm.trans ht
        obtain ⟨hstarted, hpc⟩ := (h.queued.mem t).mp ha.2
        refine Or.inr ⟨h.owned.lt_count_of_started hstarted, hpc, ?_⟩
        exact config_begin _ _
    | create w u b child rest tasks =>
        cases hadvances
        cases (hself (s.set s.count (newTask t child b)) _).symm.trans ht
        refine Or.inl ⟨⟨_, .create b child rest, tasks⟩, ?_, Or.inr ?_⟩
        · rw [ha.2]
          rfl
        · rw [config_create h hf ha]
          exact .create b child rest _
    | drop w u rest tasks =>
        cases hadvances
        cases (hself (s.destroy (tasks 0)) _).symm.trans ht
        refine Or.inl ⟨⟨_, .drop rest, tasks⟩, ?_, Or.inr ?_⟩
        · rw [ha.1.2]
          rfl
        · rw [config_drop h hf ha]
          exact .drop rest _
    | get w u b c =>
        cases hadvances
        cases (hself (s.consume movedFrom b.awaited c) _).symm.trans ht
        refine Or.inl ⟨b.frame, ?_, Or.inr ?_⟩
        · rw [ha.1.2]
          rfl
        · rw [config_get h hf ha]
          exact .coAwait b.index b.rest _
    | returnValue w u v tasks =>
        cases hadvances
        have hpc : ((next movedFrom s (.returnValue w t v tasks)).task t).pc =
            .destroying (.value v) (List.ofFn tasks) :=
          congrArg Task.pc (task_set_self s _)
        rw [hpc] at ht
        cases ht
    | throwException w u e tasks =>
        cases hadvances
        cases (hself s _).symm.trans ht
    | _ => cases hadvances
  · rw [frame_same movedFrom h ha hadvances] at ht
    refine Or.inl ⟨f', ht, ?_⟩
    rcases config_kept h hf ha ht hadvances with
      hsame | ⟨n, i, rest, slots, hold, hnew⟩
    · exact Or.inl hsame
    · rw [hold, hnew]
      exact Or.inr (.start i rest slots)

theorem faithful_next (h : Sound s) (hf : Faithful movedFrom s)
    (ha : Enabled s a) : Faithful movedFrom (next movedFrom s a) where
  outlook t f' ht := by
    rcases frame_step h hf ha ht with ⟨f, hframe, hstep⟩ | ⟨hlt, -, hconfig⟩
    · have hsource := source_next movedFrom (a := a)
        (h.owned.lt_count (ne_initial_of_frame hframe))
      rw [Task.promised, hsource, ← Task.promised, ← hf.outlook t f hframe]
      rcases hstep with heq | hstep
      · rw [heq]
      · exact hstep.eval
    · rw [Task.promised, source_next movedFrom hlt, hconfig]
      unfold Config.eval
      congr 1
      exact Subsingleton.elim _ _
  settled := settled_next h hf ha

end Steps

theorem faithful_reachable {movedFrom : V → V} {root : Body V E 0}
    {s : State k V E} (hs : (system movedFrom k root).Reachable s) :
    Faithful movedFrom s := by
  refine hs.invariant_of (Faithful movedFrom) (fun s hs => sound_reachable hs)
    ?_ fun s a h hf ha => faithful_next h hf ha
  rintro s rfl
  exact ⟨nofun, fun _ => ⟨nofun, nofun, nofun⟩⟩

end CoAwait
end Ethreads
