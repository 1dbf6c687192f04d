import Ethreads.BlockingGet.Model

/-!
# Who is blocked in `get`

Every coroutine is in one place: not added yet, in the queue, run by one
worker, or ended.  A worker that is blocked in `get` runs a coroutine that
calls `get`, and no other worker runs it, so fewer such coroutines than workers
cannot block all of them.
-/

namespace Ethreads
namespace BlockingGet

variable {k : ℕ} {ω : Type*}

/-! ## Stages -/

/-- The children on which a coroutine is still to call `get`, or calls it, are
some on which it calls it at all. -/
def WorkerPc.Gets (tree : CoroTree ω) : WorkerPc ω → Prop
  | running c rest => rest ⊆ tree.gets c
  | getting c child rest => child ∈ tree.gets c ∧ rest ⊆ tree.gets c
  | _ => True

/-- The stages of the coroutines agree with the queue, the workers and the
flags, and a coroutine is added by its parent only. -/
structure Staged (tree : CoroTree ω) (s : State k ω) : Prop where
  queued : Collects s.stage .queued s.externalCoroQueue
  runs : ∀ w c, (s.worker w).coroutine = some c ↔ s.stage c = .running w
  ended : ∀ c, s.finalSuspendReached c = true ↔ s.stage c = .ended
  ready : ∀ c, s.stage c = .ended → s.ready c = true
  unready : ∀ c, s.stage c = .unadded ∨ s.stage c = .queued →
    s.ready c = false
  destroying : ∀ w c rest, s.worker w = .destroying c rest →
    s.ready c = true
  adding : ∀ w c rest, s.worker w = .adding c rest → rest.Nodup ∧
    ∀ d, d ∈ rest ↔ d ∈ tree.children c ∧ s.stage d = .unadded
  unadded : ∀ c, ∀ d ∈ tree.children c, s.stage d = .unadded →
    s.stage c = .unadded ∨ s.stage c = .queued ∨
      ∃ w rest, s.worker w = .adding c rest
  later : ∀ c, s.stage c = .unadded ∨ s.stage c = .queued →
    ∀ d ∈ tree.children c, s.stage d = .unadded
  root : s.stage tree.root ≠ .unadded
  gets : ∀ w, (s.worker w).Gets tree

theorem CoroTree.not_mem_children_self (tree : CoroTree ω) (c : ω) :
    c ∉ tree.children c := by
  intro hc
  exact absurd (tree.depth_child c c hc) (Nat.ne_of_lt (Nat.lt_succ_self _))

theorem CoroTree.root_not_mem_children (tree : CoroTree ω) (p : ω) :
    tree.root ∉ tree.children p := by
  intro hroot
  have hdepth := tree.depth_child p tree.root hroot
  rw [tree.depth_root] at hdepth
  exact absurd hdepth (Nat.succ_ne_zero _).symm

section Steps

variable [DecidableEq ω] {tree : CoroTree ω} {s s' : State k ω}
  {a : Action k ω} {w : Fin k}

omit [DecidableEq ω] in
theorem Staged.of_goto (h : Staged tree s) {p q : WorkerPc ω}
    (hp : s.worker w = p) (hworker : s'.worker = Function.update s.worker w q)
    (hqueue : s'.externalCoroQueue = s.externalCoroQueue)
    (hready : ∀ c, s.ready c = true → s'.ready c = true)
    (hunready : ∀ c, s.stage c ≠ .running w → s'.ready c = s.ready c)
    (hfinal : s'.finalSuspendReached = s.finalSuspendReached)
    (hstage : s'.stage = s.stage) (hsame : q.coroutine = p.coroutine)
    (hadding : ∀ c rest, q ≠ .adding c rest)
    (hadded : ∀ c rest, p = .adding c rest → rest = [])
    (hdestroying : ∀ c rest, q = .destroying c rest → s'.ready c = true)
    (hgets : q.Gets tree) : Staged tree s' where
  queued := by
    rw [hstage, hqueue]
    exact h.queued
  runs := by
    rw [hworker, hstage]
    refine (Function.forall_update_iff s.worker fun v r => ∀ c,
      r.coroutine = some c ↔ s.stage c = .running v).mpr
        ⟨fun c => ?_, fun v _ => h.runs v⟩
    rw [hsame, ← hp]
    exact h.runs w c
  ended := by
    rw [hfinal, hstage]
    exact h.ended
  ready c := by
    rw [hstage]
    exact fun hc => hready c (h.ready c hc)
  unready c := by
    rw [hstage]
    intro hc
    rw [hunready c]
    · exact h.unready c hc
    · rcases hc with hc | hc <;> simp [hc]
  destroying := by
    rw [hworker]
    refine (Function.forall_update_iff s.worker fun _ r => ∀ c rest,
      r = .destroying c rest → s'.ready c = true).mpr ⟨hdestroying, ?_⟩
    exact fun v _ c rest hv => hready c (h.destroying v c rest hv)
  adding := by
    rw [hworker, hstage]
    refine (Function.forall_update_iff s.worker fun _ r => ∀ c rest,
      r = .adding c rest → rest.Nodup ∧
        ∀ d, d ∈ rest ↔ d ∈ tree.children c ∧ s.stage d = .unadded).mpr
          ⟨fun c rest hq => absurd hq (hadding c rest), fun v _ => h.adding v⟩
  unadded c d hd := by
    rw [hstage]
    intro hun
    rcases h.unadded c d hd hun with hc | hc | ⟨v, rest, hv⟩
    · exact .inl hc
    · exact .inr (.inl hc)
    · refine .inr (.inr ⟨v, rest, ?_⟩)
      have hmem := ((h.adding v c rest hv).2 d).mpr ⟨hd, hun⟩
      have hvw : v ≠ w := by
        rintro rfl
        rw [hadded c rest (hp.symm.trans hv)] at hmem
        exact absurd hmem List.not_mem_nil
      rw [hworker, Function.update_of_ne hvw]
      exact hv
  later := by
    rw [hstage]
    exact h.later
  root := by
    rw [hstage]
    exact h.root
  gets := by
    rw [hworker]
    exact (Function.forall_update_iff s.worker fun _ r => r.Gets tree).mpr
      ⟨hgets, fun v _ => h.gets v⟩

omit [DecidableEq ω] in
theorem Staged.stage_of_runs (h : Staged tree s) {p : WorkerPc ω} {c : ω}
    (hp : s.worker w = p) (hc : p.coroutine = some c) :
    s.stage c = .running w := by
  rw [← h.runs, hp]
  exact hc

theorem staged_tryReceive (h : Staged tree s) {c : ω} {queue : List ω}
    (ha : Enabled s (.tryReceive w c queue)) :
    Staged tree (next tree s (.tryReceive w c queue)) := by
  obtain ⟨hidle, hqueue⟩ := ha
  have hcollects := h.queued
  rw [hqueue] at hcollects
  have hc : s.stage c = .queued := hcollects.place_head
  have hstage : ∀ d, (next tree s (.tryReceive w c queue)).stage d =
      if d = c then .running w else s.stage d :=
    fun d => Function.update_apply _ _ _ _
  have hworker : ∀ v, (next tree s (.tryReceive w c queue)).worker v =
      if v = w then .adding c (tree.children c) else s.worker v :=
    fun v => Function.update_apply _ _ _ _
  constructor
  · exact hcollects.remove nofun
  · intro v d
    rw [hstage, hworker]
    have hv := h.runs v d
    by_cases hvw : v = w
    · subst hvw
      rw [hidle] at hv
      grind [WorkerPc.coroutine]
    · grind
  · intro d
    rw [hstage]
    have hd := h.ended d
    grind [next, State.goto]
  · intro d
    rw [hstage]
    have hd := h.ready d
    grind [next, State.goto]
  · intro d
    rw [hstage]
    have hd := h.unready d
    grind [next, State.goto]
  · intro v d rest
    rw [hworker]
    have hv := h.destroying v d rest
    grind [next, State.goto]
  · intro v d rest
    rw [hworker]
    split
    · intro heq
      obtain ⟨rfl, rfl⟩ := WorkerPc.adding.inj heq
      refine ⟨tree.nodup_children c, fun e => ?_⟩
      have he := h.later c (.inr hc) e
      have hne := tree.not_mem_children_self c
      rw [hstage]
      grind
    · intro hv
      have hold := h.adding v d rest hv
      refine ⟨hold.1, fun e => ?_⟩
      have he := hold.2 e
      rw [hstage]
      grind
  · intro e d hd
    rw [hstage, hstage]
    have hold := h.unadded e d hd
    grind
  · intro e he d hd
    rw [hstage] at he ⊢
    have hold := h.later e
    grind
  · rw [hstage]
    have hroot := h.root
    grind
  · intro v
    rw [hworker]
    split
    · trivial
    · exact h.gets v

theorem staged_addCoro (h : Staged tree s) {c child : ω} {rest : List ω}
    (ha : Enabled s (.addCoro w c child rest)) :
    Staged tree (next tree s (.addCoro w c child rest)) := by
  have hpc : s.worker w = .adding c (child :: rest) := ha
  obtain ⟨hnodup, hrest⟩ := h.adding w c _ hpc
  obtain ⟨hmem, hchild⟩ := (hrest child).mp List.mem_cons_self
  have hc : s.stage c = .running w := h.stage_of_runs hpc rfl
  have hparent : ∀ e, child ∈ tree.children e → e = c :=
    fun e he => tree.parent_unique e c child he hmem
  have hstage : ∀ d, (next tree s (.addCoro w c child rest)).stage d =
      if d = child then .queued else s.stage d :=
    fun d => Function.update_apply _ _ _ _
  have hworker : ∀ v, (next tree s (.addCoro w c child rest)).worker v =
      if v = w then .adding c rest else s.worker v :=
    fun v => Function.update_apply _ _ _ _
  constructor
  · exact (h.queued.insert (by simp [hchild])).perm
      (List.perm_append_singleton child _).symm
  · intro v d
    rw [hstage, hworker]
    have hv := h.runs v d
    grind [WorkerPc.coroutine]
  · intro d
    rw [hstage]
    have hd := h.ended d
    grind [next, State.goto]
  · intro d
    rw [hstage]
    have hd := h.ready d
    grind [next, State.goto]
  · intro d
    rw [hstage]
    have hd := h.unready d
    grind [next, State.goto]
  · intro v d rest
    rw [hworker]
    have hv := h.destroying v d rest
    grind [next, State.goto]
  · intro v d rest'
    rw [hworker]
    split
    · intro heq
      obtain ⟨rfl, rfl⟩ := WorkerPc.adding.inj heq
      refine ⟨hnodup.of_cons, fun e => ?_⟩
      have he := hrest e
      have hout := (List.nodup_cons.mp hnodup).1
      rw [hstage]
      grind
    · intro hv
      have hold := h.adding v d rest' hv
      have hd := h.stage_of_runs hv rfl
      refine ⟨hold.1, fun e => ?_⟩
      have he := hold.2 e
      have hpar := hparent d
      rw [hstage]
      grind
  · intro e d hd
    rw [hstage, hstage]
    have hold := h.unadded e d hd
    grind
  · intro e he d hd
    rw [hstage] at he ⊢
    have hold := h.later e
    have hpar := hparent e
    have hself := tree.not_mem_children_self child
    grind
  · rw [hstage]
    have hroot := h.root
    grind
  · intro v
    rw [hworker]
    split
    · trivial
    · exact h.gets v

theorem staged_finalSuspend (h : Staged tree s) {c : ω}
    (ha : Enabled s (.finalSuspend w c)) :
    Staged tree (next tree s (.finalSuspend w c)) := by
  have hpc : s.worker w = .destroying c [] := ha
  have hc : s.stage c = .running w := h.stage_of_runs hpc rfl
  have hready := h.destroying w c [] hpc
  have hstage : ∀ d, (next tree s (.finalSuspend w c)).stage d =
      if d = c then .ended else s.stage d :=
    fun d => Function.update_apply _ _ _ _
  have hworker : ∀ v, (next tree s (.finalSuspend w c)).worker v =
      if v = w then .idle else s.worker v :=
    fun v => Function.update_apply _ _ _ _
  have hfinal : ∀ d, (next tree s (.finalSuspend w c)).finalSuspendReached d =
      if d = c then true else s.finalSuspendReached d :=
    fun d => Function.update_apply _ _ _ _
  constructor
  · exact h.queued.frame (by simp [hc]) (by simp)
  · intro v d
    rw [hstage, hworker]
    have hv := h.runs v d
    have hw := h.runs w d
    rw [hpc] at hw
    grind [WorkerPc.coroutine]
  · intro d
    rw [hstage, hfinal]
    have hd := h.ended d
    grind
  · intro d
    rw [hstage]
    have hd := h.ready d
    grind [next, State.goto]
  · intro d
    rw [hstage]
    have hd := h.unready d
    grind [next, State.goto]
  · intro v d rest
    rw [hworker]
    have hv := h.destroying v d rest
    grind [next, State.goto]
  · intro v d rest
    rw [hworker]
    split
    · nofun
    · intro hv
      have hold := h.adding v d rest hv
      refine ⟨hold.1, fun e => ?_⟩
      have he := hold.2 e
      rw [hstage]
      grind
  · intro e d hd
    rw [hstage, hstage]
    have hold := h.unadded e d hd
    grind
  · intro e he d hd
    rw [hstage] at he ⊢
    have hold := h.later e
    grind
  · rw [hstage]
    have hroot := h.root
    grind
  · intro v
    rw [hworker]
    split
    · trivial
    · exact h.gets v

theorem staged_next (h : Staged tree s) (ha : Enabled s a) :
    Staged tree (next tree s a) := by
  cases a with
  | tryReceive w c queue => exact staged_tryReceive h ha
  | addCoro w c child rest => exact staged_addCoro h ha
  | finalSuspend w c => exact staged_finalSuspend h ha
  | added w c =>
      refine h.of_goto ha rfl rfl (fun _ => id) (fun _ _ => rfl) rfl rfl rfl
        nofun ?_ nofun ?_
      · intro d rest heq
        exact (WorkerPc.adding.inj heq).2.symm
      · exact List.Subset.refl _
  | callGet w c child rest =>
      have hgets := h.gets w
      rw [ha.1] at hgets
      exact h.of_goto ha.1 rfl rfl (fun _ => id) (fun _ _ => rfl) rfl rfl rfl
        nofun nofun nofun
        ⟨hgets ha.2, fun _ hd => hgets (List.mem_of_mem_erase hd)⟩
  | getReturns w c child rest =>
      have hgets := h.gets w
      rw [ha.1] at hgets
      exact h.of_goto ha.1 rfl rfl (fun _ => id) (fun _ _ => rfl) rfl rfl rfl
        nofun nofun nofun hgets.2
  | returnValue w c =>
      have hc := h.stage_of_runs ha rfl
      refine h.of_goto ha rfl rfl ?_ ?_ rfl rfl rfl nofun nofun ?_ trivial
      · intro d hd
        by_cases hdc : d = c
        · rw [hdc]
          exact Function.update_self _ _ _
        · exact (Function.update_of_ne hdc _ _).trans hd
      · intro d hd
        refine Function.update_of_ne ?_ _ _
        rintro rfl
        exact hd hc
      · rintro d rest ⟨⟩
        exact Function.update_self _ _ _
  | destroyTask w c child rest =>
      refine h.of_goto ha.1 rfl rfl (fun _ => id) (fun _ _ => rfl) rfl rfl rfl
        nofun nofun ?_ trivial
      rintro d rest' ⟨⟩
      exact h.destroying w c _ ha.1

theorem staged_of_reachable (hs : (system tree k).Reachable s) :
    Staged tree s := by
  refine hs.invariant (Staged tree) ?_ fun s a h ha => staged_next h ha
  rintro s rfl
  have hstage : ∀ d, (initialState tree k).stage d =
      if d = tree.root then .queued else .unadded := by
    intro d
    simp [initialState, Function.update_apply]
  have hroot := tree.root_not_mem_children
  constructor
  · refine ⟨List.nodup_singleton _, fun d => ?_⟩
    rw [hstage]
    grind [initialState]
  · intro v d
    rw [hstage]
    grind [initialState, WorkerPc.coroutine]
  · intro d
    rw [hstage]
    grind [initialState]
  · intro d
    rw [hstage]
    grind
  · exact fun _ _ => rfl
  · exact nofun
  · exact nofun
  · intro e d hd
    rw [hstage, hstage]
    grind
  · intro e he d hd
    rw [hstage]
    grind
  · rw [hstage]
    grind
  · exact fun _ => trivial

/-! ## Fewer coroutines that call `get` than workers -/

omit [DecidableEq ω] in
/-- A blocked worker runs a coroutine that calls `get`. -/
theorem Staged.exists_getter [Fintype ω] (h : Staged tree s)
    (hw : s.IsBlocked w) :
    ∃ c ∈ tree.getters, s.stage c = .running w := by
  obtain ⟨c, child, rest, hpc, -⟩ := hw
  have hgets := h.gets w
  rw [hpc] at hgets
  refine ⟨c, ?_, h.stage_of_runs hpc rfl⟩
  exact Finset.mem_filter.mpr
    ⟨Finset.mem_univ c, List.ne_nil_of_mem hgets.1⟩

omit [DecidableEq ω] in
/-- If all workers are blocked, as many coroutines call `get`. -/
theorem Staged.le_card_getters [Fintype ω] (h : Staged tree s)
    (hall : ∀ w, s.IsBlocked w) : k ≤ tree.getters.card := by
  choose c hc hstage using fun w => h.exists_getter (hall w)
  have hinj : Function.Injective c := by
    intro v w heq
    have hv := hstage v
    rw [heq, hstage w] at hv
    exact (Stage.running.inj hv).symm
  have hcard := Finset.card_le_card_of_injOn c (s := Finset.univ)
    (t := tree.getters) (fun w _ => hc w) hinj.injOn
  simpa using hcard

theorem not_isWedged_of_getters_lt [Fintype ω]
    (hfew : tree.getters.card < k) (hs : (system tree k).Reachable s) :
    ¬s.IsWedged := by
  intro hwedged
  have hle := (staged_of_reachable hs).le_card_getters hwedged.1
  exact absurd hle (not_le.mpr hfew)

end Steps

end BlockingGet
end Ethreads
