import Ethreads.BlockingGet.Blockers
import Mathlib.Data.Finset.Lattice.Fold

/-!
# When blocking `get` wedges the scheduler

If every coroutine calls `get` on all its children, as many coroutines that
call `get` as there are workers can block all of them.  The run that does so
keeps every coroutine that calls `get` on its worker: each of them adds its
children only when the queue is empty and one of its children calls `get`
itself, or at the end, when all workers are taken.
-/

namespace Ethreads
namespace BlockingGet

variable {k : ℕ} {ω : Type*}

/-! ## Workers that stay taken -/

/-- The worker runs a coroutine that calls `get`, which has not added a child
yet, or has added them all and is still to call `get` on one that calls `get`
itself. -/
def State.IsHeld (tree : CoroTree ω) (s : State k ω) (w : Fin k) : Prop :=
  ∃ c, tree.gets c ≠ [] ∧
    (s.worker w = .adding c (tree.children c) ∨
      s.worker w = .running c (tree.gets c) ∧
        ∃ d ∈ tree.gets c, tree.gets d ≠ [])

/-- Only coroutines that do not call `get` have returned, and the others are
held. -/
structure Loaded (tree : CoroTree ω) (s : State k ω) : Prop where
  staged : Staged tree s
  leaves : ∀ c, s.ready c = true → tree.gets c = []
  workers : ∀ w, s.worker w = .idle ∨ s.IsHeld tree w

/-- The coroutine has not been taken out of the queue yet. -/
def Stage.isWaiting : Stage k → Bool
  | unadded | queued => true
  | _ => false

/-- How many coroutines have not been taken out of the queue yet. -/
def State.waitingCount [Fintype ω] (s : State k ω) : ℕ :=
  (Finset.univ.filter fun c => (s.stage c).isWaiting = true).card

section Steps

variable [DecidableEq ω] {tree : CoroTree ω} {s s' : State k ω} {w : Fin k}

omit [DecidableEq ω] in
theorem children_eq_nil (hgets : tree.GetsAll) {c : ω}
    (hc : tree.gets c = []) : tree.children c = [] := by
  have hsubset := hgets c
  rw [hc] at hsubset
  exact List.eq_nil_of_subset_nil hsubset

omit [DecidableEq ω] in
theorem gets_ne_nil (hgets : tree.GetsAll) {c d : ω}
    (hd : d ∈ tree.children c) : tree.gets c ≠ [] :=
  List.ne_nil_of_mem (hgets c hd)

theorem leads_next {a : Action k ω} (ha : Enabled s a) :
    (system tree k).Leads s (next tree s a) :=
  .step (.refl s) ha

/-- What a run keeps in which one worker adds the children of its coroutine. -/
structure Adds (s s' : State k ω) : Prop where
  ready : s'.ready = s.ready
  waiting : ∀ c, (s'.stage c).isWaiting = (s.stage c).isWaiting

theorem leads_running (h : Staged tree s) {c : ω} {rest : List ω}
    (hw : s.worker w = .adding c rest) :
    ∃ s', (system tree k).Leads s s' ∧ Staged tree s' ∧ Adds s s' ∧
      s'.worker = Function.update s.worker w (.running c (tree.gets c)) ∧
        s'.externalCoroQueue = s.externalCoroQueue ++ rest := by
  induction rest generalizing s with
  | nil =>
      have ha : Enabled s (.added w c) := hw
      exact ⟨_, leads_next ha, staged_next h ha, ⟨rfl, fun _ => rfl⟩, rfl,
        (List.append_nil _).symm⟩
  | cons child rest ih =>
      have ha : Enabled s (.addCoro w c child rest) := hw
      have hchild := ((h.adding w c _ hw).2 child).mp List.mem_cons_self
      obtain ⟨s', hleads, hstaged, hadds, hworker, hqueue⟩ :=
        ih (staged_next h ha) (Function.update_self _ _ _)
      refine ⟨s', ?_, hstaged, ⟨hadds.ready, fun d => ?_⟩, ?_, ?_⟩
      · exact (leads_next ha).trans hleads
      · rw [hadds.waiting]
        by_cases hd : d = child
        · subst hd
          simp [next, hchild.2, Stage.isWaiting]
        · simp [next, hd]
      · rw [hworker]
        exact Function.update_idem _ _ _
      · rw [hqueue]
        simp [next]

/-! ## Loading the workers -/

omit [DecidableEq ω] in
theorem waitingCount_lt [Fintype ω] {c : ω}
    (hc : (s.stage c).isWaiting = true)
    (hc' : (s'.stage c).isWaiting = false)
    (hothers : ∀ d, (s'.stage d).isWaiting = true →
      (s.stage d).isWaiting = true) :
    s'.waitingCount < s.waitingCount := by
  refine Finset.card_lt_card (Finset.ssubset_iff_of_subset ?_ |>.mpr ?_)
  · intro d hd
    simp only [Finset.mem_filter, Finset.mem_univ, true_and] at hd ⊢
    exact hothers d hd
  · exact ⟨c, by simpa using hc, by simp [hc']⟩

omit [DecidableEq ω] in
theorem Staged.stage_head (h : Staged tree s) {c : ω} {queue : List ω}
    (hqueue : s.externalCoroQueue = c :: queue) : s.stage c = .queued := by
  have hcollects := h.queued
  rw [hqueue] at hcollects
  exact hcollects.place_head

/-- An idle worker takes a coroutine that does not call `get` and runs it to
its end. -/
theorem Loaded.leads_leaf [Fintype ω] (hgets : tree.GetsAll)
    (h : Loaded tree s) (hw : s.worker w = .idle) {c : ω} {queue : List ω}
    (hqueue : s.externalCoroQueue = c :: queue) (hc : tree.gets c = []) :
    ∃ s', (system tree k).Leads s s' ∧ Loaded tree s' ∧
      s'.waitingCount < s.waitingCount := by
  have hchildren := children_eq_nil hgets hc
  have htake : Enabled s (.tryReceive w c queue) := ⟨hw, hqueue⟩
  let s₁ := next tree s (.tryReceive w c queue)
  have hadded : Enabled s₁ (.added w c) := by
    simp [s₁, Enabled, next, State.goto, hchildren]
  let s₂ := next tree s₁ (.added w c)
  have hreturn : Enabled s₂ (.returnValue w c) := by
    simp [s₂, Enabled, next, State.goto, hc]
  let s₃ := next tree s₂ (.returnValue w c)
  have hfinal : Enabled s₃ (.finalSuspend w c) := by
    simp [s₃, Enabled, next, State.goto, hchildren]
  let s₄ := next tree s₃ (.finalSuspend w c)
  have hworker : s₄.worker = s.worker := by
    simp [s₄, s₃, s₂, s₁, next, State.goto, ← hw]
  have hready : s₄.ready = Function.update s.ready c true := rfl
  have hstage : ∀ d, d ≠ c → s₄.stage d = s.stage d := by
    intro d hd
    simp [s₄, s₃, s₂, s₁, next, State.goto, hd]
  have hended : s₄.stage c = .ended := Function.update_self _ _ _
  refine ⟨s₄, ?_, ⟨?_, fun d hd => ?_, fun v => ?_⟩, ?_⟩
  · exact (((leads_next htake).trans (leads_next hadded)).trans
      (leads_next hreturn)).trans (leads_next hfinal)
  · exact staged_next (staged_next (staged_next
      (staged_next h.staged htake) hadded) hreturn) hfinal
  · by_cases hdc : d = c
    · rw [hdc]
      exact hc
    · rw [hready, Function.update_of_ne hdc] at hd
      exact h.leaves d hd
  · have hv := h.workers v
    unfold State.IsHeld at hv ⊢
    rwa [hworker]
  · refine waitingCount_lt (c := c) ?_ ?_ fun d hd => ?_
    · rw [h.staged.stage_head hqueue]
      rfl
    · rw [hended]
      rfl
    · by_cases hdc : d = c
      · rw [hdc, hended] at hd
        cases hd
      · rwa [hstage d hdc] at hd

theorem Loaded.leads_getter [Fintype ω] (h : Loaded tree s)
    (hw : s.worker w = .idle) {c : ω} {queue : List ω}
    (hqueue : s.externalCoroQueue = c :: queue) (hc : tree.gets c ≠ []) :
    ∃ s', (system tree k).Leads s s' ∧ Loaded tree s' ∧
      s'.waitingCount < s.waitingCount := by
  have htake : Enabled s (.tryReceive w c queue) := ⟨hw, hqueue⟩
  refine ⟨_, leads_next htake, ⟨staged_next h.staged htake, h.leaves,
    fun v => ?_⟩, ?_⟩
  · by_cases hv : v = w
    · subst hv
      exact .inr ⟨c, hc, .inl (Function.update_self _ _ _)⟩
    · have hother : (next tree s (.tryReceive w c queue)).worker v =
          s.worker v := Function.update_of_ne hv _ _
      have hold := h.workers v
      unfold State.IsHeld at hold ⊢
      rwa [hother]
  · refine waitingCount_lt (c := c) ?_ ?_ fun d hd => ?_
    · rw [h.staged.stage_head hqueue]
      rfl
    · simp [next, Stage.isWaiting]
    · by_cases hdc : d = c
      · subst hdc
        simp [next, Stage.isWaiting] at hd
      · simpa [next, hdc] using hd

/-- An idle worker takes the first coroutine of the queue. -/
theorem Loaded.leads_take [Fintype ω] (hgets : tree.GetsAll)
    (h : Loaded tree s) (hw : s.worker w = .idle)
    (hqueue : s.externalCoroQueue ≠ []) :
    ∃ s', (system tree k).Leads s s' ∧ Loaded tree s' ∧
      s'.waitingCount < s.waitingCount := by
  obtain ⟨c, queue, hcons⟩ := List.exists_cons_of_ne_nil hqueue
  by_cases hc : tree.gets c = []
  · exact h.leads_leaf hgets hw hcons hc
  · exact h.leads_getter hw hcons hc

omit [DecidableEq ω] in
/-- With an empty queue, a coroutine that calls `get` and is not added yet has
an ancestor that is held and has not added its children, one of which calls
`get`. -/
theorem Loaded.exists_adding (hgets : tree.GetsAll) (h : Loaded tree s)
    (hqueue : s.externalCoroQueue = []) {g : ω} (hg : tree.gets g ≠ [])
    (hstage : s.stage g = .unadded) :
    ∃ w c, s.worker w = .adding c (tree.children c) ∧
      ∃ d ∈ tree.children c, tree.gets d ≠ [] := by
  induction hdepth : tree.depth g generalizing g with
  | zero =>
      by_cases hroot : g = tree.root
      · exact absurd (hroot ▸ hstage) h.staged.root
      · obtain ⟨p, hp⟩ := tree.exists_parent g hroot
        rw [tree.depth_child p g hp] at hdepth
        exact absurd hdepth (Nat.succ_ne_zero _)
  | succ n ih =>
      have hroot : g ≠ tree.root := by
        rintro rfl
        exact h.staged.root hstage
      obtain ⟨p, hp⟩ := tree.exists_parent g hroot
      have hpgets := gets_ne_nil hgets hp
      rcases h.staged.unadded p g hp hstage with hun | hq | ⟨v, rest, hv⟩
      · have hpdepth := tree.depth_child p g hp
        exact ih hpgets hun (by omega)
      · have hmem := (h.staged.queued.2 p).mpr hq
        rw [hqueue] at hmem
        exact absurd hmem List.not_mem_nil
      · refine ⟨v, p, ?_, g, hp, hg⟩
        rcases h.workers v with hidle | ⟨c, -, hadding | ⟨hrunning, -⟩⟩
        · exact nomatch hidle.symm.trans hv
        · have heq := hadding.symm.trans hv
          obtain ⟨rfl, -⟩ := WorkerPc.adding.inj heq
          exact hadding
        · exact nomatch hrunning.symm.trans hv

omit [DecidableEq ω] in
/-- With an empty queue and an idle worker, not all coroutines that call `get`
have been added. -/
theorem Loaded.exists_unadded [Fintype ω] (h : Loaded tree s)
    (hw : s.worker w = .idle) (hqueue : s.externalCoroQueue = [])
    (hmany : k ≤ tree.getters.card) :
    ∃ g, tree.gets g ≠ [] ∧ s.stage g = .unadded := by
  by_contra hnone
  push Not at hnone
  have hruns : ∀ c ∈ tree.getters, ∃ v, v ≠ w ∧ s.stage c = .running v := by
    intro c hc
    have hcalls : tree.gets c ≠ [] := (Finset.mem_filter.mp hc).2
    cases hstage : s.stage c with
    | unadded => exact absurd hstage (hnone c hcalls)
    | queued =>
        have hmem := (h.staged.queued.2 c).mpr hstage
        rw [hqueue] at hmem
        exact absurd hmem List.not_mem_nil
    | ended => exact absurd (h.leaves c (h.staged.ready c hstage)) hcalls
    | running v =>
        refine ⟨v, ?_, rfl⟩
        rintro rfl
        have hcoroutine := (h.staged.runs v c).mpr hstage
        rw [hw] at hcoroutine
        exact nomatch hcoroutine
  have hworkers : Nonempty (Fin k) := ⟨w⟩
  choose! worker hne hstage using hruns
  have hcard := Finset.card_le_card_of_injOn worker (s := tree.getters)
    (t := Finset.univ.erase w) (fun c hc => by simp [hne c hc]) ?_
  · rw [Finset.card_erase_of_mem (Finset.mem_univ w), Finset.card_univ,
      Fintype.card_fin] at hcard
    have hpos := w.pos
    omega
  · intro c hc d hd heq
    have hcoroutine := (h.staged.runs _ c).mpr (hstage c hc)
    rw [heq, (h.staged.runs _ d).mpr (hstage d hd)] at hcoroutine
    exact (Option.some.inj hcoroutine).symm

/-- With an empty queue, a held coroutine adds its children, one of which calls
`get`. -/
theorem Loaded.leads_children [Fintype ω] (hgets : tree.GetsAll)
    (h : Loaded tree s) (hw : s.worker w = .idle)
    (hqueue : s.externalCoroQueue = []) (hmany : k ≤ tree.getters.card) :
    ∃ s', (system tree k).Leads s s' ∧ Loaded tree s' ∧
      s'.worker w = .idle ∧ s'.externalCoroQueue ≠ [] ∧
        s'.waitingCount = s.waitingCount := by
  obtain ⟨g, hg, hstage⟩ := h.exists_unadded hw hqueue hmany
  obtain ⟨v, c, hv, d, hd, hdgets⟩ := h.exists_adding hgets hqueue hg hstage
  obtain ⟨s', hleads, hstaged, hadds, hworker, hqueue'⟩ :=
    leads_running h.staged hv
  have hvw : w ≠ v := by
    rintro rfl
    exact nomatch hw.symm.trans hv
  refine ⟨s', hleads, ⟨hstaged, ?_, fun u => ?_⟩, ?_, ?_, ?_⟩
  · rw [hadds.ready]
    exact h.leaves
  · by_cases hu : u = v
    · subst hu
      refine .inr ⟨c, gets_ne_nil hgets hd, .inr ⟨?_, d, hgets c hd, hdgets⟩⟩
      rw [hworker, Function.update_self]
    · have hold := h.workers u
      unfold State.IsHeld at hold ⊢
      rwa [hworker, Function.update_of_ne hu]
  · rw [hworker, Function.update_of_ne hvw]
    exact hw
  · rw [hqueue', hqueue, List.nil_append]
    exact List.ne_nil_of_mem hd
  · unfold State.waitingCount
    congr 1
    ext e
    simp [hadds.waiting e]

/-- As long as a worker is idle, some run takes another coroutine out of the
queue. -/
theorem Loaded.leads_step [Fintype ω] (hgets : tree.GetsAll)
    (h : Loaded tree s) (hw : s.worker w = .idle)
    (hmany : k ≤ tree.getters.card) :
    ∃ s', (system tree k).Leads s s' ∧ Loaded tree s' ∧
      s'.waitingCount < s.waitingCount := by
  by_cases hqueue : s.externalCoroQueue = []
  · obtain ⟨s₁, hleads₁, h₁, hw₁, hqueue₁, hcount₁⟩ :=
      h.leads_children hgets hw hqueue hmany
    obtain ⟨s₂, hleads₂, h₂, hcount₂⟩ := h₁.leads_take hgets hw₁ hqueue₁
    exact ⟨s₂, hleads₁.trans hleads₂, h₂, hcount₁ ▸ hcount₂⟩
  · exact h.leads_take hgets hw hqueue

/-- All workers can be held at the same time. -/
theorem Loaded.leads_held [Fintype ω] (hgets : tree.GetsAll)
    (h : Loaded tree s) (hmany : k ≤ tree.getters.card) :
    ∃ s', (system tree k).Leads s s' ∧ Loaded tree s' ∧
      ∀ w, s'.IsHeld tree w := by
  induction hcount : s.waitingCount using Nat.strong_induction_on
    generalizing s with
  | _ n ih =>
    by_cases hall : ∀ w, s.IsHeld tree w
    · exact ⟨s, .refl s, h, hall⟩
    · push Not at hall
      obtain ⟨w, hw⟩ := hall
      have hidle := (h.workers w).resolve_right hw
      obtain ⟨s₁, hleads₁, h₁, hlt⟩ := h.leads_step hgets hidle hmany
      obtain ⟨s₂, hleads₂, h₂, hheld⟩ := ih _ (hcount ▸ hlt) h₁ rfl
      exact ⟨s₂, hleads₁.trans hleads₂, h₂, hheld⟩

/-! ## Blocking the workers -/

/-- A worker that runs a coroutine calls `get` on a child that has not
returned. -/
theorem leads_blocked_of_running (h : Staged tree s) {c d : ω} {rest : List ω}
    (hw : s.worker w = .running c rest) (hd : d ∈ rest)
    (hready : s.ready d = false) :
    ∃ s', (system tree k).Leads s s' ∧ Staged tree s' ∧ s'.IsBlocked w ∧
      s'.ready = s.ready ∧ ∀ v, v ≠ w → s'.worker v = s.worker v := by
  have ha : Enabled s (.callGet w c d rest) := ⟨hw, hd⟩
  exact ⟨_, leads_next ha, staged_next h ha,
    ⟨c, d, rest.erase d, Function.update_self _ _ _, hready⟩, rfl,
    fun v hv => Function.update_of_ne hv _ _⟩

theorem leads_blocked_of_held (h : Staged tree s)
    (hleaves : ∀ c, s.ready c = true → tree.gets c = [])
    (hheld : s.IsHeld tree w) :
    ∃ s', (system tree k).Leads s s' ∧ Staged tree s' ∧ s'.IsBlocked w ∧
      s'.ready = s.ready ∧ ∀ v, v ≠ w → s'.worker v = s.worker v := by
  obtain ⟨c, hc, hadding | ⟨hrunning, d, hd, hdgets⟩⟩ := hheld
  · obtain ⟨d, hd⟩ := List.exists_mem_of_ne_nil _ hc
    have hmem := tree.gets_subset c hd
    have hun := (((h.adding w c _ hadding).2 d).mp hmem).2
    obtain ⟨s₁, hleads₁, h₁, hadds, hworker, -⟩ := leads_running h hadding
    obtain ⟨s₂, hleads₂, h₂, hblocked, hready₂, hothers⟩ :=
      leads_blocked_of_running h₁
        (by rw [hworker, Function.update_self] :
          s₁.worker w = .running c (tree.gets c)) hd
        (by rw [hadds.ready, h.unready d (.inl hun)])
    refine ⟨s₂, hleads₁.trans hleads₂, h₂, hblocked,
      hready₂.trans hadds.ready, fun v hv => ?_⟩
    rw [hothers v hv, hworker, Function.update_of_ne hv]
  · refine leads_blocked_of_running h hrunning hd ?_
    by_contra hready
    exact hdgets (hleaves d (by simpa using hready))

/-- All held workers can be blocked, one after the other. -/
theorem leads_all_blocked (h : Staged tree s)
    (hleaves : ∀ c, s.ready c = true → tree.gets c = [])
    (hheld : ∀ w, s.IsHeld tree w) (ws : Finset (Fin k)) :
    ∃ s', (system tree k).Leads s s' ∧ Staged tree s' ∧
      s'.ready = s.ready ∧ (∀ w ∈ ws, s'.IsBlocked w) ∧
        ∀ w, w ∉ ws → s'.worker w = s.worker w := by
  induction ws using Finset.induction_on with
  | empty => exact ⟨s, .refl s, h, rfl, by simp, fun _ _ => rfl⟩
  | @insert w ws hw ih =>
      obtain ⟨s₁, hleads₁, h₁, hready₁, hblocked₁, hothers₁⟩ := ih
      have hheld₁ : s₁.IsHeld tree w := by
        have hold := hheld w
        unfold State.IsHeld at hold ⊢
        rwa [hothers₁ w hw]
      obtain ⟨s₂, hleads₂, h₂, hblocked₂, hready₂, hothers₂⟩ :=
        leads_blocked_of_held h₁ (by rwa [hready₁]) hheld₁
      refine ⟨s₂, hleads₁.trans hleads₂, h₂, hready₂.trans hready₁,
        fun v hv => ?_, fun v hv => ?_⟩
      · by_cases hvw : v = w
        · rw [hvw]
          exact hblocked₂
        · obtain ⟨c, d, rest, hpc, hd⟩ :=
            hblocked₁ v (Finset.mem_of_mem_insert_of_ne hv hvw)
          exact ⟨c, d, rest, (hothers₂ v hvw).trans hpc, by rwa [hready₂]⟩
      · rw [Finset.mem_insert, not_or] at hv
        rw [hothers₂ v hv.1, hothers₁ v hv.2]

omit [DecidableEq ω] in
/-- When all workers are blocked, the deepest coroutine that they run waits for
one in the queue. -/
theorem Staged.queue_ne_nil [Fintype ω] (h : Staged tree s)
    (hblocked : ∀ w, s.IsBlocked w) (w : Fin k) :
    s.externalCoroQueue ≠ [] := by
  intro hqueue
  have hdeep : ∀ n, ∃ v c, s.stage c = .running v ∧ n ≤ tree.depth c := by
    intro n
    induction n with
    | zero =>
        obtain ⟨c, child, rest, hpc, -⟩ := hblocked w
        exact ⟨w, c, h.stage_of_runs hpc rfl, Nat.zero_le _⟩
    | succ n ih =>
        obtain ⟨v, c, hstage, hdepth⟩ := ih
        obtain ⟨c', child, rest, hpc, hready⟩ := hblocked v
        have hruns := (h.runs v c).mpr hstage
        rw [hpc] at hruns
        obtain rfl : c' = c := Option.some.inj hruns
        have hgets := h.gets v
        rw [hpc] at hgets
        have hmem := tree.gets_subset c' hgets.1
        have hchild := tree.depth_child c' child hmem
        cases hchildStage : s.stage child with
        | running u => exact ⟨u, child, hchildStage, by omega⟩
        | queued =>
            have hin := (h.queued.2 child).mpr hchildStage
            rw [hqueue] at hin
            exact absurd hin List.not_mem_nil
        | ended =>
            rw [h.ready child hchildStage] at hready
            exact nomatch hready
        | unadded =>
            rcases h.unadded c' child hmem hchildStage with hc | hc | ⟨u, l, hu⟩
            · exact nomatch hc.symm.trans hstage
            · exact nomatch hc.symm.trans hstage
            · have hcu := h.stage_of_runs hu rfl
              obtain rfl := Stage.running.inj (hcu.symm.trans hstage)
              exact nomatch hu.symm.trans hpc
  obtain ⟨v, c, -, hdepth⟩ := hdeep (Finset.univ.sup tree.depth + 1)
  have hle := Finset.le_sup (f := tree.depth) (Finset.mem_univ c)
  omega

theorem exists_isWedged [Fintype ω] (hgets : tree.GetsAll)
    (hmany : k ≤ tree.getters.card) :
    ∃ s, (system tree k).Reachable s ∧ s.IsWedged := by
  have hreach : (system tree k).Reachable (initialState tree k) := .init rfl
  have hloaded : Loaded tree (initialState tree k) :=
    ⟨staged_of_reachable hreach, nofun, fun _ => .inl rfl⟩
  obtain ⟨s₁, hleads₁, h₁, hheld⟩ := hloaded.leads_held hgets hmany
  obtain ⟨s₂, hleads₂, h₂, -, hblocked, -⟩ :=
    leads_all_blocked h₁.staged h₁.leaves hheld Finset.univ
  have hall : ∀ w, s₂.IsBlocked w := fun w => hblocked w (Finset.mem_univ w)
  by_cases hk : Nonempty (Fin k)
  · obtain ⟨w⟩ := hk
    exact ⟨s₂, hreach.leads (hleads₁.trans hleads₂), hall,
      h₂.queue_ne_nil hall w⟩
  · exact ⟨_, hreach, fun w => absurd ⟨w⟩ hk, List.cons_ne_nil _ _⟩

/-- Fewer coroutines that call `get` than workers never wedge the scheduler.
If every coroutine calls `get` on all its children, the scheduler is never
wedged exactly when there are fewer of them. -/
theorem not_isWedged_iff_getters_lt [Fintype ω] (tree : CoroTree ω) (k : ℕ) :
    (tree.getters.card < k →
      ∀ s, (system tree k).Reachable s → ¬s.IsWedged) ∧
    (tree.GetsAll →
      ((∀ s, (system tree k).Reachable s → ¬s.IsWedged) ↔
        tree.getters.card < k)) := by
  constructor
  · exact fun hfew s hs => not_isWedged_of_getters_lt hfew hs
  · intro hgets
    constructor
    · intro hnever
      by_contra hmany
      obtain ⟨s, hs, hwedged⟩ := exists_isWedged hgets (not_lt.mp hmany)
      exact hnever s hs hwedged
    · exact fun hfew s hs => not_isWedged_of_getters_lt hfew hs

end Steps

/-! ## A parent and a child -/

/-- A coroutine adds one child and calls `get` on it. -/
def parentAndChild : CoroTree Bool where
  root := false
  children c := if c then [] else [true]
  gets c := if c then [] else [true]
  depth c := if c then 1 else 0
  depth_root := rfl
  depth_child := by decide
  nodup_children := by decide
  parent_unique := by decide
  exists_parent := by decide
  gets_subset := by decide

/-- The parent runs until it is inside `get`. -/
def getChild (k : ℕ) (h : 0 < k) : List (Action k Bool) :=
  [.tryReceive ⟨0, h⟩ false [], .addCoro ⟨0, h⟩ false true [],
    .added ⟨0, h⟩ false, .callGet ⟨0, h⟩ false true [true]]

/-- Two workers are enough for it. -/
theorem not_isWedged_getChild :
    ¬((system parentAndChild 2).after (initialState parentAndChild 2)
      (getChild 2 (by decide))).IsWedged := by
  refine (not_isWedged_iff_getters_lt parentAndChild 2).1 (by decide) _ ?_
  exact TransitionSystem.Executes.reachable (.init rfl) (by decide)

/-- One worker blocks in `get` while the child is in the queue. -/
theorem not_forall_not_isWedged :
    ¬∀ s, (system parentAndChild 1).Reachable s → ¬s.IsWedged := by
  intro h
  refine h ((system parentAndChild 1).after (initialState parentAndChild 1)
    (getChild 1 (by decide))) ?_ ⟨fun w => ?_, ?_⟩
  · exact TransitionSystem.Executes.reachable (.init rfl) (by decide)
  · obtain rfl : w = 0 := Subsingleton.elim _ _
    exact ⟨false, true, [], rfl, rfl⟩
  · exact List.cons_ne_nil _ _

end BlockingGet
end Ethreads
