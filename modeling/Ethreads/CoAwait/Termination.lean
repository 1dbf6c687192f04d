import Ethreads.CoAwait.Refinement
import Ethreads.Support.Variant
import Mathlib.Algebra.BigOperators.Group.Finset.Basic

/-!
# How long a run takes

Each step uses up a part of what was estimated for the coroutine that takes
it, and a coroutine that creates a task leaves a part of its own estimate to
it.  So the estimate for the root bounds the length of every run.
-/

namespace Ethreads
namespace CoAwait

open CoroTask (Completion)

universe u v

variable {V : Type u} {E : Type v} {k : ℕ}

/-- How many steps of a `co_await` have been taken. -/
def Pc.spent : Pc V E → ℕ
  | awaitSuspend _ => 1
  | setContinuation _ => 2
  | suspended _ | get _ => 3
  | _ => 0

/-- How many steps a coroutine that has left its body still takes at most. -/
def Pc.left : Pc V E → ℕ
  | destroying _ tasks => tasks.length + 4
  | setReady => 3
  | storeFinal _ => 2
  | transfer _ => 1
  | _ => 0

/-- How many steps a coroutine outside its body still takes at most. -/
def Task.rest (movedFrom : V → V) (x : Task V E) : ℕ :=
  match x.pc with
  | .initial => 1 + x.source.cost movedFrom Fin.elim0
  | p => p.left

/-- How many steps a coroutine and the tasks that it is going to create still
take at most. -/
def State.rank (movedFrom : V → V) (s : State k V E) (t : ℕ) : ℕ :=
  match (s.task t).pc.frame with
  | some f => (s.config movedFrom f).cost movedFrom - (s.task t).pc.spent
  | none => (s.task t).rest movedFrom

/-- How many steps the caller of `run` still takes. -/
def MainPc.rank : MainPc V E → ℕ
  | start => 3
  | get => 2
  | destroy _ => 1
  | returned _ => 0

def State.total (movedFrom : V → V) (s : State k V E) : ℕ :=
  s.main.rank + ∑ t ∈ Finset.range s.count, s.rank movedFrom t

def Action.agent : Action k V E → Option ℕ
  | start | getReturns _ | destroyRoot _ => none
  | resume _ t | create _ t _ _ _ _ | drop _ t _ _ | awaitReadyTrue _ t _
  | awaitReadyFalse _ t _ | exchangeFirst _ t _ | exchangeAgain _ t _
  | setContinuation _ t _ | continuationTaken _ t _ _ | alreadyReady _ t _
  | get _ t _ _ | returnValue _ t _ _ | throwException _ t _ _
  | destroyTask _ t _ _ _ | tasksDestroyed _ t _ | unhandledException _ t _
  | setReady _ t | storeFinal _ t _ | transferNoop _ t
  | transferTo _ t _ _ => some t

theorem sum_add_of_ne {n t : ℕ} {f g : ℕ → ℕ} (ht : t < n)
    (hne : ∀ i < n, i ≠ t → g i = f i) :
    ∑ i ∈ Finset.range n, g i + f t = ∑ i ∈ Finset.range n, f i + g t := by
  have hmem : t ∈ Finset.range n := Finset.mem_range.mpr ht
  have hrest : ∑ i ∈ (Finset.range n).erase t, g i =
      ∑ i ∈ (Finset.range n).erase t, f i := by
    refine Finset.sum_congr rfl fun i hi => ?_
    obtain ⟨hit, hi⟩ := Finset.mem_erase.mp hi
    exact hne i (Finset.mem_range.mp hi) hit
  rw [← Finset.add_sum_erase _ g hmem, ← Finset.add_sum_erase _ f hmem, hrest]
  omega

section Steps

variable {movedFrom : V → V} {s : State k V E} {a : Action k V E} {w : Fin k}
  {t : ℕ}

theorem rank_of_frame {f : Frame V E} (hf : (s.task t).pc.frame = some f) :
    s.rank movedFrom t =
      (s.config movedFrom f).cost movedFrom - (s.task t).pc.spent := by
  unfold State.rank
  rw [hf]

theorem rank_of_rest (hf : (s.task t).pc.frame = none) :
    s.rank movedFrom t = (s.task t).rest movedFrom := by
  unfold State.rank
  rw [hf]

variable (movedFrom s) in
/-- The estimate of a `co_await` covers its steps. -/
theorem cost_frame (b : Awaiting V E) :
    4 ≤ (s.config movedFrom b.frame).cost movedFrom := by
  have hcost := Config.cost_coAwait movedFrom b.index b.rest
    fun i => (s.task (b.tasks i)).slot movedFrom
  exact hcost ▸ Nat.le_add_right 4 _

/-- The estimate of a frame changes by the steps of its body only. -/
theorem cost_same (h : Sound s) (hf : Faithful movedFrom s)
    (ha : Enabled s a) {f : Frame V E} (ht : (s.task t).pc.frame = some f)
    (hne : a.advances ≠ some t) :
    ((next movedFrom s a).config movedFrom f).cost movedFrom =
      (s.config movedFrom f).cost movedFrom := by
  rcases config_kept h hf ha ht hne with
    hsame | ⟨n, i, rest, slots, hold, hnew⟩
  · rw [hsame]
  · rw [hold, hnew]
    exact Config.cost_start i rest slots

variable (movedFrom) in
theorem pc_next_of_ne (h : Sound s) (ha : Enabled s a)
    (hne : a.agent ≠ some t) :
    ((next movedFrom s a).task t).pc = (s.task t).pc ∨
      ∃ b, (s.task t).pc = .suspended b ∧
        ((next movedFrom s a).task t).pc = .get b := by
  have hset : ∀ (s : State k V E) (x : ℕ) (r : Task V E),
      r.pc = (s.task x).pc → ((s.set x r).task t).pc = (s.task t).pc :=
    fun s x r hr => apply_task_set s r Task.pc hr t
  have hother : ∀ (s : State k V E) (u : ℕ) (r : Task V E), some u ≠ some t →
      ((s.set u r).task t).pc = (s.task t).pc := by
    intro s u r hu
    rw [task_set_of_ne s r fun heq => hu (congrArg some heq.symm)]
  cases a with
  | start => exact Or.inl (hset s 0 _ rfl)
  | getReturns c => exact Or.inl (hset s 0 _ rfl)
  | destroyRoot c => exact Or.inl (hset s 0 _ rfl)
  | create w u b child rest tasks =>
      refine Or.inl ((hother _ u _ hne).trans ?_)
      refine hset s s.count (newTask u child b) ?_
      exact (h.owned.unused s.count (Nat.le_refl _)).pc.symm
  | drop w u rest tasks =>
      exact Or.inl ((hother _ u _ hne).trans (hset s _ _ rfl))
  | exchangeFirst w u b =>
      exact Or.inl ((hother _ u _ hne).trans (hset s _ _ rfl))
  | setContinuation w u b =>
      exact Or.inl ((hother _ u _ hne).trans (hset s _ _ rfl))
  | get w u b c =>
      exact Or.inl ((hother _ u _ hne).trans (hset s _ _ rfl))
  | destroyTask w u c x tasks =>
      exact Or.inl ((hother _ u _ hne).trans (hset s _ _ rfl))
  | transferTo w u v b =>
      by_cases hv : v = t
      · subst hv
        refine Or.inr ⟨b, ha.2, ?_⟩
        exact congrArg Task.pc (task_set_self (s.goto u .finished) _)
      · refine Or.inl ((hother _ v _ fun heq => hv (Option.some.inj heq)).trans
          ?_)
        exact hother s u _ hne
  | resume w u => exact Or.inl (hother s u _ hne)
  | awaitReadyTrue w u b => exact Or.inl (hother s u _ hne)
  | awaitReadyFalse w u b => exact Or.inl (hother s u _ hne)
  | exchangeAgain w u b => exact Or.inl (hother s u _ hne)
  | continuationTaken w u b v => exact Or.inl (hother s u _ hne)
  | alreadyReady w u b => exact Or.inl (hother s u _ hne)
  | returnValue w u v tasks => exact Or.inl (hother s u _ hne)
  | throwException w u e tasks => exact Or.inl (hother s u _ hne)
  | tasksDestroyed w u v => exact Or.inl (hother s u _ hne)
  | unhandledException w u e => exact Or.inl (hother s u _ hne)
  | setReady w u => exact Or.inl (hother s u _ hne)
  | storeFinal w u v => exact Or.inl (hother s u _ hne)
  | transferNoop w u => exact Or.inl (hother s u _ hne)

theorem advances_ne_of_agent_ne (hne : a.agent ≠ some t) :
    a.advances ≠ some t := by
  cases a <;> first | exact hne | exact nofun

/-- A coroutine that takes no step keeps its estimate. -/
theorem rank_next_of_ne (h : Sound s) (hf : Faithful movedFrom s)
    (ha : Enabled s a) (ht : t < s.count) (hne : a.agent ≠ some t) :
    (next movedFrom s a).rank movedFrom t = s.rank movedFrom t := by
  have hadvances := advances_ne_of_agent_ne hne
  have hframe := frame_same movedFrom h ha hadvances
  have hpc := pc_next_of_ne movedFrom h ha hne
  cases hold : (s.task t).pc.frame with
  | some f =>
      rw [hold] at hframe
      rw [rank_of_frame hframe, rank_of_frame hold,
        cost_same h hf ha hold hadvances]
      rcases hpc with hpc | ⟨b, hsuspended, hget⟩
      · rw [hpc]
      · rw [hsuspended, hget]
        rfl
  | none =>
      rw [hold] at hframe
      rw [rank_of_rest hframe, rank_of_rest hold]
      rcases hpc with hpc | ⟨b, hsuspended, -⟩
      · unfold Task.rest
        rw [hpc, source_next movedFrom ht]
      · rw [hsuspended] at hold
        cases hold

theorem rest_of_pc {x : Task V E} {p : Pc V E} (hp : x.pc = p)
    (hne : p ≠ .initial) : x.rest movedFrom = p.left := by
  unfold Task.rest
  rw [hp]
  cases p with
  | initial => exact absurd rfl hne
  | _ => rfl

/-- A step of a `co_await` that leaves the body where it is. -/
theorem rank_await (h : Sound s) (hf : Faithful movedFrom s)
    (ha : Enabled s a) {b : Awaiting V E} {p q : Pc V E}
    (hr : s.Runs w t p) (hp : p.frame = some b.frame)
    (hq : q.frame = some b.frame) (hlt : p.spent < q.spent)
    (hle : q.spent ≤ 4) (hne : a.advances ≠ some t)
    (hpc : ((next movedFrom s a).task t).pc = q) :
    (next movedFrom s a).rank movedFrom t < s.rank movedFrom t := by
  have hold : (s.task t).pc.frame = some b.frame := by
    rw [hr.2]
    exact hp
  have hnew : ((next movedFrom s a).task t).pc.frame = some b.frame := by
    rw [hpc]
    exact hq
  have hcost := cost_frame movedFrom s b
  rw [rank_of_frame hnew, rank_of_frame hold, cost_same h hf ha hold hne, hpc,
    hr.2]
  omega

theorem rank_left {p q : Pc V E} (hr : s.Runs w t p) (hp : p.frame = none)
    (hq : q.frame = none) (hne : p ≠ .initial) (hlt : q.left < p.left)
    (hqne : q ≠ .initial) (hpc : ((next movedFrom s a).task t).pc = q) :
    (next movedFrom s a).rank movedFrom t < s.rank movedFrom t := by
  have hold : (s.task t).pc.frame = none := by
    rw [hr.2]
    exact hp
  have hnew : ((next movedFrom s a).task t).pc.frame = none := by
    rw [hpc]
    exact hq
  rw [rank_of_rest hnew, rank_of_rest hold, rest_of_pc hpc hqne,
    rest_of_pc hr.2 hne]
  exact hlt

theorem rank_finish {n : ℕ} {c : Completion V E} {tasks : Fin n → ℕ}
    (hr : s.Runs w t (.running ⟨n, .finish c, tasks⟩))
    (hpc : ((next movedFrom s a).task t).pc =
      .destroying c (List.ofFn tasks)) :
    (next movedFrom s a).rank movedFrom t < s.rank movedFrom t := by
  have hold : (s.task t).pc.frame = some ⟨n, .finish c, tasks⟩ := by
    rw [hr.2]
    rfl
  have hnew : ((next movedFrom s a).task t).pc.frame = none := by
    rw [hpc]
    rfl
  rw [rank_of_rest hnew, rest_of_pc hpc nofun, rank_of_frame hold, hr.2]
  change (List.ofFn tasks).length + 4 < n + 5 - 0
  rw [List.length_ofFn]
  exact Nat.lt_succ_self _

/-- What a coroutine leaves to the task that it creates. -/
theorem rank_create (h : Sound s) (hf : Faithful movedFrom s) {n : ℕ}
    {b : Bool} {child : Body V E 0} {rest : Body V E (n + 1)}
    {tasks : Fin n → ℕ} (ha : Enabled s (.create w t b child rest tasks)) :
    s.rank movedFrom t =
      2 + child.cost movedFrom Fin.elim0 +
        (next movedFrom s (.create w t b child rest tasks)).rank movedFrom
          t := by
  have hold : (s.task t).pc.frame = some ⟨n, .create b child rest, tasks⟩ := by
    rw [ha.2]
    rfl
  have hpc : ((next movedFrom s (.create w t b child rest tasks)).task t).pc =
      .running ⟨n + 1, rest, Fin.cons s.count tasks⟩ :=
    congrArg Task.pc
      (task_set_self (s.set s.count (newTask t child b)) _)
  have hnew : ((next movedFrom s
      (.create w t b child rest tasks)).task t).pc.frame =
        some ⟨n + 1, rest, Fin.cons s.count tasks⟩ := by
    rw [hpc]
    rfl
  rw [rank_of_frame hold, rank_of_frame hnew, hpc, ha.2,
    config_create h hf ha]
  exact Config.cost_create b child rest _

variable (movedFrom s w) in
theorem rank_new (ht : t ≠ s.count) {n : ℕ} (b : Bool) (child : Body V E 0)
    (rest : Body V E (n + 1)) (tasks : Fin n → ℕ) :
    (next movedFrom s (.create w t b child rest tasks)).rank movedFrom
      s.count = 1 + child.cost movedFrom Fin.elim0 := by
  have htask : (next movedFrom s (.create w t b child rest tasks)).task
      s.count = newTask t child b := by
    change (((s.set s.count (newTask t child b)).goto t _).task s.count) = _
    unfold State.goto
    rw [task_set_of_ne _ _ ht.symm, task_set_self]
  unfold State.rank Task.rest
  rw [htask]
  rfl

/-- The step of a coroutine uses up a part of its estimate. -/
theorem rank_next_agent (h : Sound s) (hf : Faithful movedFrom s)
    (ha : Enabled s a) (ht : a.agent = some t) :
    (next movedFrom s a).rank movedFrom t < s.rank movedFrom t := by
  have hpc : ∀ (s : State k V E) (r : Task V E),
      ((s.set t r).task t).pc = r.pc :=
    fun s r => congrArg Task.pc (task_set_self s r)
  cases a with
  | start => cases ht
  | getReturns c => cases ht
  | destroyRoot c => cases ht
  | resume w u =>
      cases ht
      obtain ⟨-, hinitial⟩ := (h.queued.mem t).mp ha.2
      have hold : (s.task t).pc.frame = none := by
        rw [hinitial]
        rfl
      have hnew : ((next movedFrom s (.resume w t)).task t).pc.frame =
          some ⟨0, (s.task t).source, Fin.elim0⟩ :=
        congrArg Pc.frame (hpc s _)
      have hrest : (s.task t).rest movedFrom =
          1 + (s.task t).source.cost movedFrom Fin.elim0 := by
        unfold Task.rest
        rw [hinitial]
      rw [rank_of_frame hnew, rank_of_rest hold, hrest, config_begin,
        Config.cost_begin]
      omega
  | create w u b child rest tasks =>
      cases ht
      have hrank := rank_create h hf ha
      omega
  | drop w u rest tasks =>
      cases ht
      have hold : (s.task t).pc.frame = some ⟨_, .drop rest, tasks⟩ := by
        rw [ha.1.2]
        rfl
      have hnew : ((next movedFrom s (.drop w t rest tasks)).task t).pc =
          .running ⟨_, rest, Fin.tail tasks⟩ := hpc (s.destroy (tasks 0)) _
      have hframe : ((next movedFrom s (.drop w t rest tasks)).task
          t).pc.frame = some ⟨_, rest, Fin.tail tasks⟩ := by
        rw [hnew]
        rfl
      have hcost := Config.cost_drop movedFrom rest
        fun i => (s.task (tasks i)).slot movedFrom
      rw [rank_of_frame hframe, rank_of_frame hold, config_drop h hf ha, hnew,
        ha.1.2]
      change Config.cost movedFrom _ - 0 < Config.cost movedFrom
        ⟨_, .drop rest, fun i => (s.task (tasks i)).slot movedFrom⟩ - 0
      omega
  | awaitReadyTrue w u b =>
      cases ht
      exact rank_await (b := b) (q := .get b) h hf ha ha.1 rfl rfl
        (by decide : 0 < 3) (by decide : 3 ≤ 4) nofun (hpc s _)
  | awaitReadyFalse w u b =>
      cases ht
      exact rank_await (b := b) (q := .awaitSuspend b) h hf ha ha.1 rfl rfl
        (by decide : 0 < 1) (by decide : 1 ≤ 4) nofun (hpc s _)
  | exchangeFirst w u b =>
      cases ht
      refine rank_await (b := b) (q := .setContinuation b) h hf ha ha.1 rfl rfl
        (by decide : 1 < 2) (by decide : 2 ≤ 4) nofun ?_
      exact hpc _ _
  | exchangeAgain w u b =>
      cases ht
      exact rank_await (b := b) (q := .setContinuation b) h hf ha ha.1 rfl rfl
        (by decide : 1 < 2) (by decide : 2 ≤ 4) nofun (hpc s _)
  | setContinuation w u b =>
      cases ht
      refine rank_await (b := b) (q := .suspended b) h hf ha ha.1 rfl rfl
        (by decide : 2 < 3) (by decide : 3 ≤ 4) nofun ?_
      exact hpc _ _
  | continuationTaken w u b v => exact (h.not_continued ha.1 ha.2).elim
  | alreadyReady w u b =>
      cases ht
      exact rank_await (b := b) (q := .get b) h hf ha ha.1 rfl rfl
        (by decide : 2 < 3) (by decide : 3 ≤ 4) nofun (hpc s _)
  | get w u b c =>
      cases ht
      have hold : (s.task t).pc.frame = some b.frame := by
        rw [ha.1.2]
        rfl
      have hnew : ((next movedFrom s (.get w t b c)).task t).pc =
          .running (b.resumed c) := hpc (s.consume movedFrom b.awaited c) _
      have hframe : ((next movedFrom s (.get w t b c)).task t).pc.frame =
          some (b.resumed c) := by
        rw [hnew]
        rfl
      have hcost : (s.config movedFrom b.frame).cost movedFrom =
          4 + Config.cost movedFrom
            ⟨b.size, b.rest ((s.task b.awaited).slot movedFrom).value,
              Function.update (fun i => (s.task (b.tasks i)).slot movedFrom)
                b.index (((s.task b.awaited).slot movedFrom).consume
                  movedFrom)⟩ :=
        Config.cost_coAwait movedFrom b.index b.rest _
      rw [rank_of_frame hframe, rank_of_frame hold, config_get h hf ha, hnew,
        ha.1.2]
      change Config.cost movedFrom _ - 0 <
        (s.config movedFrom b.frame).cost movedFrom - 3
      omega
  | returnValue w u v tasks =>
      cases ht
      exact rank_finish ha (hpc s _)
  | throwException w u e tasks =>
      cases ht
      exact rank_finish ha (hpc s _)
  | destroyTask w u c x tasks =>
      cases ht
      refine rank_left (q := .destroying c tasks) ha.1 rfl rfl nofun
        (Nat.lt_succ_self _) nofun ?_
      exact hpc _ _
  | tasksDestroyed w u v =>
      cases ht
      exact rank_left (q := .setReady) ha rfl rfl nofun (Nat.lt_succ_self 3)
        nofun (hpc s _)
  | unhandledException w u e =>
      cases ht
      exact rank_left (q := .setReady) ha rfl rfl nofun (Nat.lt_succ_self 3)
        nofun (hpc s _)
  | setReady w u =>
      cases ht
      exact rank_left (q := .storeFinal _) ha rfl rfl nofun
        (Nat.lt_succ_self 2) nofun (hpc s _)
  | storeFinal w u v =>
      cases ht
      exact rank_left (q := .transfer v) ha rfl rfl nofun (Nat.lt_succ_self 1)
        nofun (hpc s _)
  | transferNoop w u =>
      cases ht
      exact rank_left (q := .finished) ha rfl rfl nofun Nat.zero_lt_one nofun
        (hpc s _)
  | transferTo w u v b =>
      cases ht
      have hvu : t ≠ v := by
        rintro rfl
        cases ha.2.symm.trans ha.1.2
      refine rank_left (q := .finished) ha.1 rfl rfl nofun Nat.zero_lt_one
        nofun ?_
      exact (congrArg Task.pc (task_set_of_ne _ _ hvu)).trans (hpc s _)

theorem agent_lt_count (h : Sound s) (ha : Enabled s a)
    (ht : a.agent = some t) : t < s.count := by
  cases a with
  | start => cases ht
  | getReturns c => cases ht
  | destroyRoot c => cases ht
  | resume w u =>
      cases ht
      exact h.owned.lt_count_of_started ((h.queued.mem t).mp ha.2).1
  | _ =>
      cases ht
      first
      | exact h.runs_lt_count ha
      | exact h.runs_lt_count ha.1

theorem main_next (ha : a.agent = some t) :
    (next movedFrom s a).main = s.main := by
  cases a with
  | start => cases ha
  | getReturns c => cases ha
  | destroyRoot c => cases ha
  | _ => rfl

/-- Each step uses up a part of the estimate. -/
theorem total_next (h : Sound s) (hf : Faithful movedFrom s)
    (ha : Enabled s a) :
    (next movedFrom s a).total movedFrom < s.total movedFrom := by
  unfold State.total
  cases hagent : a.agent with
  | none =>
      have hsum : ∑ t ∈ Finset.range s.count,
          (next movedFrom s a).rank movedFrom t =
            ∑ t ∈ Finset.range s.count, s.rank movedFrom t := by
        refine Finset.sum_congr rfl fun t ht => ?_
        refine rank_next_of_ne h hf ha (Finset.mem_range.mp ht) ?_
        rw [hagent]
        exact nofun
      have hmain : (next movedFrom s a).main.rank < s.main.rank ∧
          (next movedFrom s a).count = s.count := by
        cases a with
        | start =>
            rw [show s.main = .start from ha]
            exact ⟨Nat.lt_succ_self 2, rfl⟩
        | getReturns c =>
            rw [ha.1]
            exact ⟨Nat.lt_succ_self 1, rfl⟩
        | destroyRoot c =>
            rw [ha.1]
            exact ⟨Nat.zero_lt_one, rfl⟩
        | _ => cases hagent
      rw [hmain.2, hsum]
      exact Nat.add_lt_add_right hmain.1 _
  | some t =>
      have hlt := agent_lt_count h ha hagent
      have hrank := rank_next_agent h hf ha hagent
      have hsum := sum_add_of_ne (f := s.rank movedFrom)
        (g := (next movedFrom s a).rank movedFrom) hlt fun u hu hut =>
          rank_next_of_ne h hf ha hu fun heq =>
            hut (Option.some.inj (heq.symm.trans hagent))
      rw [main_next hagent]
      cases a with
      | create w u b child rest tasks =>
          cases hagent
          have hnew := rank_new movedFrom s w (Nat.ne_of_lt hlt) b child rest
            tasks
          have hcreate := rank_create h hf ha
          have hcount : (next movedFrom s
              (.create w t b child rest tasks)).count = s.count + 1 := rfl
          rw [hcount, Finset.sum_range_succ, hnew]
          omega
      | _ =>
          change s.main.rank + ∑ u ∈ Finset.range s.count, _ < _
          omega

end Steps

/-! ## The caller of `run` -/

/-- What the caller of `run` gets is what the root evaluates to. -/
structure Returns (movedFrom : V → V) (root : Body V E 0)
    (s : State k V E) : Prop where
  source : (s.task 0).source = root
  pending : s.main = .get → ((s.task 0).slot movedFrom).pending = true
  destroy : ∀ c, s.main = .destroy c → c = root.eval movedFrom Fin.elim0
  returned : ∀ c, s.main = .returned c → c = root.eval movedFrom Fin.elim0

theorem returns_next {movedFrom : V → V} {root : Body V E 0}
    {s : State k V E} {a : Action k V E} (h : Sound s)
    (hf : Faithful movedFrom s) (hr : Returns movedFrom root s)
    (ha : Enabled s a) : Returns movedFrom root (next movedFrom s a) := by
  have hsource := (source_next movedFrom (a := a)
    h.owned.pos).trans hr.source
  have hother : a.touched ≠ some 0 → (next movedFrom s a).main = s.main →
      Returns movedFrom root (next movedFrom s a) := by
    intro htouched hmain
    have hslot := slot_next h hf ha h.owned.pos htouched
    refine ⟨hsource, ?_, ?_, ?_⟩
    · rw [hslot, hmain]
      exact hr.pending
    · rw [hmain]
      exact hr.destroy
    · rw [hmain]
      exact hr.returned
  have howned : ∀ {t x : ℕ}, s.Owns t x → some x ≠ some 0 := by
    intro t x hx heq
    rw [Option.some.inj heq] at hx
    exact absurd hx.lt (Nat.not_lt_zero t)
  cases a with
  | start =>
      have hmain : s.main = .start := ha
      refine ⟨hsource, fun _ => ?_, nofun, nofun⟩
      have hstarted : (s.task 0).started = false := by
        rw [h.root, hmain]
        rfl
      have hconsumed : (s.task 0).consumed = false := by
        by_contra hnot
        rw [Bool.not_eq_false] at hnot
        have hresult := (hf.settled 0).consumed hnot
        rw [(h.ok 0).result, (h.ok 0).initial hstarted] at hresult
        cases hresult
      have htask : (next movedFrom s .start).task 0 =
          { s.task 0 with started := true } := by
        change (s.set 0 { s.task 0 with started := true }).task 0 = _
        exact task_set_self ..
      rw [htask]
      unfold Task.slot
      rw [hconsumed]
      rfl
  | getReturns c =>
      have hpending := hr.pending ha.1
      have hconsumed : (s.task 0).consumed = false := by
        unfold Task.slot at hpending
        rw [Bool.and_eq_true, Bool.not_eq_true'] at hpending
        exact hpending.2
      have hc := (hf.settled 0).result c ha.2 hconsumed
      unfold Task.promised at hc
      rw [hr.source] at hc
      refine ⟨hsource, nofun, ?_, nofun⟩
      intro d hd
      cases hd
      exact hc
  | destroyRoot c =>
      refine ⟨hsource, nofun, nofun, ?_⟩
      intro d hd
      cases hd
      exact hr.destroy c ha.1
  | exchangeFirst w t b =>
      exact hother (howned (h.owns_awaited ha.1 rfl)) rfl
  | get w t b c => exact hother (howned (h.owns_awaited ha.1 rfl)) rfl
  | _ => exact hother nofun rfl

theorem returns_reachable {movedFrom : V → V} {root : Body V E 0}
    {s : State k V E} (hs : (system movedFrom k root).Reachable s) :
    Returns movedFrom root s := by
  refine hs.invariant_of (J := fun s => Sound s ∧ Faithful movedFrom s)
    (Returns movedFrom root)
    (fun s hs => ⟨sound_reachable hs, faithful_reachable hs⟩) ?_
    fun s a hJ hr ha => returns_next hJ.1 hJ.2 hr ha
  rintro s rfl
  exact ⟨rfl, nofun, nofun, nofun⟩

/-- A run uses up a part of the estimate with each of its steps. -/
theorem length_add_total_le {movedFrom : V → V} {root : Body V E 0}
    {s : State k V E} (hs : (system movedFrom k root).Reachable s)
    {l : List (Action k V E)} (hl : (system movedFrom k root).Executes s l) :
    l.length + ((system movedFrom k root).after s l).total movedFrom ≤
      s.total movedFrom := by
  refine hl.length_add_le (I := (system movedFrom k root).Reachable)
    (fun s => s.total movedFrom) (fun s a hs ha => .step hs ha trivial)
    (fun s a hs ha => ?_) hs
  exact total_next (sound_reachable hs) (faithful_reachable hs) ha

theorem total_initialState (movedFrom : V → V) (root : Body V E 0) :
    (initialState k root).total movedFrom =
      root.cost movedFrom Fin.elim0 + 4 := by
  have hrank : (initialState k root).rank movedFrom 0 =
      1 + root.cost movedFrom Fin.elim0 := rfl
  have hcount : (initialState k root).count = 1 := rfl
  unfold State.total
  rw [hcount, Finset.sum_range_one, hrank]
  change 3 + (1 + root.cost movedFrom Fin.elim0) = _
  omega

/-- What `run` returns, if it does, is what its coroutine evaluates to,
whatever the workers do, and the steps of all runs, waiting not counted, are
bounded by what the body costs. -/
theorem run_returns_eval {movedFrom : V → V} {root : Body V E 0}
    {l : List (Action k V E)}
    (hl : (system movedFrom k root).Executes (initialState k root) l) :
    (∀ c, ((system movedFrom k root).after (initialState k root) l).main =
      .returned c → c = root.eval movedFrom Fin.elim0) ∧
        l.length ≤ root.cost movedFrom Fin.elim0 + 4 := by
  have hinit : (system movedFrom k root).Reachable (initialState k root) :=
    .init rfl
  constructor
  · exact (returns_reachable (hl.reachable hinit)).returned
  · have hle := length_add_total_le hinit hl
    rw [total_initialState] at hle
    exact (Nat.le_add_right _ _).trans hle

/-- The sum of two results, or the first exception. -/
def addCompletions :
    Completion ℕ String → Completion ℕ String → Completion ℕ String
  | .value a, .value b => .value (a + b)
  | .value _, .exception e => .exception e
  | .exception e, _ => .exception e

/-- The results of two tasks are awaited, the older one first. -/
def awaitBoth : Body ℕ String 2 :=
  .coAwait 1 fun a => .coAwait 0 fun b => .finish (addCompletions a b)

/-- A coroutine that starts one task, creates another, and adds their
results. -/
def sumBody : Body ℕ String 0 :=
  .create true (.finish (.value 2))
    (.create false (.finish (.value 3)) awaitBoth)

def sumTasks : Fin 2 → ℕ :=
  Fin.cons 2 (Fin.cons 1 Fin.elim0)

/-- The first `co_await`, and the second one. -/
def awaitFirst : Awaiting ℕ String :=
  ⟨2, 1, fun a => .coAwait 0 fun b => .finish (addCompletions a b), sumTasks⟩

def awaitSecond : Awaiting ℕ String :=
  ⟨2, 0, fun b => .finish (addCompletions (.value 2) b), sumTasks⟩

/-- One worker runs them all. -/
def sumRun : List (Action 1 ℕ String) :=
  [.start, .resume 0 0,
    .create 0 0 true (.finish (.value 2))
      (.create false (.finish (.value 3)) awaitBoth) Fin.elim0,
    .create 0 0 false (.finish (.value 3)) awaitBoth (Fin.cons 1 Fin.elim0),
    .awaitReadyFalse 0 0 awaitFirst, .exchangeAgain 0 0 awaitFirst,
    .setContinuation 0 0 awaitFirst, .resume 0 1,
    .returnValue 0 1 2 Fin.elim0, .tasksDestroyed 0 1 2, .setReady 0 1,
    .storeFinal 0 1 (some 0), .transferTo 0 1 0 awaitFirst,
    .get 0 0 awaitFirst (.value 2), .awaitReadyFalse 0 0 awaitSecond,
    .exchangeFirst 0 0 awaitSecond, .setContinuation 0 0 awaitSecond,
    .resume 0 2, .returnValue 0 2 3 Fin.elim0, .tasksDestroyed 0 2 3,
    .setReady 0 2, .storeFinal 0 2 (some 0), .transferTo 0 2 0 awaitSecond,
    .get 0 0 awaitSecond (.value 3), .returnValue 0 0 5 sumTasks,
    .destroyTask 0 0 (.value 5) 2 [1], .destroyTask 0 0 (.value 5) 1 [],
    .tasksDestroyed 0 0 5, .setReady 0 0, .storeFinal 0 0 none,
    .transferNoop 0 0, .getReturns (.value 5), .destroyRoot (.value 5)]

theorem executes_sumRun :
    (system (fun _ => 0) 1 sumBody).Executes (initialState 1 sumBody)
      sumRun := by
  refine ⟨rfl, ⟨rfl, by decide⟩, ⟨rfl, rfl⟩, ⟨rfl, rfl⟩, ⟨⟨rfl, rfl⟩, rfl⟩,
    ⟨⟨rfl, rfl⟩, rfl⟩, ⟨⟨rfl, rfl⟩, rfl⟩, ⟨rfl, by decide⟩, ⟨rfl, rfl⟩,
    ⟨rfl, rfl⟩, ⟨rfl, rfl⟩, ⟨rfl, rfl⟩, ⟨⟨rfl, rfl⟩, rfl⟩, ⟨⟨rfl, rfl⟩, rfl⟩,
    ⟨⟨rfl, rfl⟩, rfl⟩, ⟨⟨rfl, rfl⟩, rfl⟩, ⟨⟨rfl, rfl⟩, rfl⟩,
    ⟨rfl, by decide⟩, ⟨rfl, rfl⟩, ⟨rfl, rfl⟩, ⟨rfl, rfl⟩, ⟨rfl, rfl⟩,
    ⟨⟨rfl, rfl⟩, rfl⟩, ⟨⟨rfl, rfl⟩, rfl⟩, ⟨rfl, rfl⟩, ⟨⟨rfl, rfl⟩, by decide⟩,
    ⟨⟨rfl, rfl⟩, by decide⟩, ⟨rfl, rfl⟩, ⟨rfl, rfl⟩, ⟨rfl, rfl⟩, ⟨rfl, rfl⟩,
    ⟨rfl, rfl⟩, ⟨rfl, by decide⟩, trivial⟩

theorem run_returns_sum :
    (∀ c, ((system (fun _ => 0) 1 sumBody).after (initialState 1 sumBody)
      sumRun).main = .returned c → c = sumBody.eval (fun _ => 0) Fin.elim0) ∧
        sumRun.length ≤ sumBody.cost (fun _ => 0) Fin.elim0 + 4 :=
  run_returns_eval executes_sumRun

end CoAwait
end Ethreads
