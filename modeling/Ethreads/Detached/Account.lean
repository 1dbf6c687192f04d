import Ethreads.Detached.Model
import Ethreads.Support.Mutex
import Ethreads.Support.Tally

/-!
# The references to a detached task

Every task is counted: who owns it, which closures and which calls hold a
reference, and who runs its destructor.  The counts of a task balance in every
state, so that its destructor runs once, when nobody refers to it any more, and
a task that is not ready always has a closure that will be called again.
-/

namespace Ethreads
namespace Detached

open CoroTask (Completion Handle)

variable {ι τ T E : Type*} {noop : BitVec 64}

/-! ## Counting -/

section Counting

variable [DecidableEq ι]

namespace Pc

/-- The call has got task `i` and has not stored its closure yet. -/
def spawning (i : ι) : Pc ι → ℕ
  | start j | size j | pushBack j => if j = i then 1 else 0
  | lock o | sweep o _ | reset o _ _ | destroy o _ _ =>
      if o = some i then 1 else 0
  | _ => 0

/-- The call has stored the closure of task `i` and has not returned. -/
def spawned (i : ι) : Pc ι → ℕ
  | unlock o => if o = some i then 1 else 0
  | release j => if j = i then 1 else 0
  | _ => 0

/-- The closures of task `i` that the sweep has not called yet. -/
def pending (i : ι) : Pc ι → ℕ
  | sweep _ rest | reset _ _ rest | destroy _ _ rest => rest.count i
  | _ => 0

/-- The closure of task `i` is about to drop its reference. -/
def resetting (i : ι) : Pc ι → ℕ
  | reset _ j _ => if j = i then 1 else 0
  | _ => 0

/-- The thread runs the destructor of task `i`. -/
def destroys (i : ι) : Pc ι → ℕ
  | destroy _ j _ | destroyLast j => if j = i then 1 else 0
  | _ => 0

end Pc

/-- How far a destructor has come. -/
def phase : CoroTask.DestructorPc → ℕ
  | .idle => 0
  | .destroyed => 2
  | _ => 1

structure Census where
  owned : ℕ
  closures : ℕ
  pending : ℕ
  resetting : ℕ
  spawning : ℕ
  spawned : ℕ
  destroying : ℕ
  refs : ℕ
  ready : ℕ
  phase : ℕ

variable [Fintype τ]

def State.census (s : State ι τ T E) (i : ι) : Census where
  owned := (s.owned i).toNat
  closures := s.detached.count i
  pending := tally (Pc.pending i) s.pc
  resetting := tally (Pc.resetting i) s.pc
  spawning := tally (Pc.spawning i) s.pc
  spawned := tally (Pc.spawned i) s.pc
  destroying := tally (Pc.destroys i) s.pc
  refs := s.refs i
  ready := (s.task i).ready.toNat
  phase := phase (s.task i).destructor

end Counting

/-- How the counts of a task balance. -/
structure Census.Balanced (c : Census) : Prop where
  refs : c.refs =
    c.closures + c.pending + c.resetting + c.spawning + c.spawned
  closure : c.owned + c.closures + c.pending + c.resetting + c.spawning ≤ 1
  caller : c.owned + c.spawning + c.spawned ≤ 1
  destroying : c.destroying ≤ 1
  unreferenced : 0 < c.destroying ∨ 0 < c.phase → c.refs = 0 ∧ c.owned = 0
  running : c.phase = 1 → 0 < c.destroying
  kept : c.owned = 0 → c.refs = 0 → 0 < c.destroying ∨ c.phase = 2
  ready : c.ready = 0 →
    c.owned + c.closures + c.pending + c.spawning = 1

variable [DecidableEq ι] [DecidableEq τ] [Fintype τ]

/-- How the counts change when a thread moves. -/
structure Census.Moves (c d : Census) (i : ι) (p q : Pc ι) : Prop where
  pending : d.pending + p.pending i = c.pending + q.pending i
  resetting : d.resetting + p.resetting i = c.resetting + q.resetting i
  spawning : d.spawning + p.spawning i = c.spawning + q.spawning i
  spawned : d.spawned + p.spawned i = c.spawned + q.spawned i
  destroying : d.destroying + p.destroys i = c.destroying + q.destroys i

theorem moves_of_update {s : State ι τ T E} (s' : State ι τ T E) {t : τ}
    {p q : Pc ι} (i : ι) (hp : s.pc t = p)
    (hpc : s'.pc = Function.update s.pc t q) :
    Census.Moves (s.census i) (s'.census i) i p q := by
  have hmove : ∀ w : Pc ι → ℕ, tally w s'.pc + w p = tally w s.pc + w q := by
    intro w
    rw [hpc, ← hp]
    exact tally_update w s.pc t q
  exact ⟨hmove _, hmove _, hmove _, hmove _, hmove _⟩

/-- Everything but the program points. -/
structure Census.Same (c d : Census) : Prop where
  owned : d.owned = c.owned
  closures : d.closures = c.closures
  refs : d.refs = c.refs
  ready : d.ready = c.ready
  phase : d.phase = c.phase

theorem Census.Balanced.move {c d : Census} (h : c.Balanced)
    (hsame : Census.Same c d) {i : ι} {p q : Pc ι}
    (hm : Census.Moves c d i p q) (hpending : q.pending i = p.pending i)
    (hresetting : q.resetting i = p.resetting i)
    (hspawning : q.spawning i = p.spawning i)
    (hspawned : q.spawned i = p.spawned i)
    (hdestroys : q.destroys i = p.destroys i) : d.Balanced := by
  have hd : d = c := by
    obtain ⟨h1, h2, h3, h4, h5⟩ := hm
    obtain ⟨h6, h7, h8, h9, h10⟩ := hsame
    cases c
    cases d
    simp only [Census.mk.injEq] at *
    omega
  rwa [hd]

/-! ## The steps of a task -/

omit [DecidableEq ι] [DecidableEq τ] [Fintype τ] in
/-- A destructor begins when it is called, and goes on to its end. -/
theorem phase_next {h : Handle noop} {s : CoroTask.State Unit T E}
    {a : CoroTask.Action Unit T E} (ha : CoroTask.Enabled (fun _ => h) s a) :
    phase (CoroTask.next (fun _ => h) s a).destructor = phase s.destructor ∨
      a = .destruct ∧ phase s.destructor = 0 ∧
        phase (CoroTask.next (fun _ => h) s a).destructor = 1 ∨
      phase s.destructor = 1 ∧
        0 < phase (CoroTask.next (fun _ => h) s a).destructor := by
  cases a with
  | destruct => exact Or.inr (Or.inl ⟨rfl, by rw [ha.1]; rfl, rfl⟩)
  | foundUnstarted =>
      exact Or.inr (Or.inr ⟨by rw [ha.1]; rfl, Nat.zero_lt_one⟩)
  | foundStarted =>
      exact Or.inr (Or.inr ⟨by rw [ha.1]; rfl, Nat.zero_lt_one⟩)
  | foundFinal =>
      exact Or.inr (Or.inr ⟨by rw [ha.1]; rfl, Nat.zero_lt_one⟩)
  | destroy =>
      have hpc : s.destructor = .destroy := ha
      exact Or.inr (Or.inr ⟨by rw [hpc]; rfl, Nat.zero_lt_two⟩)
  | _ => exact Or.inl rfl

omit [DecidableEq τ] in
/-- Somebody runs the destructor. -/
theorem destroying_pos {s : State ι τ T E} {i : ι}
    (h : ∃ t, (s.pc t).destroying = some i) : 0 < (s.census i).destroying := by
  obtain ⟨t, ht⟩ := h
  refine tally_pos_iff.mpr ⟨t, ?_⟩
  cases hp : s.pc t <;> rw [hp] at ht <;> cases ht <;> simp [Pc.destroys]

theorem balanced_task {h : Handle noop} {s : State ι τ T E} {i j : ι}
    {a : CoroTask.Action Unit T E} (hb : (s.census i).Balanced)
    (ha : Enabled h s (.task j a)) :
    ((next h s (.task j a)).census i).Balanced := by
  by_cases hij : i = j
  swap
  · have hsame : (next h s (.task j a)).census i = s.census i := by
      simp only [State.census, next, Function.update_of_ne hij]
    rwa [hsame]
  subst hij
  have hready : (s.census i).ready ≤
      ((next h s (.task i a)).census i).ready := by
    simp only [State.census, next, Function.update_self]
    cases hr : (s.task i).ready with
    | false => exact Nat.zero_le _
    | true => rw [CoroTask.next_ready hr]
  have hphase := phase_next ha.1
  rw [show phase (CoroTask.next (fun _ => h) (s.task i) a).destructor =
    ((next h s (.task i a)).census i).phase by
      simp only [State.census, next, Function.update_self]] at hphase
  change ((next h s (.task i a)).census i).phase = (s.census i).phase ∨
    a = .destruct ∧ (s.census i).phase = 0 ∧
      ((next h s (.task i a)).census i).phase = 1 ∨
    (s.census i).phase = 1 ∧
      0 < ((next h s (.task i a)).census i).phase at hphase
  have hcalled : a = .destruct → 0 < (s.census i).destroying := by
    rintro rfl
    exact destroying_pos ha.2
  obtain ⟨b1, b2, b3, b4, b5, b6, b7, b8⟩ := hb
  constructor
  · exact b1
  · exact b2
  · exact b3
  · exact b4
  · intro hd
    refine b5 ?_
    rcases hphase with heq | ⟨hdestruct, -, -⟩ | ⟨hone, -⟩
    · rwa [heq] at hd
    · exact Or.inl (hcalled hdestruct)
    · exact Or.inr (by omega)
  · intro hone
    rcases hphase with heq | ⟨hdestruct, -, -⟩ | ⟨hold, -⟩
    · exact b6 (heq ▸ hone)
    · exact hcalled hdestruct
    · exact b6 hold
  · intro howned hrefs
    rcases b7 howned hrefs with hd | htwo
    · exact Or.inl hd
    · rcases hphase with heq | ⟨-, hzero, -⟩ | ⟨hone, -⟩
      · exact Or.inr (heq.trans htwo)
      · omega
      · omega
  · intro hnot
    exact b8 (by omega)

/-! ## The steps of the threads -/

theorem balanced_callSpawn {h : Handle noop} {s : State ι τ T E} {t : τ}
    {i j : ι} (hb : (s.census i).Balanced)
    (ha : Enabled h s (.callSpawn t j)) :
    ((next h s (.callSpawn t j)).census i).Balanced := by
  have hm := moves_of_update (next h s (.callSpawn t j)) i ha.1 rfl
  by_cases hij : j = i
  · subst hij
    obtain ⟨h1, h2, h3, h4, h5⟩ := hm
    simp only [Pc.pending, Pc.resetting, Pc.spawning, Pc.spawned, Pc.destroys,
      if_true] at h1 h2 h3 h4 h5
    have howned : (s.census j).owned = 1 := by
      simp only [State.census, ha.2, Bool.toNat_true]
    have howned' : ((next h s (.callSpawn t j)).census j).owned = 0 := by
      simp only [State.census, next, Function.update_self, Bool.toNat_false]
    have hrefs' : ((next h s (.callSpawn t j)).census j).refs = 1 := by
      simp only [State.census, next, Function.update_self]
    have hclosures : ((next h s (.callSpawn t j)).census j).closures =
        (s.census j).closures := rfl
    have hready : ((next h s (.callSpawn t j)).census j).ready =
        (s.census j).ready := rfl
    have hphase : ((next h s (.callSpawn t j)).census j).phase =
        (s.census j).phase := rfl
    obtain ⟨b1, b2, b3, b4, b5, b6, b7, b8⟩ := hb
    constructor <;> omega
  · refine hb.move ⟨?_, rfl, ?_, rfl, rfl⟩ hm rfl rfl ?_ rfl rfl
    · simp only [State.census, next, Function.update_of_ne (Ne.symm hij)]
    · simp only [State.census, next, Function.update_of_ne (Ne.symm hij)]
    · simp only [Pc.spawning, if_neg hij]

theorem balanced_sweep {s s' : State ι τ T E} {t : τ} {i : ι} {p : Pc ι}
    {o : Option ι} (hb : (s.census i).Balanced) (hp : s.pc t = p)
    (hs' : s' = { s.sweep t o with mutex := s'.mutex })
    (hpending : p.pending i = 0) (hresetting : p.resetting i = 0)
    (hspawning : (Pc.sweep o s.detached).spawning i = p.spawning i)
    (hspawned : p.spawned i = 0) (hdestroys : p.destroys i = 0) :
    (s'.census i).Balanced := by
  have hpc : s'.pc = Function.update s.pc t (.sweep o s.detached) := by
    rw [hs']
    rfl
  obtain ⟨h1, h2, h3, h4, h5⟩ := moves_of_update _ i hp hpc
  rw [hpending] at h1
  rw [hresetting] at h2
  rw [hspawning] at h3
  rw [hspawned] at h4
  rw [hdestroys] at h5
  simp only [Pc.pending, Pc.resetting, Pc.spawned, Pc.destroys] at h1 h2 h4 h5
  have hclosures : (s.census i).closures = s.detached.count i := rfl
  have hclosures' : (s'.census i).closures = 0 := by
    rw [hs']
    rfl
  have howned : (s'.census i).owned = (s.census i).owned := by
    rw [hs']
    rfl
  have hrefs : (s'.census i).refs = (s.census i).refs := by
    rw [hs']
    rfl
  have hready : (s'.census i).ready = (s.census i).ready := by
    rw [hs']
    rfl
  have hphase : (s'.census i).phase = (s.census i).phase := by
    rw [hs']
    rfl
  obtain ⟨b1, b2, b3, b4, b5, b6, b7, b8⟩ := hb
  constructor <;> omega

theorem balanced_checkTrue {h : Handle noop} {s : State ι τ T E} {t : τ}
    {i j : ι} {o : Option ι} {rest : List ι} (hb : (s.census i).Balanced)
    (ha : Enabled h s (.checkTrue t o j rest)) :
    ((next h s (.checkTrue t o j rest)).census i).Balanced := by
  have hm := moves_of_update (next h s (.checkTrue t o j rest)) i ha.1 rfl
  by_cases hij : j = i
  · subst hij
    obtain ⟨h1, h2, h3, h4, h5⟩ := hm
    simp only [Pc.pending, Pc.resetting, Pc.spawning, Pc.spawned, Pc.destroys,
      List.count_cons_self, if_true] at h1 h2 h3 h4 h5
    have hready : (s.census j).ready = 1 := by
      simp only [State.census, ha.2, Bool.toNat_true]
    obtain ⟨s1, s2, s3, s4, s5⟩ : Census.Same (s.census j)
        ((next h s (.checkTrue t o j rest)).census j) :=
      ⟨rfl, rfl, rfl, rfl, rfl⟩
    obtain ⟨b1, b2, b3, b4, b5, b6, b7, b8⟩ := hb
    constructor <;> omega
  · refine hb.move ⟨rfl, rfl, rfl, rfl, rfl⟩ hm ?_ ?_ rfl rfl rfl
    · simp only [Pc.pending, List.count_cons_of_ne hij]
    · simp only [Pc.resetting, if_neg hij]

theorem balanced_checkFalse {h : Handle noop} {s : State ι τ T E} {t : τ}
    {i j : ι} {o : Option ι} {rest : List ι} (hb : (s.census i).Balanced)
    (ha : Enabled h s (.checkFalse t o j rest)) :
    ((next h s (.checkFalse t o j rest)).census i).Balanced := by
  have hm := moves_of_update (next h s (.checkFalse t o j rest)) i ha.1 rfl
  by_cases hij : j = i
  · subst hij
    obtain ⟨h1, h2, h3, h4, h5⟩ := hm
    simp only [Pc.pending, Pc.resetting, Pc.spawning, Pc.spawned, Pc.destroys,
      List.count_cons_self] at h1 h2 h3 h4 h5
    have hclosures : ((next h s (.checkFalse t o j rest)).census j).closures =
        (s.census j).closures + 1 := by
      simp only [State.census, next, List.count_append,
        List.count_singleton_self]
    have howned : ((next h s (.checkFalse t o j rest)).census j).owned =
        (s.census j).owned := rfl
    have hrefs : ((next h s (.checkFalse t o j rest)).census j).refs =
        (s.census j).refs := rfl
    have hready : ((next h s (.checkFalse t o j rest)).census j).ready =
        (s.census j).ready := rfl
    have hphase : ((next h s (.checkFalse t o j rest)).census j).phase =
        (s.census j).phase := rfl
    obtain ⟨b1, b2, b3, b4, b5, b6, b7, b8⟩ := hb
    constructor <;> omega
  · refine hb.move ⟨rfl, ?_, rfl, rfl, rfl⟩ hm ?_ rfl rfl rfl rfl
    · simp only [State.census, next, List.count_append,
        List.count_singleton, beq_iff_eq, if_neg hij, Nat.add_zero]
    · simp only [Pc.pending, List.count_cons_of_ne hij]

theorem balanced_pushBack {h : Handle noop} {s : State ι τ T E} {t : τ}
    {i j : ι} (hb : (s.census i).Balanced)
    (ha : Enabled h s (.pushBack t j)) :
    ((next h s (.pushBack t j)).census i).Balanced := by
  have hm := moves_of_update (next h s (.pushBack t j)) i ha rfl
  by_cases hij : j = i
  · subst hij
    obtain ⟨h1, h2, h3, h4, h5⟩ := hm
    simp only [Pc.pending, Pc.resetting, Pc.spawning, Pc.spawned, Pc.destroys,
      if_true] at h1 h2 h3 h4 h5
    have hclosures : ((next h s (.pushBack t j)).census j).closures =
        (s.census j).closures + 1 := by
      simp only [State.census, next, List.count_append,
        List.count_singleton_self]
    have hrefs : ((next h s (.pushBack t j)).census j).refs =
        (s.census j).refs + 1 := by
      simp only [State.census, next, Function.update_self]
    have howned : ((next h s (.pushBack t j)).census j).owned =
        (s.census j).owned := rfl
    have hready : ((next h s (.pushBack t j)).census j).ready =
        (s.census j).ready := rfl
    have hphase : ((next h s (.pushBack t j)).census j).phase =
        (s.census j).phase := rfl
    obtain ⟨b1, b2, b3, b4, b5, b6, b7, b8⟩ := hb
    constructor <;> omega
  · have hne : ¬some j = some i := fun h => hij (Option.some.inj h)
    refine hb.move ⟨rfl, ?_, ?_, rfl, rfl⟩ hm rfl rfl ?_ ?_ rfl
    · simp only [State.census, next, List.count_append,
        List.count_singleton, beq_iff_eq, if_neg hij, Nat.add_zero]
    · simp only [State.census, next, Function.update_of_ne (Ne.symm hij)]
    · simp only [Pc.spawning, if_neg hij]
    · simp only [Pc.spawned, if_neg hne]

theorem balanced_drop {s : State ι τ T E} {t : τ} {i j : ι} {p last rest : Pc ι}
    (hb : (s.census i).Balanced) (hp : s.pc t = p)
    (hheld : p.resetting j + p.spawned j = 1)
    (hother : i ≠ j → p.resetting i = 0 ∧ p.spawned i = 0)
    (hpending : last.pending i = p.pending i ∧ rest.pending i = p.pending i)
    (hresetting : last.resetting i = 0 ∧ rest.resetting i = 0)
    (hspawning : last.spawning i = p.spawning i ∧
      rest.spawning i = p.spawning i)
    (hspawned : last.spawned i = 0 ∧ rest.spawned i = 0)
    (hdestroys : p.destroys i = 0 ∧ rest.destroys i = 0)
    (hlast : last.destroys i = if j = i then 1 else 0) :
    ((s.drop t j last rest).census i).Balanced := by
  have hm := moves_of_update (s.drop t j last rest) i hp rfl
  obtain ⟨h1, h2, h3, h4, h5⟩ := hm
  have howned : ((s.drop t j last rest).census i).owned =
      (s.census i).owned := rfl
  have hclosures : ((s.drop t j last rest).census i).closures =
      (s.census i).closures := rfl
  have hsame : ((s.drop t j last rest).census i).ready =
      (s.census i).ready := rfl
  have hphase : ((s.drop t j last rest).census i).phase =
      (s.census i).phase := rfl
  obtain ⟨b1, b2, b3, b4, b5, b6, b7, b8⟩ := hb
  by_cases hij : j = i
  · subst hij
    have hrefs : (s.census j).refs = s.refs j := rfl
    have hrefs' : ((s.drop t j last rest).census j).refs = s.refs j - 1 := by
      simp only [State.census, State.drop, Function.update_self]
    rw [if_pos rfl] at hlast
    by_cases hone : s.refs j = 1
    · rw [if_pos hone] at h1 h2 h3 h4 h5
      constructor <;> omega
    · rw [if_neg hone] at h1 h2 h3 h4 h5
      constructor <;> omega
  · have hzero := hother (Ne.symm hij)
    have hrefs' : ((s.drop t j last rest).census i).refs =
        (s.census i).refs := by
      simp only [State.census, State.drop, Function.update_of_ne (Ne.symm hij)]
    rw [if_neg hij] at hlast
    by_cases hone : s.refs j = 1
    · rw [if_pos hone] at h1 h2 h3 h4 h5
      constructor <;> omega
    · rw [if_neg hone] at h1 h2 h3 h4 h5
      constructor <;> omega

theorem balanced_destroyed {h : Handle noop} {s : State ι τ T E}
    {a : Action ι τ T E} {t : τ} {i j : ι} {p q : Pc ι}
    (hb : (s.census i).Balanced) (hp : s.pc t = p)
    (hs' : next h s a = s.goto t q)
    (hdestroyed : (s.task j).destructor = .destroyed)
    (hpending : q.pending i = p.pending i)
    (hresetting : q.resetting i = p.resetting i)
    (hspawning : q.spawning i = p.spawning i)
    (hspawned : q.spawned i = p.spawned i)
    (hdestroys : p.destroys i = if j = i then 1 else 0)
    (hleft : q.destroys i = 0) : ((next h s a).census i).Balanced := by
  rw [hs']
  have hm := moves_of_update (s.goto t q) i hp rfl
  by_cases hij : j = i
  · subst hij
    obtain ⟨h1, h2, h3, h4, h5⟩ := hm
    obtain ⟨s1, s2, s3, s4, s5⟩ : Census.Same (s.census j)
        ((s.goto t q).census j) := ⟨rfl, rfl, rfl, rfl, rfl⟩
    have hphase : (s.census j).phase = 2 := by
      simp only [State.census, hdestroyed, phase]
    rw [if_pos rfl] at hdestroys
    obtain ⟨b1, b2, b3, b4, b5, b6, b7, b8⟩ := hb
    constructor <;> omega
  · rw [if_neg hij] at hdestroys
    exact hb.move ⟨rfl, rfl, rfl, rfl, rfl⟩ hm hpending hresetting hspawning
      hspawned (hleft.trans hdestroys.symm)

theorem balanced_next {h : Handle noop} {s : State ι τ T E}
    {a : Action ι τ T E} {i : ι} (hb : (s.census i).Balanced)
    (ha : Enabled h s a) : ((next h s a).census i).Balanced := by
  have hgoto : ∀ {t : τ} {p q : Pc ι}, s.pc t = p →
      (next h s a).pc = Function.update s.pc t q →
      Census.Same (s.census i) ((next h s a).census i) →
      q.pending i = p.pending i → q.resetting i = p.resetting i →
      q.spawning i = p.spawning i → q.spawned i = p.spawned i →
      q.destroys i = p.destroys i → ((next h s a).census i).Balanced := by
    intro t p q hp hpc hsame
    exact hb.move hsame (moves_of_update _ i hp hpc)
  have hsome : ∀ {j : ι}, (if some j = some i then 1 else 0) =
      if j = i then 1 else 0 := by
    intro j
    simp only [Option.some.injEq]
  cases a with
  | task j b => exact balanced_task hb ha
  | callSpawn t j => exact balanced_callSpawn hb ha
  | callCollect t =>
      exact hgoto ha rfl ⟨rfl, rfl, rfl, rfl, rfl⟩ rfl rfl rfl rfl rfl
  | started t j =>
      exact hgoto ha.1 rfl ⟨rfl, rfl, rfl, rfl, rfl⟩ rfl rfl hsome rfl rfl
  | lock t o =>
      cases o with
      | none => exact balanced_sweep hb ha.1 rfl rfl rfl rfl rfl rfl
      | some j =>
          exact hgoto ha.1 rfl ⟨rfl, rfl, rfl, rfl, rfl⟩ rfl rfl hsome.symm
            rfl rfl
  | sizeFew t j =>
      exact hgoto ha.1 rfl ⟨rfl, rfl, rfl, rfl, rfl⟩ rfl rfl rfl rfl rfl
  | sizeMany t j => exact balanced_sweep hb ha.1 rfl rfl rfl hsome rfl rfl
  | checkTrue t o j rest => exact balanced_checkTrue hb ha
  | checkFalse t o j rest => exact balanced_checkFalse hb ha
  | reset t o j rest =>
      refine balanced_drop hb ha ?_ ?_ ⟨rfl, rfl⟩ ⟨rfl, rfl⟩ ⟨rfl, rfl⟩
        ⟨rfl, rfl⟩ ⟨rfl, rfl⟩ rfl
      · simp [Pc.resetting, Pc.spawned]
      · intro hij
        exact ⟨if_neg (Ne.symm hij), rfl⟩
  | destroyed t o j rest =>
      exact balanced_destroyed hb ha.1 rfl ha.2 rfl rfl rfl rfl rfl rfl
  | erase t o =>
      have hpc : s.pc t = .sweep o [] := ha
      cases o with
      | none =>
          exact hgoto hpc rfl ⟨rfl, rfl, rfl, rfl, rfl⟩ rfl rfl rfl rfl rfl
      | some j =>
          exact hgoto hpc rfl ⟨rfl, rfl, rfl, rfl, rfl⟩ rfl rfl hsome.symm rfl
            rfl
  | pushBack t j => exact balanced_pushBack hb ha
  | unlock t o =>
      have hpc : s.pc t = .unlock o := ha
      cases o with
      | none =>
          exact hgoto hpc rfl ⟨rfl, rfl, rfl, rfl, rfl⟩ rfl rfl rfl rfl rfl
      | some j =>
          exact hgoto hpc rfl ⟨rfl, rfl, rfl, rfl, rfl⟩ rfl rfl rfl hsome.symm
            rfl
  | release t j =>
      refine balanced_drop hb ha ?_ ?_ ⟨rfl, rfl⟩ ⟨rfl, rfl⟩ ⟨rfl, rfl⟩
        ⟨rfl, rfl⟩ ⟨rfl, rfl⟩ rfl
      · simp [Pc.resetting, Pc.spawned]
      · intro hij
        exact ⟨rfl, if_neg (Ne.symm hij)⟩
  | destroyedLast t j =>
      exact balanced_destroyed hb ha.1 rfl ha.2 rfl rfl rfl rfl rfl rfl

theorem balanced_reachable {h : Handle noop} {s : State ι τ T E}
    (hs : (system ι τ T E h).Reachable s) (i : ι) :
    (s.census i).Balanced := by
  refine hs.invariant (fun s => (s.census i).Balanced) ?_
    fun s a hb ha => balanced_next hb ha
  rintro s rfl
  have hzero : ∀ w : Pc ι → ℕ, w .idle = 0 →
      tally w (initialState ι τ T E).pc = 0 :=
    fun w hw => tally_eq_zero_iff.mpr fun _ => hw
  have hcensus : (initialState ι τ T E).census i =
      ⟨1, 0, 0, 0, 0, 0, 0, 0, 0, 0⟩ := by
    unfold State.census
    rw [hzero _ rfl, hzero _ rfl, hzero _ rfl, hzero _ rfl, hzero _ rfl]
    rfl
  rw [hcensus]
  constructor <;> simp

end Detached
end Ethreads
