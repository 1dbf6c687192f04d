import Ethreads.Detached.Lifetime
import Mathlib.Data.Set.Card

/-!
# What a sweep leaves

A sweep keeps a closure only if its task was not ready when the sweep began.
Since `spawn_detached` sweeps a list that has grown long, the list is never
much longer than the number of tasks that are running at the same time.
-/

namespace Ethreads
namespace Detached

open CoroTask (Completion Handle)

variable {ι τ T E : Type*} [DecidableEq ι] [DecidableEq τ]
  {noop : BitVec 64} {h : Handle noop} {s : State ι τ T E}

/-! ## Mutual exclusion -/

omit [DecidableEq ι] in
theorem guards_move {s s' : State ι τ T E}
    (hguards : Guards Pc.holdsMutex s.mutex s.pc) {t : τ} {p q : Pc ι}
    (hp : s.pc t = p) (hpc : s'.pc = Function.update s.pc t q)
    (hmutex : s'.mutex = s.mutex) (hq : q.holdsMutex = p.holdsMutex) :
    Guards Pc.holdsMutex s'.mutex s'.pc := by
  rw [hpc, hmutex]
  exact hguards.stay (by rw [hp, hq])

theorem guards_next {a : Action ι τ T E}
    (hguards : Guards Pc.holdsMutex s.mutex s.pc) (ha : Enabled h s a) :
    Guards Pc.holdsMutex (next h s a).mutex (next h s a).pc := by
  cases a with
  | task i b => exact hguards
  | callSpawn t i => exact guards_move hguards ha.1 rfl rfl rfl
  | callCollect t => exact guards_move hguards ha rfl rfl rfl
  | started t i => exact guards_move hguards ha.1 rfl rfl rfl
  | lock t o => cases o <;> exact hguards.enter ha.2 rfl
  | sizeFew t i => exact guards_move hguards ha.1 rfl rfl rfl
  | sizeMany t i => exact guards_move hguards ha.1 rfl rfl rfl
  | checkTrue t o i rest => exact guards_move hguards ha.1 rfl rfl rfl
  | checkFalse t o i rest => exact guards_move hguards ha.1 rfl rfl rfl
  | reset t o i rest =>
      refine guards_move hguards ha rfl rfl ?_
      split <;> rfl
  | destroyed t o i rest => exact guards_move hguards ha.1 rfl rfl rfl
  | erase t o =>
      refine guards_move hguards ha rfl rfl ?_
      cases o <;> rfl
  | pushBack t i => exact guards_move hguards ha rfl rfl rfl
  | unlock t o =>
      have hpc : s.pc t = .unlock o := ha
      refine hguards.leave (by rw [hpc]; rfl) ?_
      cases o <;> rfl
  | release t i =>
      refine guards_move hguards ha rfl rfl ?_
      split <;> rfl
  | destroyedLast t i => exact guards_move hguards ha.1 rfl rfl rfl

theorem guards_reachable (hs : (system ι τ T E h).Reachable s) :
    Guards Pc.holdsMutex s.mutex s.pc := by
  refine hs.invariant (fun s => Guards Pc.holdsMutex s.mutex s.pc) ?_
    fun s a hguards ha => guards_next hguards ha
  rintro s rfl t
  exact iff_of_false nofun nofun

/-! ## The closures that are kept -/

namespace Pc

/-- The thread sweeps, and has these closures still to call. -/
def sweeping : Pc ι → Option (List ι)
  | sweep _ rest | reset _ _ rest | destroy _ _ rest => some rest
  | _ => none

/-- The list holds nothing but what the last sweep has kept. -/
def swept : Pc ι → Bool
  | sweep _ _ | reset _ _ _ | destroy _ _ _ | unlock none => true
  | _ => false

end Pc

omit [DecidableEq ι] in
theorem holdsMutex_of_swept {p : Pc ι} (hp : p.swept = true) :
    p.holdsMutex = true := by
  cases p <;> first | rfl | cases hp

/-- The tasks of the closures that are kept were not ready. -/
structure Kept (s : State ι τ T E) : Prop where
  ready : ∀ i, s.atSweep i = true → (s.task i).ready = true
  unready : ∀ t, (s.pc t).swept = true →
    ∀ i ∈ s.detached, s.atSweep i = false

def Action.thread : Action ι τ T E → Option τ
  | task _ _ => none
  | callSpawn t _ | callCollect t | started t _ | lock t _ | sizeFew t _
  | sizeMany t _ | checkTrue t _ _ _ | checkFalse t _ _ _ | reset t _ _ _
  | destroyed t _ _ _ | erase t _ | pushBack t _ | unlock t _ | release t _
  | destroyedLast t _ => some t

theorem pc_next_of_ne {a : Action ι τ T E} {u : τ}
    (hu : a.thread ≠ some u) : (next h s a).pc u = s.pc u := by
  have hother : ∀ {t : τ} {q : Pc ι}, some t ≠ some u →
      Function.update s.pc t q u = s.pc u :=
    fun htu => Function.update_of_ne (fun h => htu (congrArg some h.symm)) _ _
  cases a with
  | task i b => rfl
  | lock t o => cases o <;> exact hother hu
  | _ => exact hother hu

/-- While a thread holds the mutex no other thread changes the list. -/
theorem list_next {a : Action ι τ T E} {u : τ}
    (hguards : Guards Pc.holdsMutex s.mutex s.pc) (hu : s.mutex = some u)
    (ha : Enabled h s a) (hthread : a.thread ≠ some u) :
    (next h s a).detached = s.detached ∧
      (next h s a).atSweep = s.atSweep := by
  have houtside : ∀ {t : τ} {p : Pc ι}, s.pc t = p → p.holdsMutex = true →
      some t ≠ some u → False := by
    intro t p hp hholds htu
    have ht := (hguards t).mp (by rw [hp]; exact hholds)
    exact htu (ht.symm.trans hu)
  cases a with
  | lock t o => cases ha.2.symm.trans hu
  | sizeMany t i => exact (houtside ha.1 rfl hthread).elim
  | checkFalse t o i rest => exact (houtside ha.1 rfl hthread).elim
  | pushBack t i => exact (houtside ha rfl hthread).elim
  | _ => exact ⟨rfl, rfl⟩

theorem ready_next {a : Action ι τ T E} {i : ι}
    (hi : (s.task i).ready = true) : ((next h s a).task i).ready = true := by
  cases a with
  | task j b =>
      exact (tasks ι τ T E h).keeps_act (I := fun t => t.ready = true) hi
        fun _ => CoroTask.next_ready hi
  | lock t o => cases o <;> exact hi
  | _ => exact hi

/-- What a thread has just kept was not ready when its sweep began. -/
theorem unready_of_thread {a : Action ι τ T E} {u : τ} (hkept : Kept s)
    (ha : Enabled h s a) (hthread : a.thread = some u)
    (hu : ((next h s a).pc u).swept = true) :
    ∀ i ∈ (next h s a).detached, (next h s a).atSweep i = false := by
  have hno : ∀ {q : Pc ι}, q.swept = false →
      (Function.update s.pc u q u).swept = true → False := by
    intro q hq hupdate
    rw [Function.update_self, hq] at hupdate
    cases hupdate
  have hold : ∀ {p : Pc ι}, s.pc u = p → p.swept = true →
      ∀ i ∈ s.detached, s.atSweep i = false := by
    intro p hp hswept
    exact hkept.unready u (by rw [hp]; exact hswept)
  cases a <;> cases hthread
  case callSpawn => exact (hno rfl hu).elim
  case callCollect => exact (hno rfl hu).elim
  case started => exact (hno rfl hu).elim
  case lock o =>
      cases o with
      | none => exact nofun
      | some i => exact (hno rfl hu).elim
  case sizeFew => exact (hno rfl hu).elim
  case sizeMany => exact nofun
  case checkTrue => exact hold ha.1 rfl
  case checkFalse o i rest =>
      intro j hj
      rcases List.mem_append.mp hj with hmem | hmem
      · exact hold ha.1 rfl j hmem
      · rw [List.mem_singleton.mp hmem]
        refine Bool.eq_false_iff.mpr fun hi => ?_
        cases (hkept.ready i hi).symm.trans ha.2
  case reset => exact hold ha rfl
  case destroyed => exact hold ha.1 rfl
  case erase => exact hold ha rfl
  case pushBack => exact (hno rfl hu).elim
  case unlock o => cases o <;> exact (hno rfl hu).elim
  case release =>
      refine (hno ?_ hu).elim
      split <;> rfl
  case destroyedLast => exact (hno rfl hu).elim

theorem kept_next {a : Action ι τ T E}
    (hguards : Guards Pc.holdsMutex s.mutex s.pc) (hkept : Kept s)
    (ha : Enabled h s a) : Kept (next h s a) where
  ready := by
    intro i hi
    cases a with
    | sizeMany t j => exact hi
    | lock t o =>
        cases o with
        | none => exact hi
        | some j => exact hkept.ready i hi
    | _ => exact ready_next (hkept.ready i hi)
  unready := by
    intro u hu
    by_cases hthread : a.thread = some u
    swap
    · rw [pc_next_of_ne hthread] at hu
      have hmutex := (hguards u).mp (holdsMutex_of_swept hu)
      obtain ⟨hlist, hsweep⟩ := list_next hguards hmutex ha hthread
      rw [hlist, hsweep]
      exact hkept.unready u hu
    exact unready_of_thread hkept ha hthread hu

theorem kept_reachable (hs : (system ι τ T E h).Reachable s) : Kept s := by
  refine TransitionSystem.Reachable.invariant_of hs Kept
    (fun s hs => guards_reachable hs) ?_
    fun s a hguards hkept ha => kept_next hguards hkept ha
  rintro s rfl
  exact ⟨nofun, nofun⟩

/-! ## The length of the list -/

/-- The tasks that have been given away and are not ready. -/
def State.unfinished (s : State ι τ T E) : Set ι :=
  {i | s.owned i = false ∧ (s.task i).ready = false}

def State.unready (s : State ι τ T E) (l : List ι) : ℕ :=
  l.countP fun i => !(s.task i).ready

omit [DecidableEq ι] [DecidableEq τ] in
theorem unready_cons_of_ready {i : ι} (l : List ι)
    (hi : (s.task i).ready = true) : s.unready (i :: l) = s.unready l :=
  List.countP_cons_of_neg (by simp [hi])

omit [DecidableEq ι] [DecidableEq τ] in
theorem unready_cons_of_not_ready {i : ι} (l : List ι)
    (hi : (s.task i).ready = false) :
    s.unready (i :: l) = s.unready l + 1 :=
  List.countP_cons_of_pos (by simp [hi])

/-- A step makes no task unready. -/
theorem unready_next_le (a : Action ι τ T E) (l : List ι) :
    (next h s a).unready l ≤ s.unready l := by
  refine List.countP_mono_left fun i _ hi => ?_
  cases hready : (s.task i).ready with
  | false => rfl
  | true =>
      rw [ready_next hready] at hi
      cases hi

/-- Every closure of a task that is not ready belongs to another task. -/
theorem unready_detached_le [Fintype τ]
    (hs : (system ι τ T E h).Reachable s) :
    (s.unready s.detached : ℕ∞) ≤ s.unfinished.encard := by
  have hnodup : s.detached.Nodup := by
    refine List.nodup_iff_count_le_one.mpr fun i => ?_
    have hclosure := (balanced_reachable hs i).closure
    change (s.census i).closures ≤ 1
    omega
  have hle : ((s.detached.filter fun i => !(s.task i).ready).toFinset :
      Set ι) ⊆ s.unfinished := by
    intro i hi
    rw [Finset.mem_coe, List.mem_toFinset, List.mem_filter] at hi
    refine ⟨?_, by simpa using hi.2⟩
    have hpos : 0 < (s.census i).closures := List.count_pos_iff.mpr hi.1
    have hclosure := (balanced_reachable hs i).closure
    have hzero : (s.census i).owned = 0 := by omega
    exact Bool.toNat_eq_zero.mp hzero
  have hcard := Set.encard_le_encard hle
  rwa [Set.encard_coe_eq_coe_finsetCard,
    List.toFinset_card_of_nodup (hnodup.filter _),
    ← List.countP_eq_length_filter] at hcard

/-- How long the list can be while at most `m` tasks are unfinished. -/
structure Limited (m : ℕ) (s : State ι τ T E) : Prop where
  sweeping : ∀ t rest, (s.pc t).sweeping = some rest →
    s.detached.length + s.unready rest ≤ m
  pushing : ∀ t i, s.pc t = .pushBack i →
    s.detached.length ≤ max sweepLimit m
  length : s.detached.length ≤ max sweepLimit m + 1

omit [DecidableEq ι] in
theorem holdsMutex_of_sweeping {p : Pc ι} {rest : List ι}
    (hp : p.sweeping = some rest) : p.holdsMutex = true := by
  cases p <;> first | rfl | cases hp

/-- A sweep keeps no more closures than there are tasks that are not ready. -/
theorem sweeping_of_thread {m : ℕ} {a : Action ι τ T E} {u : τ}
    (hlimited : Limited m s) (hbegin : s.unready s.detached ≤ m)
    (ha : Enabled h s a) (hthread : a.thread = some u) {rest : List ι}
    (hu : ((next h s a).pc u).sweeping = some rest) :
    (next h s a).detached.length + (next h s a).unready rest ≤ m := by
  have hno : ∀ {q : Pc ι}, q.sweeping = none →
      (Function.update s.pc u q u).sweeping = some rest → False := by
    intro q hq hupdate
    rw [Function.update_self, hq] at hupdate
    cases hupdate
  have hrest : ∀ {q : Pc ι} {l : List ι}, q.sweeping = some l →
      (Function.update s.pc u q u).sweeping = some rest → l = rest := by
    intro q l hq hupdate
    rw [Function.update_self, hq] at hupdate
    exact Option.some.inj hupdate
  have hold : ∀ {p : Pc ι} {l : List ι}, s.pc u = p → p.sweeping = some l →
      s.detached.length + s.unready l ≤ m := by
    intro p l hp hl
    exact hlimited.sweeping u l (by rw [hp]; exact hl)
  cases a <;> cases hthread
  case callSpawn => exact (hno rfl hu).elim
  case callCollect => exact (hno rfl hu).elim
  case started => exact (hno rfl hu).elim
  case lock o =>
      cases o with
      | none =>
          cases hrest rfl hu
          exact (Nat.zero_add _).trans_le hbegin
      | some i => exact (hno rfl hu).elim
  case sizeFew => exact (hno rfl hu).elim
  case sizeMany =>
      cases hrest rfl hu
      exact (Nat.zero_add _).trans_le hbegin
  case checkTrue o i l =>
      cases hrest rfl hu
      have hle := hold ha.1 rfl
      rwa [unready_cons_of_ready rest ha.2] at hle
  case checkFalse o i l =>
      cases hrest rfl hu
      have hle := hold ha.1 rfl
      rw [unready_cons_of_not_ready rest ha.2] at hle
      change (s.detached ++ [i]).length + s.unready rest ≤ m
      rw [List.length_append, List.length_singleton]
      omega
  case reset o i l =>
      have hl : l = rest := by
        refine hrest ?_ hu
        split <;> rfl
      subst hl
      exact hold ha rfl
  case destroyed o i l =>
      cases hrest rfl hu
      exact hold ha.1 rfl
  case erase o => cases o <;> exact (hno rfl hu).elim
  case pushBack => exact (hno rfl hu).elim
  case unlock o => cases o <;> exact (hno rfl hu).elim
  case release =>
      refine (hno ?_ hu).elim
      split <;> rfl
  case destroyedLast => exact (hno rfl hu).elim

/-- A closure is stored in a list that is short, or has just been swept. -/
theorem pushing_of_thread {m : ℕ} {a : Action ι τ T E} {u : τ} {i : ι}
    (hlimited : Limited m s) (ha : Enabled h s a)
    (hthread : a.thread = some u) (hu : (next h s a).pc u = .pushBack i) :
    (next h s a).detached.length ≤ max sweepLimit m := by
  have hno : ∀ {q : Pc ι}, Function.update s.pc u q u = .pushBack i →
      q ≠ .pushBack i → False := by
    intro q hupdate hq
    rw [Function.update_self] at hupdate
    exact hq hupdate
  cases a <;> cases hthread
  case lock o => cases o <;> exact (hno hu nofun).elim
  case sizeFew => exact ha.2.trans (le_max_left ..)
  case reset =>
      refine (hno hu ?_).elim
      split <;> exact nofun
  case erase o =>
      have hpc : s.pc u = .sweep o [] := ha
      have hle := hlimited.sweeping u [] (by rw [hpc]; rfl)
      exact ((Nat.le_add_right ..).trans hle).trans (le_max_right ..)
  case unlock o => cases o <;> exact (hno hu nofun).elim
  case release =>
      refine (hno hu ?_).elim
      split <;> exact nofun
  all_goals exact (hno hu nofun).elim

theorem limited_next {m : ℕ} {a : Action ι τ T E}
    (hguards : Guards Pc.holdsMutex s.mutex s.pc) (hlimited : Limited m s)
    (hbegin : s.unready s.detached ≤ m) (ha : Enabled h s a) :
    Limited m (next h s a) where
  sweeping := by
    intro u rest hu
    by_cases hthread : a.thread = some u
    · exact sweeping_of_thread hlimited hbegin ha hthread hu
    · rw [pc_next_of_ne hthread] at hu
      have hmutex := (hguards u).mp (holdsMutex_of_sweeping hu)
      rw [(list_next hguards hmutex ha hthread).1]
      exact (Nat.add_le_add_left (unready_next_le a rest) _).trans
        (hlimited.sweeping u rest hu)
  pushing := by
    intro u i hu
    by_cases hthread : a.thread = some u
    · exact pushing_of_thread hlimited ha hthread hu
    · rw [pc_next_of_ne hthread] at hu
      have hmutex := (hguards u).mp (by rw [hu]; rfl)
      rw [(list_next hguards hmutex ha hthread).1]
      exact hlimited.pushing u i hu
  length := by
    have hsame := hlimited.length
    cases a with
    | lock t o => cases o <;> first | exact hsame | exact Nat.zero_le _
    | sizeMany t i => exact Nat.zero_le _
    | checkFalse t o i rest =>
        have hle := hlimited.sweeping t (i :: rest) (by rw [ha.1]; rfl)
        rw [unready_cons_of_not_ready rest ha.2] at hle
        have hmax := le_max_right sweepLimit m
        change (s.detached ++ [i]).length ≤ _
        rw [List.length_append, List.length_singleton]
        omega
    | pushBack t i =>
        have hle := hlimited.pushing t i ha
        change (s.detached ++ [i]).length ≤ _
        rw [List.length_append, List.length_singleton]
        omega
    | _ => exact hsame

/-- While at most `m` tasks are unfinished the list stays short. -/
theorem limited_reachableWhere [Fintype τ] {m : ℕ}
    (hs : (system ι τ T E h).ReachableWhere
      (fun s _ => s.unfinished.encard ≤ m) s) : Limited m s := by
  induction hs with
  | init h0 =>
      cases h0
      exact ⟨nofun, nofun, Nat.zero_le _⟩
  | step hs ha hP ih =>
      refine limited_next (guards_reachable hs.reachable) ih ?_ ha
      exact_mod_cast (unready_detached_le hs.reachable).trans hP

end Detached
end Ethreads
