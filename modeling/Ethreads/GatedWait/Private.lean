import Ethreads.GatedWait.Model
import Ethreads.AsyncPrimitive.Pointers
import Ethreads.TimerService.Entries

/-!
# A wait that shares nothing with others

We follow one wait whose gate and nodes no other wait uses, among any number
of other waits, lists and waking threads.  Nobody refers to it before it has
registered something, and whoever has a pointer to one of its nodes finds the
handle and the gate of the wait there.
-/

namespace Ethreads
namespace GatedWait

variable {ω γ ν κ ι τ : Type*}

/-- No other wait uses the gate or a node of this one. -/
def Alone (cfg : Config ω γ ν κ ι) (w : ω) : Prop :=
  ∀ v, v ≠ w → Disjoint cfg v w

instance [Fintype ω] [DecidableEq ω] [DecidableEq γ] [DecidableEq ν]
    (cfg : Config ω γ ν κ ι) (w : ω) : Decidable (Alone cfg w) :=
  inferInstanceAs (Decidable (∀ _, _ → _))

/-! ## Positions of the suspending thread -/

/-- The node that the thread is registering. -/
def SuspendPc.index : SuspendPc → Option ℕ
  | setHandle j | setGate j | callAdd j | adding j => some j
  | _ => none

/-- Nothing of the wait is registered anywhere. -/
def SuspendPc.isEarly : SuspendPc → Bool
  | idle | ready | storeGate => true
  | _ => false

section Positions

variable {cfg : Config ω γ ν κ ι} {s : State ω γ ν κ ι τ} {w : ω}

def Action.writes : Action ω γ ν κ ι τ → Option ω
  | construct v | setHandle v _ | setGate v _ => some v
  | _ => none

/-- The suspending thread that takes the step, and where it goes. -/
def Action.suspendsTo (cfg : Config ω γ ν κ ι) :
    Action ω γ ν κ ι τ → Option (ω × SuspendPc)
  | construct v => some (v, .ready)
  | readyFalse v => some (v, .storeGate)
  | storeGate v => some (v, afterStore cfg v)
  | addedTimer v => some (v, register cfg v 0)
  | setHandle v j => some (v, .setGate j)
  | setGate v j => some (v, .callAdd j)
  | callAdd v j _ => some (v, .adding j)
  | added v j _ => some (v, register cfg v (j + 1))
  | recheckFound v => some (v, .cas)
  | casWon v => some (v, .schedule)
  | readyTrue v _ | recheckEmpty v | casLost v | schedule v => some (v, .done)
  | _ => none

/-- Where the suspending thread stands that takes the step. -/
def Action.suspendsFrom : Action ω γ ν κ ι τ → SuspendPc
  | readyTrue _ _ | readyFalse _ => .ready
  | storeGate _ => .storeGate
  | addedTimer _ => .addTimer
  | setHandle _ j => .setHandle j
  | setGate _ j => .setGate j
  | callAdd _ j _ => .callAdd j
  | added _ j _ => .adding j
  | recheckEmpty _ | recheckFound _ => .recheck
  | casWon _ | casLost _ => .cas
  | schedule _ => .schedule
  | _ => .idle

/-- After a registration the thread sets a handle or goes to the re-check. -/
theorem register_ne {q : SuspendPc} (hset : ∀ j, q ≠ .setHandle j)
    (hrecheck : q ≠ .recheck) (v : ω) (j : ℕ) : register cfg v j ≠ q := by
  unfold register
  split
  · exact (hset j).symm
  · exact hrecheck.symm

/-- After the store of the gate the thread adds a timer, if the wait has a
deadline, or registers its first node. -/
theorem afterStore_ne {q : SuspendPc} (hadd : q ≠ .addTimer)
    (hset : ∀ j, q ≠ .setHandle j) (hrecheck : q ≠ .recheck) (v : ω) :
    afterStore cfg v ≠ q := by
  unfold afterStore
  split
  · exact hadd.symm
  · exact register_ne hset hrecheck v 0

theorem writes_ne_of_moves {a : Action ω γ ν κ ι τ}
    (h : ∀ q, a.suspendsTo cfg ≠ some (w, q)) : a.writes ≠ some w := by
  cases a with
  | construct v | setHandle v j | setGate v j =>
      intro heq
      obtain rfl : v = w := Option.some.inj heq
      exact h _ rfl
  | _ => nofun

theorem eq_setHandle_of_suspendsTo {a : Action ω γ ν κ ι τ} {j : ℕ}
    (h : a.suspendsTo cfg = some (w, .setGate j)) : a = .setHandle w j := by
  have hregister : ∀ v k, register cfg v k ≠ .setGate j :=
    register_ne nofun nofun
  have hstore : ∀ v, afterStore cfg v ≠ .setGate j :=
    afterStore_ne nofun nofun nofun
  cases a <;> simp_all [Action.suspendsTo]

theorem eq_setGate_of_suspendsTo {a : Action ω γ ν κ ι τ} {j : ℕ}
    (h : a.suspendsTo cfg = some (w, .callAdd j)) : a = .setGate w j := by
  have hregister : ∀ v k, register cfg v k ≠ .callAdd j :=
    register_ne nofun nofun
  have hstore : ∀ v, afterStore cfg v ≠ .callAdd j :=
    afterStore_ne nofun nofun nofun
  cases a <;> simp_all [Action.suspendsTo]

/-- A thread registers only nodes that exist. -/
def InRange (cfg : Config ω γ ν κ ι) (s : State ω γ ν κ ι τ) : Prop :=
  ∀ v j, (s.suspend v).index = some j → j < (cfg.lists v).length

theorem index_register {j k : ℕ}
    (h : (register cfg w j).index = some k) : k < (cfg.lists w).length := by
  unfold register at h
  split at h
  · obtain rfl : j = k := Option.some.inj h
    assumption
  · exact nomatch h

theorem index_afterStore {k : ℕ} (h : (afterStore cfg w).index = some k) :
    k < (cfg.lists w).length := by
  unfold afterStore at h
  split at h
  · exact nomatch h
  · exact index_register h

theorem isEarly_register (j : ℕ) : (register cfg w j).isEarly = false := by
  unfold register
  split <;> rfl

theorem isEarly_afterStore : (afterStore cfg w).isEarly = false := by
  unfold afterStore
  split
  · rfl
  · exact isEarly_register 0

theorem InRange.suspendTo [DecidableEq ω] (h : InRange cfg s) {v : ω}
    {q : SuspendPc}
    (hq : ∀ j, q.index = some j → j < (cfg.lists v).length) (u : ω) (j : ℕ)
    (hj : (Function.update s.suspend v q u).index = some j) :
    j < (cfg.lists u).length := by
  by_cases huv : u = v
  · rw [huv, Function.update_self] at hj
    rw [huv]
    exact hq j hj
  · rw [Function.update_of_ne huv] at hj
    exact h u j hj

theorem mem_nodes {j : ℕ} (hj : j < (cfg.lists w).length) :
    cfg.node w j ∈ nodes cfg w :=
  List.mem_map_of_mem (List.mem_range.mpr hj)

end Positions

/-! ## Pointers to the nodes of the wait -/

/-- If the node is one of the wait, its fields are those of the wait. -/
def Registered (cfg : Config ω γ ν κ ι) (s : State ω γ ν κ ι τ) (w : ω)
    (n : ν) : Prop :=
  n ∈ nodes cfg w →
    s.handle n = some (cfg.coroutine w) ∧ s.gate n = some (cfg.gate w)

/-- A waking thread that has read a gate has a node in its hands, and the gate
is that of the wait exactly if the node is. -/
def Carries (cfg : Config ω γ ν κ ι) (s : State ω γ ν κ ι τ) (w : ω) (i : ι)
    (t : τ) : Prop :=
  match s.delivery i t with
  | .testHandle | .testGate => True
  | .cas g | .schedule (some g) =>
      ∃ h r, (s.lists i).pc (.inl t) = .deliver h r ∧
        (g = cfg.gate w ↔ h ∈ nodes cfg w)
  | .schedule none =>
      ∃ h r, (s.lists i).pc (.inl t) = .deliver h r ∧ h ∉ nodes cfg w

/-- What holds of a wait that shares nothing with others. -/
structure Private (cfg : Config ω γ ν κ ι) (s : State ω γ ν κ ι τ)
    (w : ω) : Prop where
  early : (s.suspend w).isEarly = true →
    s.timer.fired (cfg.gate w) = false ∧ s.timer.add w = .idle ∧
      ∀ n ∈ nodes cfg w, s.handle n = none
  written : ∀ j, s.suspend w = .setGate j →
    s.handle (cfg.node w j) = some (cfg.coroutine w)
  registered : ∀ j, s.suspend w = .callAdd j →
    s.handle (cfg.node w j) = some (cfg.coroutine w) ∧
      s.gate (cfg.node w j) = some (cfg.gate w)
  gates : ∀ n, s.gate n = some (cfg.gate w) → n ∈ nodes cfg w
  pointers : ∀ i, AsyncPrimitive.PointsTo (Registered cfg s w) (s.view i)
  carries : ∀ i t, Carries cfg s w i t

section Pointers

variable {cfg : Config ω γ ν κ ι} {s : State ω γ ν κ ι τ} {w : ω}

theorem Private.registered_of_deliver (h : Private cfg s w) {i : ι} {t : τ}
    {n : ν} {r : Option ν} (hpc : (s.lists i).pc (.inl t) = .deliver n r) :
    Registered cfg s w n := by
  refine (h.pointers i).pc (.inl t) n ?_
  rw [show (s.view i).pc (.inl t) = .deliver n r from hpc]
  exact List.mem_cons_self

/-- Whoever has read the gate of the wait has a registered node. -/
theorem Private.not_early_of_cas (h : Private cfg s w) {i : ι} {t : τ}
    (hd : s.delivery i t = .cas (cfg.gate w)) :
    (s.suspend w).isEarly = false := by
  have hcarries := h.carries i t
  rw [Carries, hd] at hcarries
  obtain ⟨n, r, hpc, hn⟩ := hcarries
  have hmem := hn.mp rfl
  by_contra hearly
  have hnone := (h.early (by simpa using hearly)).2.2 n hmem
  exact absurd ((h.registered_of_deliver hpc hmem).1.symm.trans hnone)
    (by simp)

theorem Alone.gate_ne (halone : Alone cfg w) {v : ω} (hv : v ≠ w) :
    cfg.gate v ≠ cfg.gate w :=
  (halone v hv).1

theorem Alone.node_not_mem (halone : Alone cfg w) (hrange : InRange cfg s)
    {v : ω} (hv : v ≠ w) {j : ℕ} (hj : (s.suspend v).index = some j) :
    cfg.node v j ∉ nodes cfg w :=
  (halone v hv).2 _ (mem_nodes (hrange v j hj))

end Pointers

/-! ## The timer service as a component -/

section Steps

variable [DecidableEq ω] [DecidableEq γ] [DecidableEq ν] [DecidableEq κ]
  [DecidableEq ι] [DecidableEq τ] {cfg : Config ω γ ν κ ι}
  {s : State ω γ ν κ ι τ} {a : Action ω γ ν κ ι τ} {w : ω}

theorem timer_reachable (hs : (system cfg τ).Reachable s) :
    (TimerService.system (entry cfg)).Reachable s.timer := by
  refine hs.project State.timer ?_ ?_
  · rintro s ⟨clock, rfl⟩
    exact ⟨_, _, rfl⟩
  · intro s a _ ha _
    cases a with
    | construct w | storeGate w =>
        exact .inr ⟨.store (cfg.gate w) false, trivial, trivial, rfl⟩
    | casWon w =>
        exact .inr ⟨.store (cfg.gate w) true, trivial, trivial, rfl⟩
    | gateWon i t h r g => exact .inr ⟨.store g true, trivial, trivial, rfl⟩
    | timer b => exact .inr ⟨b, ha.1, trivial, afterTimer_timer cfg _ b⟩
    | _ => exact .inl rfl

theorem suspend_next : (next cfg s a).suspend =
    match a.suspendsTo cfg with
    | some (v, q) => Function.update s.suspend v q
    | none => s.suspend := by
  cases a with
  | timer b => exact afterTimer_suspend cfg _ b
  | _ => rfl

/-- The suspending thread stays, or the step moves it. -/
theorem suspend_of_next {q : SuspendPc}
    (hq : (next cfg s a).suspend w = q) :
    s.suspend w = q ∧ (∀ r, a.suspendsTo cfg ≠ some (w, r)) ∨
      a.suspendsTo cfg = some (w, q) := by
  rw [suspend_next] at hq
  cases hmoves : a.suspendsTo cfg with
  | none =>
      rw [hmoves] at hq
      exact .inl ⟨hq, nofun⟩
  | some move =>
      obtain ⟨v, p⟩ := move
      rw [hmoves] at hq
      have hq : Function.update s.suspend v p w = q := hq
      by_cases hv : w = v
      · subst hv
        rw [Function.update_self] at hq
        exact .inr (by rw [hq])
      · refine .inl ⟨?_, ?_⟩
        · rwa [Function.update_of_ne hv] at hq
        · intro r heq
          exact hv (congrArg Prod.fst (Option.some.inj heq)).symm

omit [DecidableEq ω] [DecidableEq γ] [DecidableEq ν] [DecidableEq κ]
  [DecidableEq ι] [DecidableEq τ] in
theorem suspend_eq_suspendsFrom {q : SuspendPc} (ha : Enabled cfg s a)
    (hmoves : a.suspendsTo cfg = some (w, q)) :
    s.suspend w = a.suspendsFrom := by
  cases a with
  | readyFalse v | storeGate v | setHandle v j | setGate v j
  | recheckEmpty v | recheckFound v | schedule v =>
      obtain ⟨rfl, -⟩ := Prod.mk.inj (Option.some.inj hmoves)
      exact ha
  | construct v | readyTrue v e | addedTimer v | callAdd v j i
  | added v j i | casWon v | casLost v =>
      obtain ⟨rfl, -⟩ := Prod.mk.inj (Option.some.inj hmoves)
      exact ha.1
  | _ => exact nomatch hmoves

/-- What each move of a suspending thread keeps is kept by each step. -/
theorem suspend_keeps {P : SuspendPc → Prop} (ha : Enabled cfg s a)
    (hP : ∀ q, a.suspendsTo cfg = some (w, q) → P a.suspendsFrom → P q)
    (hw : P (s.suspend w)) : P ((next cfg s a).suspend w) := by
  rcases suspend_of_next (rfl : (next cfg s a).suspend w = _) with
    ⟨hstays, -⟩ | hmoves
  · rw [← hstays]
    exact hw
  · rw [suspend_eq_suspendsFrom ha hmoves] at hw
    exact hP _ hmoves hw

theorem inRange_next (h : InRange cfg s) (ha : Enabled cfg s a) :
    InRange cfg (next cfg s a) := by
  have hsame : ∀ {v : ω} {p q : SuspendPc}, s.suspend v = p →
      q.index = p.index → ∀ j, q.index = some j →
        j < (cfg.lists v).length := by
    intro v p q hp hq j hj
    exact h v j (by rw [hp, ← hq, hj])
  cases a with
  | storeGate v => exact h.suspendTo fun _ hj => index_afterStore hj
  | addedTimer v | added v j i =>
      exact h.suspendTo fun _ hj => index_register hj
  | setHandle v j => exact h.suspendTo (hsame ha rfl)
  | setGate v j => exact h.suspendTo (hsame ha rfl)
  | callAdd v j i => exact h.suspendTo (hsame ha.1 rfl)
  | construct v | readyTrue v e | readyFalse v | recheckEmpty v
  | recheckFound v | casWon v | casLost v | schedule v =>
      exact h.suspendTo nofun
  | timer b =>
      unfold InRange
      simp only [next, afterTimer_suspend]
      exact h
  | _ => exact h

theorem inRange_of_reachable (hs : (system cfg τ).Reachable s) :
    InRange cfg s := by
  refine hs.invariant (InRange cfg) ?_ fun s a h ha => inRange_next h ha
  rintro s ⟨clock, rfl⟩ v j hj
  exact nomatch hj

omit [DecidableEq ν] [DecidableEq κ] [DecidableEq ι] [DecidableEq τ] in
/-- While nothing of the wait is registered, the timer service does not touch
its gate. -/
theorem early_timer (halone : Alone cfg w)
    (htimer : ∀ v, s.timer.Has v → (s.timer.add v).hasPushed = true)
    (hearly : (s.suspend w).isEarly = true)
    (hfired : s.timer.fired (cfg.gate w) = false)
    (hadd : s.timer.add w = .idle) {b : TimerService.Action ω γ}
    (ha : TimerService.Enabled (entry cfg) s.timer b) (hb : TimerStep s b) :
    (TimerService.next s.timer b).fired (cfg.gate w) = false ∧
      (TimerService.next s.timer b).add w = .idle := by
  have hhas : ∀ {v}, s.timer.Has v → v ≠ w := by
    rintro v hv rfl
    have hpushed := htimer v hv
    rw [hadd] at hpushed
    exact nomatch hpushed
  have hgate : ∀ {v g}, (TimerService.viewOf (entry cfg v)).fired = some g →
      s.timer.Has v → g ≠ cfg.gate w := by
    intro v g hg hv
    obtain rfl : cfg.gate v = g := Option.some.inj hg
    exact halone.gate_ne (hhas hv)
  have hown : ∀ {v p q}, s.timer.add v = p → p ≠ .idle →
      Function.update s.timer.add v q w = .idle := by
    intro v p q hp hne
    have hwv : w ≠ v := by
      rintro rfl
      exact hne (hp.symm.trans hadd)
    rw [Function.update_of_ne hwv]
    exact hadd
  cases b with
  | fireWon v g =>
      have hne := hgate ha.2.1 (.inr (.inl (by rw [ha.1]; rfl)))
      exact ⟨(Function.update_of_ne hne.symm _ _).trans hfired, hadd⟩
  | drainWon v rest g =>
      have hne := hgate ha.2.1
        (.inr (.inr (by rw [ha.1]; exact List.mem_cons_self)))
      exact ⟨(Function.update_of_ne hne.symm _ _).trans hfired, hadd⟩
  | callAdd v =>
      have hwv : w ≠ v := by
        rintro rfl
        rw [show s.suspend w = .addTimer from hb] at hearly
        exact nomatch hearly
      exact ⟨hfired, (Function.update_of_ne hwv _ _).trans hadd⟩
  | lockAdd v => exact ⟨hfired, hown ha.1 nofun⟩
  | push v | unlockAdd v | notifyAdd v => exact ⟨hfired, hown ha nofun⟩
  | store g c => exact hb.elim
  | _ => exact ⟨hfired, hadd⟩

theorem early_next (halone : Alone cfg w) (hrange : InRange cfg s)
    (htimer : ∀ v, s.timer.Has v → (s.timer.add v).hasPushed = true)
    (h : Private cfg s w) (ha : Enabled cfg s a)
    (hearly : ((next cfg s a).suspend w).isEarly = true) :
    (next cfg s a).timer.fired (cfg.gate w) = false ∧
      (next cfg s a).timer.add w = .idle ∧
        ∀ n ∈ nodes cfg w, (next cfg s a).handle n = none := by
  have hgate : ∀ {v b}, v ≠ w →
      Function.update s.timer.fired (cfg.gate v) b (cfg.gate w) =
        s.timer.fired (cfg.gate w) :=
    fun hv => Function.update_of_ne (halone.gate_ne hv).symm _ _
  have hother : ∀ {v q}, q.isEarly = false →
      (Function.update s.suspend v q w).isEarly = true →
        v ≠ w ∧ (s.suspend w).isEarly = true := by
    intro v q hq hsuspend
    by_cases hv : w = v
    · rw [hv, Function.update_self, hq] at hsuspend
      exact nomatch hsuspend
    · rw [Function.update_of_ne hv] at hsuspend
      exact ⟨Ne.symm hv, hsuspend⟩
  cases a with
  | construct v =>
      by_cases hv : w = v
      · subst hv
        have hold := h.early (by rw [ha.1]; rfl)
        refine ⟨Function.update_self _ _ _, hold.2.1, fun n hn => ?_⟩
        exact if_pos hn
      · have hsuspend : (s.suspend w).isEarly = true := by
          simpa [next, State.suspendTo, State.storeGate, hv] using hearly
        have hold := h.early hsuspend
        refine ⟨(hgate (Ne.symm hv)).trans hold.1, hold.2.1, fun n hn => ?_⟩
        simp only [next]
        split
        · rfl
        · exact hold.2.2 n hn
  | readyFalse v =>
      refine h.early ?_
      by_cases hv : w = v
      · subst hv
        rw [show s.suspend w = .ready from ha]
        rfl
      · simpa [next, State.suspendTo, hv] using hearly
  | storeGate v =>
      obtain ⟨hv, hsuspend⟩ := hother isEarly_afterStore hearly
      have hold := h.early hsuspend
      exact ⟨(hgate hv).trans hold.1, hold.2⟩
  | casWon v =>
      obtain ⟨hv, hsuspend⟩ := hother rfl hearly
      have hold := h.early hsuspend
      exact ⟨(hgate hv).trans hold.1, hold.2⟩
  | setHandle v j =>
      obtain ⟨hv, hsuspend⟩ := hother rfl hearly
      have hold := h.early hsuspend
      refine ⟨hold.1, hold.2.1, fun n hn => ?_⟩
      have hne : n ≠ cfg.node v j := by
        rintro rfl
        refine halone.node_not_mem hrange hv ?_ hn
        rw [show s.suspend v = .setHandle j from ha]
        rfl
      exact (Function.update_of_ne hne _ _).trans (hold.2.2 n hn)
  | gateWon i t n r g =>
      have hold := h.early hearly
      have hne : cfg.gate w ≠ g := by
        rintro rfl
        exact absurd ((h.not_early_of_cas ha.1).symm.trans hearly) (by simp)
      exact ⟨(Function.update_of_ne hne _ _).trans hold.1, hold.2⟩
  | timer b =>
      simp only [next, afterTimer_suspend] at hearly
      have hold := h.early hearly
      have hnew := early_timer halone htimer hearly hold.1 hold.2.1 ha.1 ha.2
      simp only [next, afterTimer_timer, afterTimer_handle]
      exact ⟨hnew.1, hnew.2, hold.2.2⟩
  | readyTrue v e | setGate v j | callAdd v j i | recheckEmpty v
  | recheckFound v | casLost v | schedule v =>
      exact h.early (hother rfl hearly).2
  | addedTimer v | added v j i =>
      exact h.early (hother (isEarly_register _) hearly).2
  | _ => exact h.early hearly

/-- The fields of the nodes are written by nobody else. -/
theorem fields_of_ne (halone : Alone cfg w) (hrange : InRange cfg s)
    (ha : Enabled cfg s a) (hwrites : a.writes ≠ some w) {n : ν}
    (hn : n ∈ nodes cfg w) :
    (next cfg s a).handle n = s.handle n ∧
      (next cfg s a).gate n = s.gate n := by
  have hne : ∀ {v j}, v ≠ w → (s.suspend v).index = some j →
      n ≠ cfg.node v j := by
    rintro v j hv hj rfl
    exact halone.node_not_mem hrange hv hj hn
  cases a with
  | construct v =>
      have hv : v ≠ w := fun hv => hwrites (by rw [hv]; rfl)
      have hnot : n ∉ nodes cfg v := fun hnv => (halone v hv).2 n hnv hn
      exact ⟨if_neg hnot, if_neg hnot⟩
  | setHandle v j =>
      have hv : v ≠ w := fun hv => hwrites (by rw [hv]; rfl)
      have hnv := hne hv (by rw [show s.suspend v = .setHandle j from ha]; rfl)
      exact ⟨Function.update_of_ne hnv _ _, rfl⟩
  | setGate v j =>
      have hv : v ≠ w := fun hv => hwrites (by rw [hv]; rfl)
      have hnv := hne hv (by rw [show s.suspend v = .setGate j from ha]; rfl)
      exact ⟨rfl, Function.update_of_ne hnv _ _⟩
  | timer b =>
      simp only [next, afterTimer_handle, afterTimer_gate]
      exact ⟨trivial, trivial⟩
  | _ => exact ⟨rfl, rfl⟩

/-- No step takes the handle or the gate from a node that has them from the
wait. -/
theorem registered_mono (halone : Alone cfg w) (hrange : InRange cfg s)
    (h : Private cfg s w) (ha : Enabled cfg s a) (n : ν)
    (hn : Registered cfg s w n) : Registered cfg (next cfg s a) w n := by
  intro hmem
  obtain ⟨hhandle, hgate⟩ := hn hmem
  by_cases hwrites : a.writes = some w
  · cases a with
    | construct v =>
        obtain rfl : v = w := Option.some.inj hwrites
        have hnone := (h.early (by rw [ha.1]; rfl)).2.2 n hmem
        exact absurd (hhandle.symm.trans hnone) (by simp)
    | setHandle v j =>
        obtain rfl : v = w := Option.some.inj hwrites
        refine ⟨?_, hgate⟩
        by_cases hnv : n = cfg.node v j
        · simp [next, hnv]
        · simpa [next, hnv] using hhandle
    | setGate v j =>
        obtain rfl : v = w := Option.some.inj hwrites
        refine ⟨hhandle, ?_⟩
        by_cases hnv : n = cfg.node v j
        · simp [next, hnv]
        · simpa [next, hnv] using hgate
    | _ => exact nomatch hwrites
  · have hsame := fields_of_ne halone hrange ha hwrites hmem
    exact ⟨hsame.1.trans hhandle, hsame.2.trans hgate⟩

theorem written_next (halone : Alone cfg w) (hrange : InRange cfg s)
    (h : Private cfg s w) (ha : Enabled cfg s a) (j : ℕ)
    (hj : (next cfg s a).suspend w = .setGate j) :
    (next cfg s a).handle (cfg.node w j) = some (cfg.coroutine w) := by
  rcases suspend_of_next hj with ⟨hold, hmoves⟩ | hmoves
  · have hmem := mem_nodes (hrange w j (by rw [hold]; rfl))
    have hwrites := writes_ne_of_moves hmoves
    rw [(fields_of_ne halone hrange ha hwrites hmem).1]
    exact h.written j hold
  · obtain rfl := eq_setHandle_of_suspendsTo hmoves
    exact Function.update_self _ _ _

theorem wait_registered_next (halone : Alone cfg w) (hrange : InRange cfg s)
    (h : Private cfg s w) (ha : Enabled cfg s a) (j : ℕ)
    (hj : (next cfg s a).suspend w = .callAdd j) :
    (next cfg s a).handle (cfg.node w j) = some (cfg.coroutine w) ∧
      (next cfg s a).gate (cfg.node w j) = some (cfg.gate w) := by
  rcases suspend_of_next hj with ⟨hold, hmoves⟩ | hmoves
  · have hmem := mem_nodes (hrange w j (by rw [hold]; rfl))
    have hwrites := writes_ne_of_moves hmoves
    have hsame := fields_of_ne halone hrange ha hwrites hmem
    rw [hsame.1, hsame.2]
    exact h.registered j hold
  · obtain rfl := eq_setGate_of_suspendsTo hmoves
    exact ⟨h.written j ha, Function.update_self _ _ _⟩

theorem gates_next (hrange : InRange cfg s) (halone : Alone cfg w)
    (h : Private cfg s w) (ha : Enabled cfg s a) (n : ν)
    (hn : (next cfg s a).gate n = some (cfg.gate w)) : n ∈ nodes cfg w := by
  cases a with
  | construct v =>
      simp only [next] at hn
      split at hn
      · exact nomatch hn
      · exact h.gates n hn
  | setGate v j =>
      by_cases hnv : n = cfg.node v j
      · simp only [next, hnv, Function.update_self, Option.some.injEq] at hn
        have hv : v = w := by
          by_contra hv
          exact halone.gate_ne hv hn
        subst hv
        rw [hnv]
        refine mem_nodes (hrange v j ?_)
        rw [show s.suspend v = .setGate j from ha]
        rfl
      · exact h.gates n (by simpa [next, hnv] using hn)
  | timer b =>
      simp only [next, afterTimer_gate] at hn
      exact h.gates n hn
  | _ => exact h.gates n hn

omit [DecidableEq ω] [DecidableEq γ] [DecidableEq ν] [DecidableEq κ]
  [DecidableEq τ] in
theorem pointsTo_listTo {P : ν → Prop}
    (h : ∀ i, AsyncPrimitive.PointsTo P (s.view i)) {i : ι}
    {l : AsyncPrimitive.State (τ ⊕ ω) ν Empty}
    (hl : AsyncPrimitive.PointsTo P l) (k : ι) :
    AsyncPrimitive.PointsTo P ((s.listTo i l).view k) := by
  by_cases hk : k = i
  · subst hk
    have hview : (s.listTo k l).view k = l := by
      simp [State.view, State.listTo]
    rw [hview]
    exact hl
  · refine ⟨?_, hl.next, ?_⟩
    · simpa [State.view, State.listTo, hk] using (h k).waiters
    · simpa [State.view, State.listTo, hk] using (h k).pc

omit [DecidableEq γ] [DecidableEq κ] in
theorem pointsTo_delivered {P : ν → Prop}
    (h : ∀ i, AsyncPrimitive.PointsTo P (s.view i)) {i : ι} {t : τ} {n : ν}
    {r : Option ν} (hpc : (s.lists i).pc (.inl t) = .deliver n r) (k : ι) :
    AsyncPrimitive.PointsTo P ((s.delivered i t n r).view k) := by
  refine pointsTo_listTo (s := s.deliveryTo i t .testHandle) h ?_ k
  refine (h i).of_pc (t := .inl t) (p := .deliver n r) hpc rfl rfl rfl ?_
  intro m hm
  left
  exact List.mem_cons_of_mem _ (Option.mem_toList.mpr
    (AsyncPrimitive.mem_mentions_walkWith.mp hm))

theorem pointers_next (halone : Alone cfg w) (hrange : InRange cfg s)
    (h : Private cfg s w) (ha : Enabled cfg s a) (i : ι) :
    AsyncPrimitive.PointsTo (Registered cfg (next cfg s a) w)
      ((next cfg s a).view i) := by
  have hmono := registered_mono halone hrange h ha
  have hold : ∀ k, AsyncPrimitive.PointsTo (Registered cfg (next cfg s a) w)
      (s.view k) := fun k => (h.pointers k).mono hmono
  cases a with
  | construct v =>
      refine ⟨(hold i).waiters, fun m n hn => ?_, (hold i).pc⟩
      by_cases hm : m ∈ nodes cfg v
      · have hnone : (next cfg s (.construct v)).next m = none := if_pos hm
        rw [show ((next cfg s (.construct v)).view i).next m = none from hnone]
          at hn
        exact nomatch hn
      · have hsame : (next cfg s (.construct v)).next m = s.next m := if_neg hm
        rw [show ((next cfg s (.construct v)).view i).next m = s.next m from
          hsame] at hn
        exact (hold i).next m n hn
  | callAdd v j k =>
      refine pointsTo_listTo (s := s.suspendTo v (.adding j)) hold ?_ i
      refine AsyncPrimitive.pointsTo_next (hold k) ha.2.2 ?_
      rintro t n ⟨⟩ hmem
      by_cases hv : v = w
      · subst hv
        exact h.registered j ha.1
      · exact absurd hmem (halone.node_not_mem hrange hv (by rw [ha.1]; rfl))
  | list k b =>
      refine pointsTo_listTo hold ?_ i
      refine AsyncPrimitive.pointsTo_next (hold k) ha.2 ?_
      rintro t n rfl
      exact nomatch ha.1
  | handleNull k t n r => exact pointsTo_delivered hold ha.2.1 i
  | gateLost k t n r g =>
      exact pointsTo_delivered (s := s.attempt g) hold ha.2.1 i
  | deliver k t n r g => exact pointsTo_delivered hold ha.2 i
  | timer b =>
      have hview : (next cfg s (.timer b)).view i = s.view i := by
        simp [next, State.view]
      rw [hview]
      exact hold i
  | _ => exact hold i

/-! ## Nodes in the hands of waking threads -/

omit [DecidableEq ω] [DecidableEq γ] [DecidableEq ν] [DecidableEq κ]
  [DecidableEq ι] [DecidableEq τ] in
theorem Carries.of_same {s' : State ω γ ν κ ι τ} {i : ι} {t : τ}
    (h : Carries cfg s w i t) (hdelivery : s'.delivery i t = s.delivery i t)
    (hpc : ∀ n r, (s.lists i).pc (.inl t) = .deliver n r →
      (s'.lists i).pc (.inl t) = .deliver n r) : Carries cfg s' w i t := by
  unfold Carries at h ⊢
  rw [hdelivery]
  split
  · trivial
  · trivial
  all_goals
    rename_i hd
    rw [hd] at h
    obtain ⟨n, r, hn, hrest⟩ := h
    exact ⟨n, r, hpc n r hn, hrest⟩

omit [DecidableEq ω] [DecidableEq γ] [DecidableEq ν] [DecidableEq κ] in
theorem delivery_deliveryTo (s : State ω γ ν κ ι τ) (i k : ι) (t u : τ)
    (q : Delivery γ) : (s.deliveryTo i t q).delivery k u =
      if k = i ∧ u = t then q else s.delivery k u := by
  by_cases hk : k = i
  · subst hk
    by_cases hu : u = t
    · subst hu
      simp [State.deliveryTo]
    · simp [State.deliveryTo, hu]
  · simp [State.deliveryTo, hk]

/-- A list does not take a node out of a thread's hands by itself. -/
theorem pc_of_isListStep {l : AsyncPrimitive.State (τ ⊕ ω) ν Empty}
    {b : AsyncPrimitive.Action (τ ⊕ ω) ν Empty} (hb : isListStep b = true)
    (ha : AsyncPrimitive.Enabled AsyncPrimitive.ungated l b) {u : τ ⊕ ω}
    {n : ν} {r : Option ν} (hu : l.pc u = .deliver n r) :
    (AsyncPrimitive.next AsyncPrimitive.ungated l b).pc u = .deliver n r := by
  have hother : ∀ {t p q}, l.pc t = p → (∀ m o, p ≠ .deliver m o) →
      Function.update l.pc t q u = .deliver n r := by
    intro t p q hp hne
    have hut : u ≠ t := by
      rintro rfl
      exact hne n r (hp.symm.trans hu)
    rw [Function.update_of_ne hut]
    exact hu
  cases b with
  | callAdd t m | schedule t m o | skip t m o g | fire g | resume m =>
      exact nomatch hb
  | addCas t m o | wakeCas t m o => exact hother ha.1 nofun
  | _ => exact hother ha nofun

omit [DecidableEq γ] [DecidableEq κ] in
theorem Carries.delivered {i k : ι} {t u : τ} (h : Carries cfg s w i t)
    (n : ν) (r : Option ν) : Carries cfg (s.delivered k u n r) w i t := by
  have hdelivery : (s.delivered k u n r).delivery i t =
      if i = k ∧ t = u then .testHandle else s.delivery i t :=
    delivery_deliveryTo s k i u t _
  by_cases heq : i = k ∧ t = u
  · rw [if_pos heq] at hdelivery
    unfold Carries
    rw [hdelivery]
    trivial
  · rw [if_neg heq] at hdelivery
    refine h.of_same hdelivery fun m o hm => ?_
    by_cases hk : i = k
    · subst hk
      have htu : t ≠ u := fun htu => heq ⟨rfl, htu⟩
      simpa [State.delivered, State.listTo, State.view, State.deliveryTo,
        AsyncPrimitive.State.goto, AsyncPrimitive.State.move, htu] using hm
    · simpa [State.delivered, State.listTo, State.deliveryTo, hk] using hm

omit [DecidableEq ω] [DecidableEq ν] [DecidableEq γ] [DecidableEq κ] in
theorem Carries.deliveryTo {i k : ι} {t u : τ} {q : Delivery γ}
    (h : Carries cfg s w i t)
    (hq : i = k → t = u → Carries cfg (s.deliveryTo k u q) w k u) :
    Carries cfg (s.deliveryTo k u q) w i t := by
  by_cases heq : i = k ∧ t = u
  · obtain ⟨rfl, rfl⟩ := heq
    exact hq rfl rfl
  · refine h.of_same ?_ fun _ _ hm => hm
    rw [delivery_deliveryTo, if_neg heq]

theorem carries_next (h : Private cfg s w) (ha : Enabled cfg s a) (i : ι)
    (t : τ) : Carries cfg (next cfg s a) w i t := by
  have hold := h.carries i t
  cases a with
  | handleNull k u n r => exact hold.delivered n r
  | gateLost k u n r g =>
      exact Carries.delivered (s := s.attempt g)
        (hold.of_same rfl fun _ _ hm => hm) n r
  | deliver k u n r g =>
      exact (hold.delivered n r).of_same rfl fun _ _ hm => hm
  | handleFound k u n r =>
      refine hold.deliveryTo fun _ _ => ?_
      unfold Carries
      rw [delivery_deliveryTo, if_pos ⟨rfl, rfl⟩]
      trivial
  | gateRead k u n r =>
      refine hold.deliveryTo fun _ _ => ?_
      have hregistered := h.registered_of_deliver ha.2
      unfold Carries
      rw [delivery_deliveryTo, if_pos ⟨rfl, rfl⟩]
      cases hgate : s.gate n with
      | none =>
          refine ⟨n, r, ha.2, fun hmem => ?_⟩
          exact absurd ((hregistered hmem).2.symm.trans hgate) (by simp)
      | some g =>
          refine ⟨n, r, ha.2, ?_, fun hmem => ?_⟩
          · rintro rfl
            exact h.gates n hgate
          · exact Option.some.inj (hgate.symm.trans (hregistered hmem).2)
  | gateWon k u n r g =>
      have hcas := h.carries k u
      rw [Carries, ha.1] at hcas
      have hnew :
          Carries cfg (s.deliveryTo k u (.schedule (some g))) w k u := by
        unfold Carries
        rw [delivery_deliveryTo, if_pos ⟨rfl, rfl⟩]
        exact hcas
      exact (hold.deliveryTo fun _ _ => hnew).of_same rfl fun _ _ hm => hm
  | list k b =>
      refine hold.of_same rfl fun n r hn => ?_
      by_cases hk : i = k
      · subst hk
        simpa [next, State.listTo] using
          pc_of_isListStep (l := s.view i) ha.1 ha.2 hn
      · simpa [next, State.listTo, hk] using hn
  | callAdd v j k =>
      refine hold.of_same rfl fun n r hn => ?_
      by_cases hk : i = k
      · subst hk
        simpa [next, State.listTo, State.suspendTo, State.view,
          AsyncPrimitive.next, AsyncPrimitive.State.goto,
          AsyncPrimitive.State.move] using hn
      · simpa [next, State.listTo, State.suspendTo, hk] using hn
  | timer b =>
      exact hold.of_same (by simp [next]) fun n r hn => by simpa [next] using hn
  | _ => exact hold.of_same rfl fun _ _ hm => hm

theorem Private.next (halone : Alone cfg w) (hrange : InRange cfg s)
    (htimer : ∀ v, s.timer.Has v → (s.timer.add v).hasPushed = true)
    (h : Private cfg s w) (ha : Enabled cfg s a) :
    Private cfg (next cfg s a) w where
  early := early_next halone hrange htimer h ha
  written := written_next halone hrange h ha
  registered := wait_registered_next halone hrange h ha
  gates := gates_next hrange halone h ha
  pointers := pointers_next halone hrange h ha
  carries := carries_next h ha

theorem private_of_reachable (halone : Alone cfg w)
    (hs : (system cfg τ).Reachable s) : Private cfg s w := by
  refine hs.invariant_of (J := fun s => InRange cfg s ∧
    ∀ v, s.timer.Has v → (s.timer.add v).hasPushed = true)
    (fun s => Private cfg s w) ?_ ?_ ?_
  · intro s hs
    exact ⟨inRange_of_reachable hs, fun v hv =>
      TimerService.hasPushed_of_has (timer_reachable hs) hv⟩
  · rintro s ⟨clock, rfl⟩
    refine ⟨fun _ => ⟨rfl, rfl, fun _ _ => rfl⟩, nofun, nofun, nofun, ?_, ?_⟩
    · intro i
      exact ⟨nofun, nofun, nofun⟩
    · intro i t
      trivial
  · intro s a hJ h ha
    exact Private.next halone hJ.1 hJ.2 h ha

end Steps

end GatedWait
end Ethreads
