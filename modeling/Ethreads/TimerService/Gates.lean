import Ethreads.Support.OneShot
import Ethreads.TimerService.Exclusion

/-!
# The gates of the timers

The flag of a timer entry is the gate of a coroutine: whoever sets it by a
compare-exchange schedules the coroutine afterwards.  Besides the timer thread
and `shutdown` this is some other party, such as a callback of a cancellation or
a call that wakes a waiter.  Here the service runs together with these other
parties, and the gates are changed in no other way.
-/

namespace Ethreads
namespace TimerService

variable {ι γ η : Type*}

/-- How far another party is with a gate. -/
inductive Claim
  | none
  | claimed
  | delivered
  deriving DecidableEq, Repr

/-- The service, the other parties, and the calls of `schedule_coro_handle`
made by those who have set a gate. -/
structure GateState (ι γ : Type*) where
  service : State ι γ
  other : γ → Claim
  calls : γ → List γ

inductive GateAction (ι γ : Type*)
  | service (a : Action ι γ)
  | claim (g : γ)
  | deliver (g : γ)
  deriving DecidableEq, Repr

def gate (entry : ι → Entry γ η) (i : ι) : Option γ :=
  (viewOf (entry i)).fired

/-- The step writes to a gate without a compare-exchange. -/
def Action.isStore : Action ι γ → Bool
  | store _ _ => true
  | _ => false

def Action.sets : Action ι γ → Option γ
  | fireWon _ g | drainWon _ _ g | store g _ => some g
  | _ => none

/-- When a step may be taken. -/
def GateState.Enabled (entry : ι → Entry γ η) (s : GateState ι γ) :
    GateAction ι γ → Prop
  | .service a => TimerService.Enabled entry s.service a ∧ a.isStore = false
  | .claim g => s.service.fired g = false
  | .deliver g => s.other g = .claimed

section Next

variable [DecidableEq ι] [DecidableEq γ]

/-- The calls after the coroutine behind a gate has been scheduled. -/
def called (calls : γ → List γ) : Option γ → γ → List γ
  | some g => Function.update calls g (calls g ++ [g])
  | none => calls

def GateState.callsAfter (entry : ι → Entry γ η) (s : GateState ι γ) :
    Action ι γ → γ → List γ
  | .schedule i | .drainSchedule i _ => called s.calls (gate entry i)
  | _ => s.calls

/-- The effect of a step. -/
def GateState.next (entry : ι → Entry γ η) (s : GateState ι γ) :
    GateAction ι γ → GateState ι γ
  | .service a =>
      { s with
        service := TimerService.next s.service a
        calls := s.callsAfter entry a }
  | .claim g =>
      { s with
        service := TimerService.next s.service (.store g true)
        other := Function.update s.other g .claimed }
  | .deliver g =>
      { s with
        other := Function.update s.other g .delivered
        calls := called s.calls (some g) }

/-- The service right after its constructor, with unset gates. -/
def GateState.initial (ι γ : Type*) (clock : ℕ) : GateState ι γ where
  service := initialState ι γ (fun _ => false) clock
  other := fun _ => .none
  calls := fun _ => []

def gateSystem (entry : ι → Entry γ η) :
    TransitionSystem (GateState ι γ) (GateAction ι γ) where
  Initial s := ∃ clock, s = .initial ι γ clock
  Enabled := GateState.Enabled entry
  next := GateState.next entry

instance (entry : ι → Entry γ η) (s : GateState ι γ) (a : GateAction ι γ) :
    Decidable ((gateSystem entry).Enabled s a) := by
  cases a <;> dsimp only [gateSystem, GateState.Enabled] <;> infer_instance

end Next

/-! ## One account for each gate -/

/-- The entry whose gate the timer thread has set and has still to
schedule. -/
def TimerPc.owed : TimerPc ι → Option ι
  | unlockFired i | schedule i => some i
  | _ => none

/-- The entry whose gate `shutdown` has set and has still to schedule. -/
def ShutdownPc.owed : ShutdownPc ι → Option ι
  | schedule i _ => some i
  | _ => none

/-- Those who set gates. -/
inductive Party
  | timer
  | shutdown
  | other
  deriving DecidableEq, Repr

/-- The party has set the gate and has still to schedule the coroutine. -/
def GateState.Owes (entry : ι → Entry γ η) (s : GateState ι γ) (g : γ) :
    Party → Prop
  | .timer => s.service.timer.owed.bind (gate entry) = some g
  | .shutdown => s.service.shutdown.owed.bind (gate entry) = some g
  | .other => s.other g = .claimed

def Account (entry : ι → Entry γ η) (s : GateState ι γ) (g : γ) : Prop :=
  OneShot g (s.service.fired g) (s.service.fired g) (s.calls g)
    (s.Owes entry g)

theorem owed_notify (p : TimerPc ι) : p.notify.owed = p.owed := by
  cases p <;> rfl

section Steps

variable [DecidableEq ι] [DecidableEq γ] {s s' : GateState ι γ}
  {entry : ι → Entry γ η} {g : γ}

theorem fired_next_of_ne {t : State ι γ} {a : Action ι γ}
    (ha : a.sets ≠ some g) : (next t a).fired g = t.fired g := by
  cases a with
  | fireWon i g' | drainWon i rest g' | store g' b =>
      exact Function.update_of_ne (fun hg => ha (congrArg some hg.symm)) _ _
  | _ => rfl

omit [DecidableEq ι] [DecidableEq γ] in
/-- The service sets the gate of an entry that it has. -/
theorem has_of_sets {t : State ι γ} {a : Action ι γ}
    (ha : Enabled entry t a) (hstore : a.isStore = false)
    (hsets : a.sets = some g) :
    ∃ i, gate entry i = some g ∧ t.fired g = false ∧
      (t.timer = .fire i ∨ ∃ rest, t.shutdown = .fire i rest) := by
  cases a with
  | fireWon i g' =>
      obtain rfl := Option.some.inj hsets
      exact ⟨i, ha.2.1, ha.2.2, .inl ha.1⟩
  | drainWon i rest g' =>
      obtain rfl := Option.some.inj hsets
      exact ⟨i, ha.2.1, ha.2.2, .inr ⟨rest, ha.1⟩⟩
  | store g' b => cases hstore
  | _ => cases hsets

theorem called_of_ne {calls : γ → List γ} {g' : Option γ}
    (hg : g' ≠ some g) : called calls g' g = calls g := by
  cases g' with
  | none => rfl
  | some g' =>
      exact Function.update_of_ne (fun h => hg (congrArg some h.symm)) _ _

theorem called_self (calls : γ → List γ) (g : γ) :
    called calls (some g) g = calls g ++ [g] :=
  Function.update_self ..

omit [DecidableEq ι] [DecidableEq γ] in
/-- Who owes a call after a step, party by party. -/
theorem owes_iff {P : Party → Prop}
    (htimer : s'.Owes entry g .timer ↔ P .timer)
    (hshutdown : s'.Owes entry g .shutdown ↔ P .shutdown)
    (hother : s'.Owes entry g .other ↔ P .other) (p : Party) :
    s'.Owes entry g p ↔ P p := by
  cases p with
  | timer => exact htimer
  | shutdown => exact hshutdown
  | other => exact hother

omit [DecidableEq ι] [DecidableEq γ] in
theorem Account.of_same (h : Account entry s g)
    (hfired : s'.service.fired g = s.service.fired g)
    (hcalls : s'.calls g = s.calls g)
    (howes : ∀ p, s'.Owes entry g p ↔ s.Owes entry g p) :
    Account entry s' g := by
  unfold Account
  rw [hfired, hcalls]
  exact h.congr howes

omit [DecidableEq ι] [DecidableEq γ] in
theorem Account.won (h : Account entry s g) (p : Party)
    (hunset : s.service.fired g = false) (hset : s'.service.fired g = true)
    (hcalls : s'.calls g = s.calls g)
    (howes : ∀ q, s'.Owes entry g q ↔ s.Owes entry g q ∨ q = p) :
    Account entry s' g := by
  unfold Account at h ⊢
  rw [hunset] at h
  rw [hset, hcalls]
  exact h.win howes

omit [DecidableEq ι] [DecidableEq γ] in
theorem Account.delivered (h : Account entry s g) {p : Party}
    (hp : s.Owes entry g p) (hfired : s'.service.fired g = s.service.fired g)
    (hcalls : s'.calls g = s.calls g ++ [g])
    (howes : ∀ q, s'.Owes entry g q ↔ s.Owes entry g q ∧ q ≠ p) :
    Account entry s' g := by
  unfold Account
  rw [hfired, hcalls]
  exact h.call hp howes

theorem Account.of_quiet (h : Account entry s g) {a : Action ι γ}
    (hfired : (next s.service a).fired g = s.service.fired g)
    (hcalls : s.callsAfter entry a g = s.calls g)
    (htimer : (next s.service a).timer.owed = s.service.timer.owed)
    (hshutdown : (next s.service a).shutdown.owed =
      s.service.shutdown.owed) :
    Account entry (s.next entry (.service a)) g := by
  refine h.of_same hfired hcalls (owes_iff ?_ ?_ Iff.rfl)
  · simp only [GateState.Owes, GateState.next, htimer]
  · simp only [GateState.Owes, GateState.next, hshutdown]

theorem account_fireWon (h : Account entry s g) {i : ι} {g' : γ}
    (ha : Enabled entry s.service (.fireWon i g')) :
    Account entry (s.next entry (.service (.fireWon i g'))) g := by
  obtain ⟨hpc, hg, hunset⟩ := ha
  have hbefore : ¬s.Owes entry g .timer := by
    simp [GateState.Owes, hpc, TimerPc.owed]
  by_cases hgg : g = g'
  · subst hgg
    refine h.won .timer hunset (Function.update_self ..) rfl
      (owes_iff ?_ ?_ ?_)
    · simp [GateState.Owes, GateState.next, next, TimerPc.owed, gate, hg]
    · simp [GateState.Owes, GateState.next, next]
    · simp [GateState.Owes, GateState.next]
  · refine h.of_same (Function.update_of_ne hgg _ _) rfl
      (owes_iff ?_ Iff.rfl Iff.rfl)
    rw [iff_false_right hbefore]
    simp [GateState.Owes, GateState.next, next, TimerPc.owed, gate, hg,
      Ne.symm hgg]

theorem account_drainWon (h : Account entry s g) {i : ι} {rest : List ι}
    {g' : γ} (ha : Enabled entry s.service (.drainWon i rest g')) :
    Account entry (s.next entry (.service (.drainWon i rest g'))) g := by
  obtain ⟨hpc, hg, hunset⟩ := ha
  have hbefore : ¬s.Owes entry g .shutdown := by
    simp [GateState.Owes, hpc, ShutdownPc.owed]
  by_cases hgg : g = g'
  · subst hgg
    refine h.won .shutdown hunset (Function.update_self ..) rfl
      (owes_iff ?_ ?_ ?_)
    · simp [GateState.Owes, GateState.next, next]
    · simp [GateState.Owes, GateState.next, next, ShutdownPc.owed, gate, hg]
    · simp [GateState.Owes, GateState.next]
  · refine h.of_same (Function.update_of_ne hgg _ _) rfl
      (owes_iff Iff.rfl ?_ Iff.rfl)
    rw [iff_false_right hbefore]
    simp [GateState.Owes, GateState.next, next, ShutdownPc.owed, gate, hg,
      Ne.symm hgg]

theorem account_schedule (h : Account entry s g) {i : ι}
    (ha : s.service.timer = .schedule i) :
    Account entry (s.next entry (.service (.schedule i))) g := by
  have hafter : ¬(s.next entry (.service (.schedule i))).Owes entry g
      .timer := by
    simp [GateState.Owes, GateState.next, next, TimerPc.owed]
  have howed : s.Owes entry g .timer ↔ gate entry i = some g := by
    simp [GateState.Owes, ha, TimerPc.owed]
  by_cases hg : gate entry i = some g
  · refine h.delivered (howed.mpr hg) rfl ?_ (owes_iff ?_ ?_ ?_)
    · exact (congrFun (congrArg (called s.calls) hg) g).trans
        (called_self s.calls g)
    · simp [hafter]
    · simp [GateState.Owes, GateState.next, next]
    · simp [GateState.Owes, GateState.next]
  · refine h.of_same rfl (called_of_ne hg) (owes_iff ?_ Iff.rfl Iff.rfl)
    rw [iff_false_left hafter, howed]
    exact hg

theorem account_drainSchedule (h : Account entry s g) {i : ι}
    {rest : List ι} (ha : s.service.shutdown = .schedule i rest) :
    Account entry (s.next entry (.service (.drainSchedule i rest))) g := by
  have hafter : ¬(s.next entry (.service (.drainSchedule i rest))).Owes entry
      g .shutdown := by
    simp [GateState.Owes, GateState.next, next, ShutdownPc.owed]
  have howed : s.Owes entry g .shutdown ↔ gate entry i = some g := by
    simp [GateState.Owes, ha, ShutdownPc.owed]
  by_cases hg : gate entry i = some g
  · refine h.delivered (howed.mpr hg) rfl ?_ (owes_iff ?_ ?_ ?_)
    · exact (congrFun (congrArg (called s.calls) hg) g).trans
        (called_self s.calls g)
    · simp [GateState.Owes, GateState.next, next]
    · simp [hafter]
    · simp [GateState.Owes, GateState.next]
  · refine h.of_same rfl (called_of_ne hg) (owes_iff Iff.rfl ?_ Iff.rfl)
    rw [iff_false_left hafter, howed]
    exact hg

theorem account_claim (h : Account entry s g) {g' : γ}
    (ha : s.service.fired g' = false) :
    Account entry (s.next entry (.claim g')) g := by
  by_cases hgg : g = g'
  · subst hgg
    refine h.won .other ha (Function.update_self ..) rfl (owes_iff ?_ ?_ ?_)
    · simp [GateState.Owes, GateState.next, next]
    · simp [GateState.Owes, GateState.next, next]
    · simp [GateState.Owes, GateState.next]
  · refine h.of_same (Function.update_of_ne hgg _ _) rfl
      (owes_iff Iff.rfl Iff.rfl ?_)
    simp [GateState.Owes, GateState.next, Function.update_of_ne hgg]

theorem account_deliver (h : Account entry s g) {g' : γ}
    (ha : s.other g' = .claimed) :
    Account entry (s.next entry (.deliver g')) g := by
  by_cases hgg : g = g'
  · subst hgg
    refine h.delivered (p := .other) ha rfl (called_self s.calls g)
      (owes_iff ?_ ?_ ?_)
    · simp [GateState.Owes, GateState.next]
    · simp [GateState.Owes, GateState.next]
    · simp [GateState.Owes, GateState.next]
  · have hne : some g' ≠ some g := fun hg => hgg (Option.some.inj hg).symm
    refine h.of_same rfl (called_of_ne hne)
      (owes_iff Iff.rfl Iff.rfl ?_)
    simp [GateState.Owes, GateState.next, Function.update_of_ne hgg]

theorem account_next {a : GateAction ι γ} (h : Account entry s g)
    (ha : s.Enabled entry a) : Account entry (s.next entry a) g := by
  cases a with
  | claim g' => exact account_claim h ha
  | deliver g' => exact account_deliver h ha
  | service a =>
      obtain ⟨ha, hstore⟩ := ha
      cases a with
      | fireWon i g' => exact account_fireWon h ha
      | drainWon i rest g' => exact account_drainWon h ha
      | schedule i => exact account_schedule h ha
      | drainSchedule i rest => exact account_drainSchedule h ha
      | store g' b => exact absurd hstore (by simp [Action.isStore])
      | notifyAdd i => exact h.of_quiet rfl rfl (owed_notify _) rfl
      | notifyShutdown =>
          have hs : s.service.shutdown = .notify := ha
          exact h.of_quiet rfl rfl (owed_notify _) (by rw [hs]; rfl)
      | callAdd i | lockAdd i | push i | unlockAdd i | tick =>
          exact h.of_quiet rfl rfl rfl rfl
      | callShutdown =>
          refine h.of_quiet rfl rfl rfl ?_
          rcases ha with hs | hs <;> rw [hs] <;> rfl
      | exchangeFirst | exchangeAgain | join | lockShutdown
      | drainNothing i rest | drain i rest | drainLost i rest g' =>
          exact h.of_quiet rfl rfl rfl (by rw [ha.1]; rfl)
      | clear | unlockShutdown =>
          have hs : s.service.shutdown = _ := ha
          exact h.of_quiet rfl rfl rfl (by rw [hs]; rfl)
      | relockWait =>
          refine h.of_quiet rfl rfl ?_ rfl
          rcases ha.1 with ht | ht <;> rw [ht] <;> rfl
      | predicateHeapTrue | predicateHeapFalse | predicateStopped
      | predicateRunning | lockTimer | loadRunningTrue | loadRunningFalse
      | heapEmpty | heapNotEmpty | pop now i | popNothing now i | notDue now
      | relockTimedWait | fireLost i g' | relock =>
          exact h.of_quiet rfl rfl (by rw [ha.1]; rfl) rfl
      | wait | wake | readClock | timedWait | timedWake | unlockFired i
      | unlockExit =>
          have ht : s.service.timer = _ := ha
          exact h.of_quiet rfl rfl (by rw [ht]; rfl) rfl

theorem account_reachable (hs : (gateSystem entry).Reachable s) (g : γ) :
    Account entry s g := by
  refine hs.invariant (fun s => Account entry s g) ?_
    fun s a h ha => account_next h ha
  rintro s ⟨clock, rfl⟩
  refine OneShot.initial.congr (owes_iff ?_ ?_ ?_)
  · simp [GateState.Owes, GateState.initial, initialState, TimerPc.owed]
  · simp [GateState.Owes, GateState.initial, initialState, ShutdownPc.owed]
  · simp [GateState.Owes, GateState.initial]

/-- The service takes part in each step with one of its own or with none. -/
theorem service_of_gates (hs : (gateSystem entry).Reachable s) :
    (system entry).Reachable s.service := by
  refine hs.project (fun s => s.service) ?_ ?_
  · rintro s ⟨clock, rfl⟩
    exact ⟨_, clock, rfl⟩
  · intro s a _ ha _
    cases a with
    | service a => exact .inr ⟨a, ha.1, trivial, rfl⟩
    | claim g => exact .inr ⟨.store g true, trivial, trivial, rfl⟩
    | deliver g => exact .inl rfl

end Steps

end TimerService
end Ethreads
