import Ethreads.TimerService.Gates

/-!
# The sweep of `shutdown`

A timer with a handle and a gate is in the heap, is about to be fired by the
timer thread, or has its gate set; and the sweep still has before it what it
finds in the heap.  The timer thread has left `run` before the sweep, so that
nobody fires what is pushed after it: nothing is left behind exactly when
nothing is pushed after the sweep.
-/

namespace Ethreads
namespace TimerService

variable {ι γ η : Type*}

/-- The sweep is over, and so is its critical section or its clearing. -/
def ShutdownPc.past : ShutdownPc ι → Bool
  | unlock | returned | exchange => true
  | _ => false

/-- The sweep of `shutdown` has been made. -/
def State.Swept (s : State ι γ) : Prop :=
  s.running = false ∧ s.shutdown.past = true

/-- Nothing is pushed after the sweep. -/
def PushesBeforeSweep (s : GateState ι γ) : GateAction ι γ → Prop
  | .service (.push _) => ¬s.service.Swept
  | _ => True

instance (s : State ι γ) : Decidable s.Swept :=
  inferInstanceAs (Decidable (_ ∧ _))

instance (s : GateState ι γ) (a : GateAction ι γ) :
    Decidable (PushesBeforeSweep s a) := by
  induction a using GateAction.casesOn with
  | service b =>
      induction b using Action.casesOn <;>
        dsimp only [PushesBeforeSweep] <;> infer_instance
  | _ => exact inferInstanceAs (Decidable True)

def AllReturned (s : GateState ι γ) : Prop :=
  s.service.shutdown = .returned ∧
    ∀ i, s.service.add i = .idle ∨ s.service.add i = .returned

/-- The heap is empty, and every timer with a handle and a gate was fired: its
gate is set, and its coroutine has been scheduled once, unless another party has
set the gate and is about to schedule it. -/
structure NothingLeft (entry : ι → Entry γ η) (s : GateState ι γ) : Prop where
  heap : s.service.heap = []
  gate : ∀ i g, s.service.add i = .returned → canFire entry i = true →
    gate entry i = some g → s.service.fired g = true
  once : ∀ i g, s.service.add i = .returned → canFire entry i = true →
    TimerService.gate entry i = some g → s.other g ≠ .claimed →
      s.calls g = [g]

/-! ## Where a timer is -/

/-- What the sweep has still before it. -/
def ShutdownPc.remaining : ShutdownPc ι → Option (List ι)
  | drain rest | schedule _ rest => some rest
  | fire i rest => some (i :: rest)
  | _ => none

instance [Fintype ι] [DecidableEq ι] (s : GateState ι γ) :
    Decidable (AllReturned s) :=
  inferInstanceAs (Decidable (_ ∧ ∀ _, _ ∨ _))

/-- A timer that was pushed is in the heap, and the sweep has it before it; or
the timer thread is about to fire it; or its gate is set. -/
def Placed (s : State ι γ) (i : ι) (g : γ) : Prop :=
  (i ∈ s.heap ∧ ∀ l, s.shutdown.remaining = some l → i ∈ l) ∨
    s.timer = .fire i ∨ s.fired g = true

def LeftBeforeSweep (s : State ι γ) : Prop :=
  s.running = false → s.shutdown = .notify ∨ s.shutdown = .join ∨
    s.timer = .exited

theorem notify_eq_exited {p : TimerPc ι} :
    p.notify = .exited ↔ p = .exited := by
  cases p <;> simp [TimerPc.notify]

theorem holds_of_remaining {p : ShutdownPc ι} {l : List ι}
    (hp : p.remaining = some l) : p.holds = true := by
  cases p <;> first | rfl | exact nomatch hp

section Steps

variable [DecidableEq ι] [DecidableEq γ] {s s' : State ι γ}
  {a : Action ι γ} {entry : ι → Entry γ η} {i : ι} {g : γ}

omit [DecidableEq ι] [DecidableEq γ] in
theorem Placed.of_frame (h : Placed s i g)
    (hheap : i ∈ s.heap → (∀ l, s.shutdown.remaining = some l → i ∈ l) →
      Placed s' i g)
    (htimer : s.timer = .fire i → Placed s' i g)
    (hfired : s.fired g = true → s'.fired g = true) : Placed s' i g := by
  rcases h with ⟨hi, hrest⟩ | hpc | hset
  · exact hheap hi hrest
  · exact htimer hpc
  · exact .inr (.inr (hfired hset))

omit [DecidableEq ι] [DecidableEq γ] in
theorem Placed.of_shutdown (h : Placed s i g) (hheap : s'.heap = s.heap)
    (hpc : s'.timer = s.timer)
    (hfired : s.fired g = true → s'.fired g = true)
    (hrest : ∀ l', s'.shutdown.remaining = some l' →
      ∃ l, s.shutdown.remaining = some l ∧
        (i ∈ l → i ∈ l' ∨ s'.fired g = true)) : Placed s' i g := by
  refine h.of_frame ?_ (fun ht => .inr (.inl (hpc.trans ht))) hfired
  intro hi hl
  by_cases hset : s'.fired g = true
  · exact .inr (.inr hset)
  · refine .inl ⟨hheap ▸ hi, fun l' hl' => ?_⟩
    obtain ⟨l, hsome, himp⟩ := hrest l' hl'
    exact (himp (hl l hsome)).resolve_right hset

theorem placed_push (hexcl : Exclusive s) (hi : s.add i = .push) :
    Placed (next s (.push i)) i g := by
  refine .inl ⟨List.mem_append_right _ (List.mem_singleton_self i), ?_⟩
  intro l hl
  have hadd := hexcl.add_of_shutdown (holds_of_remaining hl) i
  rw [hi] at hadd
  cases hadd

omit [DecidableEq ι] in
theorem fired_update_true {g' : γ} (hset : s.fired g = true) :
    Function.update s.fired g' true g = true := by
  by_cases hgg : g = g'
  · rw [hgg, Function.update_self]
  · rwa [Function.update_of_ne hgg]

theorem placed_timer (h : Placed s i g)
    (hshutdown : (next s a).shutdown = s.shutdown)
    (hheap : i ∈ s.heap → i ∈ (next s a).heap ∨ (next s a).timer = .fire i)
    (htimer : s.timer = .fire i → (next s a).fired g = true)
    (hfired : s.fired g = true → (next s a).fired g = true) :
    Placed (next s a) i g := by
  refine h.of_frame ?_ (fun ht => .inr (.inr (htimer ht))) hfired
  intro hi hrest
  rcases hheap hi with hi | hpc
  · exact .inl ⟨hi, hshutdown ▸ hrest⟩
  · exact .inr (.inl hpc)

theorem placed_next (h : Placed s i g) (hfire : canFire entry i = true)
    (hg : gate entry i = some g) (ha : Enabled entry s a)
    (hstore : a ≠ .store g false) : Placed (next s a) i g := by
  cases a with
  | push j =>
      exact h.of_frame
        (fun hi hrest => .inl ⟨List.mem_append_left _ hi, hrest⟩)
        (fun ht => .inr (.inl ht)) id
  | pop now j =>
      have hne : s.timer ≠ .fire i := by simp [ha.1]
      refine placed_timer h rfl ?_ (absurd · hne) id
      intro hi
      by_cases hji : j = i
      · exact .inr (congrArg TimerPc.fire hji)
      · exact .inl ((List.mem_erase_of_ne (Ne.symm hji)).mpr hi)
  | popNothing now j =>
      have hne : s.timer ≠ .fire i := by simp [ha.1]
      refine placed_timer h rfl ?_ (absurd · hne) id
      intro hi
      have hji : i ≠ j := by
        rintro rfl
        exact absurd (hfire.symm.trans ha.2.2.2) (by simp)
      exact .inl ((List.mem_erase_of_ne hji).mpr hi)
  | fireWon j g' =>
      refine placed_timer h rfl .inl ?_ fired_update_true
      intro ht
      obtain rfl : j = i := TimerPc.fire.inj (ha.1.symm.trans ht)
      obtain rfl : g' = g := Option.some.inj (ha.2.1.symm.trans hg)
      exact Function.update_self ..
  | fireLost j g' =>
      refine placed_timer h rfl .inl ?_ id
      intro ht
      obtain rfl : j = i := TimerPc.fire.inj (ha.1.symm.trans ht)
      obtain rfl : g' = g := Option.some.inj (ha.2.1.symm.trans hg)
      exact ha.2.2
  | lockShutdown =>
      refine h.of_frame (fun hi _ => .inl ⟨hi, ?_⟩)
        (fun ht => .inr (.inl ht)) id
      rintro l ⟨⟩
      exact hi
  | drainNothing j rest =>
      refine h.of_shutdown rfl rfl id ?_
      rintro l' ⟨⟩
      refine ⟨rest, by rw [ha.1]; rfl, fun hi => .inl ?_⟩
      have hji : i ≠ j := by
        rintro rfl
        exact absurd (hfire.symm.trans ha.2.2) (by simp)
      exact (List.mem_erase_of_ne hji).mpr hi
  | drain j rest =>
      refine h.of_shutdown rfl rfl id ?_
      rintro l' ⟨⟩
      refine ⟨rest, by rw [ha.1]; rfl, fun hi => .inl ?_⟩
      by_cases hji : i = j
      · exact hji ▸ List.mem_cons_self
      · exact List.mem_cons_of_mem _ ((List.mem_erase_of_ne hji).mpr hi)
  | drainWon j rest g' =>
      refine h.of_shutdown rfl rfl fired_update_true ?_
      rintro l' ⟨⟩
      refine ⟨j :: rest, by rw [ha.1]; rfl, fun hi => ?_⟩
      rcases List.mem_cons.mp hi with rfl | hi
      · obtain rfl : g' = g := Option.some.inj (ha.2.1.symm.trans hg)
        exact .inr (Function.update_self ..)
      · exact .inl hi
  | drainLost j rest g' =>
      refine h.of_shutdown rfl rfl id ?_
      rintro l' ⟨⟩
      refine ⟨j :: rest, by rw [ha.1]; rfl, fun hi => ?_⟩
      rcases List.mem_cons.mp hi with rfl | hi
      · obtain rfl : g' = g := Option.some.inj (ha.2.1.symm.trans hg)
        exact .inr ha.2.2
      · exact .inl hi
  | drainSchedule j rest =>
      have hs : s.shutdown = .schedule j rest := ha
      refine h.of_shutdown rfl rfl id ?_
      rintro l' ⟨⟩
      exact ⟨rest, by rw [hs]; rfl, .inl⟩
  | clear =>
      have hs : s.shutdown = .drain [] := ha
      refine h.of_frame ?_ (fun ht => .inr (.inl ht)) id
      intro _ hrest
      exact absurd (hrest [] (by rw [hs]; rfl)) List.not_mem_nil
  | store g' b =>
      refine h.of_frame (fun hi hrest => .inl ⟨hi, hrest⟩)
        (fun ht => .inr (.inl ht)) ?_
      cases b with
      | true => exact fired_update_true
      | false =>
          have hgg : g ≠ g' := fun hgg => hstore (by rw [hgg])
          exact fun hset => (Function.update_of_ne hgg _ _).trans hset
  | notifyAdd j =>
      exact h.of_frame (fun hi hrest => .inl ⟨hi, hrest⟩)
        (fun ht => .inr (.inl (notify_eq_fire.mpr ht))) id
  | notifyShutdown =>
      exact h.of_frame (fun hi _ => .inl ⟨hi, nofun⟩)
        (fun ht => .inr (.inl (notify_eq_fire.mpr ht))) id
  | callShutdown | exchangeFirst | exchangeAgain | join | unlockShutdown =>
      exact h.of_shutdown rfl rfl id nofun
  | callAdd j | lockAdd j | unlockAdd j | tick =>
      exact h.of_frame (fun hi hrest => .inl ⟨hi, hrest⟩)
        (fun ht => .inr (.inl ht)) id
  | relockWait =>
      have hne : s.timer ≠ .fire i := by
        rcases ha.1 with ht | ht <;> simp [ht]
      exact placed_timer h rfl .inl (absurd · hne) id
  | wait | wake | readClock | timedWait | timedWake | unlockFired j
  | schedule j | unlockExit =>
      have ht : s.timer = _ := ha
      have hne : s.timer ≠ .fire i := by simp [ht]
      exact placed_timer h rfl .inl (absurd · hne) id
  | _ =>
      have hne : s.timer ≠ .fire i := by simp [ha.1]
      exact placed_timer h rfl .inl (absurd · hne) id

/-- Without the timer thread and the sweep, what is in the heap stays there. -/
theorem heap_ne_nil_next (hexited : s.timer = .exited) (hswept : s.Swept)
    (hheap : s.heap ≠ []) (ha : Enabled entry s a) :
    (next s a).heap ≠ [] := by
  cases a with
  | push j => exact List.append_ne_nil_of_left_ne_nil hheap _
  | pop now j | popNothing now j =>
      exact nomatch hexited.symm.trans ha.1
  | clear =>
      have hs : s.shutdown = .drain [] := ha
      have hpast := hswept.2
      rw [hs] at hpast
      cases hpast
  | _ => exact hheap

theorem swept_next (h : s.Swept) (ha : Enabled entry s a) :
    (next s a).Swept := by
  obtain ⟨hr, hpast⟩ := h
  cases a with
  | callShutdown | exchangeAgain | unlockShutdown | clear =>
      exact ⟨hr, rfl⟩
  | exchangeFirst => exact absurd (ha.2.symm.trans hr) (by simp)
  | join | lockShutdown | drainNothing j rest | drain j rest
  | drainWon j rest g' | drainLost j rest g' =>
      rw [ha.1] at hpast
      cases hpast
  | notifyShutdown | drainSchedule j rest =>
      have hs : s.shutdown = _ := ha
      rw [hs] at hpast
      cases hpast
  | _ => exact ⟨hr, hpast⟩

theorem leftBeforeSweep_next (h : LeftBeforeSweep s)
    (ha : Enabled entry s a) : LeftBeforeSweep (next s a) := by
  intro hr
  cases a with
  | exchangeFirst => exact .inl rfl
  | notifyShutdown => exact .inr (.inl rfl)
  | join => exact .inr (.inr ha.2)
  | unlockExit => exact .inr (.inr rfl)
  | notifyAdd j =>
      rcases h hr with hs | hs | ht
      · exact .inl hs
      · exact .inr (.inl hs)
      · exact .inr (.inr (notify_eq_exited.mpr ht))
  | callShutdown =>
      rcases h hr with hs | hs | ht
      · rcases ha with ha | ha <;> exact nomatch ha.symm.trans hs
      · rcases ha with ha | ha <;> exact nomatch ha.symm.trans hs
      · exact .inr (.inr ht)
  | exchangeAgain | lockShutdown | drainNothing j rest | drain j rest
  | drainWon j rest g' | drainLost j rest g' =>
      rcases h hr with hs | hs | ht
      · exact nomatch hs.symm.trans ha.1
      · exact nomatch hs.symm.trans ha.1
      · exact .inr (.inr ht)
  | drainSchedule j rest | clear | unlockShutdown =>
      rcases h hr with hs | hs | ht
      · exact nomatch hs.symm.trans ha
      · exact nomatch hs.symm.trans ha
      · exact .inr (.inr ht)
  | callAdd j | lockAdd j | push j | unlockAdd j | store g' b | tick =>
      exact h hr
  | relockWait =>
      rcases h hr with hs | hs | ht
      · exact .inl hs
      · exact .inr (.inl hs)
      · rcases ha.1 with ha | ha <;> exact nomatch ha.symm.trans ht
  | wait | wake | readClock | timedWait | timedWake | unlockFired j
  | schedule j =>
      rcases h hr with hs | hs | ht
      · exact .inl hs
      · exact .inr (.inl hs)
      · exact nomatch ht.symm.trans ha
  | _ =>
      rcases h hr with hs | hs | ht
      · exact .inl hs
      · exact .inr (.inl hs)
      · exact nomatch ht.symm.trans ha.1

theorem leftBeforeSweep_reachable (hs : (system entry).Reachable s) :
    LeftBeforeSweep s := by
  refine hs.invariant LeftBeforeSweep ?_
    fun s a h ha => leftBeforeSweep_next h ha
  rintro s ⟨fired, clock, rfl⟩
  nofun

/-- After the sweep the timer thread has left `run`. -/
theorem exited_of_swept (hs : (system entry).Reachable s) (h : s.Swept) :
    s.timer = .exited := by
  rcases leftBeforeSweep_reachable hs h.1 with hpc | hpc | ht
  · have hpast := h.2
    rw [hpc] at hpast
    cases hpast
  · have hpast := h.2
    rw [hpc] at hpast
    cases hpast
  · exact ht

/-- `shutdown` returns only after the sweep. -/
theorem running_of_returned (hs : (system entry).Reachable s)
    (hreturned : s.shutdown = .returned) : s.running = false := by
  by_contra hr
  rw [Bool.not_eq_false] at hr
  rcases shutdown_of_running hs hr with hpc | hpc
  · exact nomatch hpc.symm.trans hreturned
  · exact nomatch hpc.symm.trans hreturned

end Steps

section Runs

variable [DecidableEq ι] [DecidableEq γ] {s : GateState ι γ}
  {a : GateAction ι γ} {entry : ι → Entry γ η}

/-- Every timer that was pushed is in its place. -/
theorem placed_reachable (hs : (gateSystem entry).Reachable s) {i : ι}
    {g : γ} (hfire : canFire entry i = true) (hg : gate entry i = some g)
    (hi : (s.service.add i).hasPushed = true) : Placed s.service i g := by
  refine hs.invariant_of
    (J := fun s => Exclusive s.service) (fun s =>
      (s.service.add i).hasPushed = true → Placed s.service i g)
    (fun s hs => exclusive_reachable (service_of_gates hs)) ?_ ?_ hi
  · rintro s ⟨clock, rfl⟩ hi
    cases hi
  · intro s a hexcl h ha hi
    cases a with
    | claim g' =>
        exact placed_next (h hi) hfire hg (a := .store g' true) trivial
          (by simp)
    | deliver g' => exact h hi
    | service a =>
        rcases (hasPushed_next_iff ha.1).mp hi with hi | rfl
        · refine placed_next (h hi) hfire hg ha.1 ?_
          rintro rfl
          exact absurd ha.2 (by simp [Action.isStore])
        · exact placed_push hexcl ha.1

theorem running_of_idle (hs : (gateSystem entry).Reachable s)
    (hidle : s.service.shutdown = .idle) : s.service.running = true := by
  refine hs.invariant (fun s => s.service.shutdown = .idle →
    s.service.running = true) ?_ ?_ hidle
  · rintro s ⟨clock, rfl⟩ -
    rfl
  · intro s a h ha hidle
    cases a with
    | claim g => exact h hidle
    | deliver g => exact h hidle
    | service a =>
        cases a with
        | callShutdown | exchangeFirst | exchangeAgain | notifyShutdown | join
        | lockShutdown | drainNothing j rest | drain j rest
        | drainWon j rest g' | drainLost j rest g' | drainSchedule j rest
        | clear | unlockShutdown => exact nomatch hidle
        | _ => exact h hidle

/-- If nothing is pushed after the sweep, the heap stays empty. -/
theorem heap_of_pushesBeforeSweep
    (hs : (gateSystem entry).ReachableWhere PushesBeforeSweep s)
    (hswept : s.service.Swept) : s.service.heap = [] := by
  refine hs.invariant_of
    (J := fun s => s.service.shutdown = .idle → s.service.running = true)
    (fun s => s.service.Swept → s.service.heap = [])
    (fun s hs => running_of_idle hs.reachable) ?_ ?_ hswept
  · rintro s ⟨clock, rfl⟩ -
    rfl
  · intro s a hidle h ha hP hswept
    cases a with
    | claim g => exact h hswept
    | deliver g => exact h hswept
    | service a =>
        cases a with
        | clear => rfl
        | push j => exact absurd hswept hP
        | pop now j | popNothing now j =>
            have hmem := ha.1.2.1.1
            rw [h hswept] at hmem
            exact absurd hmem List.not_mem_nil
        | callShutdown =>
            rcases ha.1 with hs | hs
            · exact absurd ((hidle hs).symm.trans hswept.1) (by simp)
            · exact h ⟨hswept.1, by rw [hs]; rfl⟩
        | exchangeAgain => exact h ⟨hswept.1, by rw [ha.1.1]; rfl⟩
        | unlockShutdown =>
            have hs : s.service.shutdown = .unlock := ha.1
            exact h ⟨hswept.1, by rw [hs]; rfl⟩
        | exchangeFirst | notifyShutdown | join | lockShutdown
        | drainNothing j rest | drain j rest | drainWon j rest g'
        | drainLost j rest g' | drainSchedule j rest =>
            exact nomatch hswept.2
        | _ => exact h hswept

/-- A run pushes nothing after the sweep, or leaves something in the heap for
good. -/
theorem pushesBeforeSweep_or_left (hs : (gateSystem entry).Reachable s) :
    (gateSystem entry).ReachableWhere PushesBeforeSweep s ∨
      s.service.Swept ∧ s.service.heap ≠ [] := by
  refine hs.invariant_of (J := (gateSystem entry).Reachable)
    (fun s => (gateSystem entry).ReachableWhere PushesBeforeSweep s ∨
      s.service.Swept ∧ s.service.heap ≠ []) (fun s hs => hs)
    (fun s h0 => .inl (.init h0)) ?_
  intro s a hs h ha
  by_cases hP : PushesBeforeSweep s a
  · rcases h with hwhere | ⟨hswept, hheap⟩
    · exact .inl (.step hwhere ha hP)
    · right
      have hexited := exited_of_swept (service_of_gates hs) hswept
      cases a with
      | claim g => exact ⟨hswept, hheap⟩
      | deliver g => exact ⟨hswept, hheap⟩
      | service a =>
          exact ⟨swept_next hswept ha.1,
            heap_ne_nil_next hexited hswept hheap ha.1⟩
  · right
    cases a with
    | claim g => exact absurd trivial hP
    | deliver g => exact absurd trivial hP
    | service a =>
        cases a with
        | push j =>
            exact ⟨not_not.mp hP, List.append_ne_nil_of_right_ne_nil _ nofun⟩
        | _ => exact absurd trivial hP

/-- Once `shutdown` and all calls of `add_timer` have returned, nothing is left
behind exactly if nothing was pushed after the sweep. -/
theorem nothingLeft_iff_pushesBeforeSweep (entry : ι → Entry γ η) :
    ∀ s, (gateSystem entry).Reachable s → AllReturned s →
      (NothingLeft entry s ↔
        (gateSystem entry).ReachableWhere PushesBeforeSweep s) := by
  intro s hs hreturned
  have hservice := service_of_gates hs
  have hswept : s.service.Swept :=
    ⟨running_of_returned hservice hreturned.1, by rw [hreturned.1]; rfl⟩
  have hexited := exited_of_swept hservice hswept
  constructor
  · intro h
    rcases pushesBeforeSweep_or_left hs with hwhere | ⟨-, hheap⟩
    · exact hwhere
    · exact absurd h.heap hheap
  · intro hwhere
    have hheap := heap_of_pushesBeforeSweep hwhere hswept
    have hfired : ∀ i g, s.service.add i = .returned →
        canFire entry i = true → gate entry i = some g →
          s.service.fired g = true := by
      intro i g hi hfire hg
      rcases placed_reachable hs hfire hg (by rw [hi]; rfl) with
        ⟨hmem, -⟩ | ht | hset
      · rw [hheap] at hmem
        exact absurd hmem List.not_mem_nil
      · exact nomatch hexited.symm.trans ht
      · exact hset
    refine ⟨hheap, hfired, fun i g hi hfire hg hother => ?_⟩
    refine (account_reachable hs g).calls_of_attempted
      (hfired i g hi hfire hg) fun p => ?_
    cases p with
    | timer => simp [GateState.Owes, hexited, TimerPc.owed]
    | shutdown => simp [GateState.Owes, hreturned.1, ShutdownPc.owed]
    | other => exact hother

end Runs

def sleepTimer : Fin 1 → Entry (Fin 1) (Fin 1) :=
  fun _ => ⟨0, none, none, some ⟨some 0, 0⟩⟩

/-- The timer thread waits for a timer and is shut down. -/
def shutDownWaiting : List (GateAction (Fin 1) (Fin 1)) :=
  [.lockTimer, .loadRunningTrue, .heapEmpty, .predicateHeapFalse,
    .predicateRunning, .wait, .callShutdown, .exchangeFirst, .notifyShutdown,
    .relockWait, .predicateHeapFalse, .predicateStopped, .loadRunningFalse,
    .unlockExit, .join].map .service

/-- The timer is added before the sweep, which schedules its coroutine. -/
def addBeforeSweep : List (GateAction (Fin 1) (Fin 1)) :=
  shutDownWaiting ++ ([.callAdd 0, .lockAdd 0, .push 0, .unlockAdd 0,
    .notifyAdd 0, .lockShutdown, .drain 0 [0], .drainWon 0 [] 0,
    .drainSchedule 0 [], .clear, .unlockShutdown] :
      List (Action (Fin 1) (Fin 1))).map .service

theorem nothingLeft_addBeforeSweep :
    NothingLeft sleepTimer ((gateSystem sleepTimer).after
      (.initial (Fin 1) (Fin 1) 0) addBeforeSweep) :=
  (nothingLeft_iff_pushesBeforeSweep sleepTimer _
    (TransitionSystem.Executes.reachable (.init ⟨_, rfl⟩) (by decide))
    (by decide)).mpr
      (TransitionSystem.Executes.reachableWhere (.init ⟨_, rfl⟩) (by decide))

/-- The timer is added after the sweep. -/
def addAfterSweep : List (GateAction (Fin 1) (Fin 1)) :=
  shutDownWaiting ++ ([.lockShutdown, .clear, .unlockShutdown, .callAdd 0,
    .lockAdd 0, .push 0, .unlockAdd 0, .notifyAdd 0] :
      List (Action (Fin 1) (Fin 1))).map .service

theorem not_forall_nothingLeft :
    ¬∀ s, (gateSystem sleepTimer).Reachable s → AllReturned s →
      NothingLeft sleepTimer s := by
  intro h
  have hleft := h ((gateSystem sleepTimer).after
    (.initial (Fin 1) (Fin 1) 0) addAfterSweep)
    (TransitionSystem.Executes.reachable (.init ⟨_, rfl⟩) (by decide))
    (by decide)
  exact absurd hleft.heap (by decide)

end TimerService
end Ethreads
