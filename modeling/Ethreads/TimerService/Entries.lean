import Ethreads.TimerService.Model

/-!
# Entries of the timer heap

An entry is in the heap, or in the hands of the timer thread or of `shutdown`,
only after its call of `add_timer` has pushed it, and the timer thread has it
in its hands only after its deadline.
-/

namespace Ethreads
namespace TimerService

variable {ι γ η : Type*}

def AddPc.hasPushed : AddPc → Bool
  | unlock | notify | returned => true
  | _ => false

def TimerPc.entry : TimerPc ι → Option ι
  | fire i | unlockFired i | schedule i => some i
  | _ => none

def ShutdownPc.entries : ShutdownPc ι → List ι
  | drain rest => rest
  | fire i rest | schedule i rest => i :: rest
  | _ => []

def State.Has (s : State ι γ) (i : ι) : Prop :=
  i ∈ s.heap ∨ s.timer.entry = some i ∨ i ∈ s.shutdown.entries

/-- The entry is in the heap, or the timer thread has popped it and not yet
fired it. -/
def State.Queued (s : State ι γ) (i : ι) : Prop :=
  i ∈ s.heap ∨ s.timer = .fire i

instance [DecidableEq ι] (s : State ι γ) (i : ι) : Decidable (s.Queued i) :=
  inferInstanceAs (Decidable (_ ∨ _))

theorem notify_eq_fire {p : TimerPc ι} {i : ι} :
    p.notify = .fire i ↔ p = .fire i := by
  cases p <;> simp [TimerPc.notify]

theorem entry_notify (p : TimerPc ι) : p.notify.entry = p.entry := by
  cases p <;> rfl

section Steps

variable [DecidableEq ι] [DecidableEq γ] {s s' : State ι γ}
  {a : Action ι γ} {entry : ι → Entry γ η}

/-- Only a push brings an entry into the service. -/
theorem has_of_next {i : ι} (ha : Enabled entry s a)
    (hi : (next s a).Has i) : s.Has i ∨ a = .push i := by
  have hheap : i ∈ s.heap → s.Has i := .inl
  have hentry : s.timer.entry = some i → s.Has i := fun h => .inr (.inl h)
  have hrest : i ∈ s.shutdown.entries → s.Has i := fun h => .inr (.inr h)
  have hold : (i ∈ (next s a).heap → s.Has i) →
      ((next s a).timer.entry = some i → s.Has i) →
        (i ∈ (next s a).shutdown.entries → s.Has i) →
          s.Has i ∨ a = .push i := by
    intro h₁ h₂ h₃
    rcases hi with hi | hi | hi
    · exact .inl (h₁ hi)
    · exact .inl (h₂ hi)
    · exact .inl (h₃ hi)
  cases a with
  | push j =>
      by_cases hij : j = i
      · exact .inr (by rw [hij])
      · refine hold (fun h => hheap ?_) hentry hrest
        simpa [next, Ne.symm hij] using h
  | pop now j =>
      refine hold (fun h => hheap (List.mem_of_mem_erase h)) ?_ hrest
      intro h
      obtain rfl : j = i := Option.some.inj h
      exact hheap ha.2.1.1
  | popNothing now j =>
      exact hold (fun h => hheap (List.mem_of_mem_erase h)) nofun hrest
  | fireWon j g =>
      exact hold hheap (fun h => hentry (by rw [ha.1]; exact h)) hrest
  | unlockFired j =>
      have htimer : s.timer = .unlockFired j := ha
      exact hold hheap (fun h => hentry (by rw [htimer]; exact h)) hrest
  | notifyAdd j =>
      exact hold hheap
        (fun h => hentry ((entry_notify s.timer).symm.trans h)) hrest
  | notifyShutdown =>
      exact hold hheap
        (fun h => hentry ((entry_notify s.timer).symm.trans h)) nofun
  | lockShutdown => exact hold hheap hentry hheap
  | drainNothing j rest =>
      refine hold hheap hentry fun h => hrest ?_
      rw [ha.1]
      exact List.mem_of_mem_erase h
  | drain j rest =>
      refine hold hheap hentry fun h => hrest ?_
      rw [ha.1]
      rcases List.mem_cons.mp h with rfl | h
      · exact ha.2.1
      · exact List.mem_of_mem_erase h
  | drainWon j rest g =>
      exact hold hheap hentry fun h => hrest (by rw [ha.1]; exact h)
  | drainLost j rest g =>
      refine hold hheap hentry fun h => hrest ?_
      rw [ha.1]
      exact List.mem_cons_of_mem _ h
  | drainSchedule j rest =>
      have hs : s.shutdown = .schedule j rest := ha
      refine hold hheap hentry fun h => hrest ?_
      rw [hs]
      exact List.mem_cons_of_mem _ h
  | clear => exact hold nofun hentry nofun
  | callShutdown | exchangeFirst | exchangeAgain | join | unlockShutdown =>
      exact hold hheap hentry nofun
  | callAdd j | lockAdd j | unlockAdd j | store g b | tick => exact .inl hi
  | _ => exact hold hheap nofun hrest

/-- A call that has pushed its entry has done so for good. -/
theorem hasPushed_next {i : ι} (ha : Enabled entry s a)
    (hi : (s.add i).hasPushed = true) :
    ((next s a).add i).hasPushed = true := by
  have hstep : ∀ {j : ι} {q : AddPc},
      ((s.add j).hasPushed = true → q.hasPushed = true) →
        (Function.update s.add j q i).hasPushed = true := by
    intro j q hq
    by_cases hij : i = j
    · rw [hij, Function.update_self]
      exact hq (hij ▸ hi)
    · rwa [Function.update_of_ne hij]
  cases a with
  | callAdd j =>
      have hidle : s.add j = .idle := ha
      exact hstep (by rw [hidle]; nofun)
  | lockAdd j => exact hstep (by rw [ha.1]; nofun)
  | push j | unlockAdd j | notifyAdd j => exact hstep fun _ => rfl
  | _ => exact hi

theorem add_eq_idle_next {i : ι} (hi : s.add i = .idle)
    (ha : Enabled entry s a) (hcall : a ≠ .callAdd i) :
    (next s a).add i = .idle := by
  have hkeep : ∀ {j : ι} {q : AddPc}, j ≠ i →
      Function.update s.add j q i = .idle :=
    fun hji => (Function.update_of_ne hji.symm _ _).trans hi
  cases a with
  | callAdd j => exact hkeep fun hji => hcall (by rw [hji])
  | lockAdd j =>
      refine hkeep ?_
      rintro rfl
      exact nomatch hi.symm.trans ha.1
  | push j | unlockAdd j | notifyAdd j =>
      refine hkeep ?_
      rintro rfl
      exact nomatch hi.symm.trans ha
  | _ => exact hi

theorem hasPushed_next_iff {i : ι} (ha : Enabled entry s a) :
    ((next s a).add i).hasPushed = true ↔
      (s.add i).hasPushed = true ∨ a = .push i := by
  constructor
  · intro hi
    have hstep : ∀ {j : ι} {q : AddPc}, (next s a).add =
        Function.update s.add j q → (q.hasPushed = true →
          (s.add j).hasPushed = true ∨ a = .push j) →
            (s.add i).hasPushed = true ∨ a = .push i := by
      intro j q hadd hq
      rw [hadd] at hi
      by_cases hij : i = j
      · subst hij
        rw [Function.update_self] at hi
        exact hq hi
      · rw [Function.update_of_ne hij] at hi
        exact .inl hi
    cases a with
    | callAdd j | lockAdd j => exact hstep rfl nofun
    | push j => exact hstep rfl fun _ => .inr rfl
    | unlockAdd j | notifyAdd j =>
        have hj : s.add j = _ := ha
        exact hstep rfl fun _ => .inl (by rw [hj]; rfl)
    | _ => exact .inl hi
  · rintro (hi | rfl)
    · exact hasPushed_next ha hi
    · have hadd : (next s (.push i)).add i = .unlock :=
        Function.update_self ..
      rw [hadd]
      rfl

theorem hasPushed_of_has (hs : (system entry).Reachable s) {i : ι}
    (hi : s.Has i) : (s.add i).hasPushed = true := by
  refine hs.invariant (fun s => ∀ i, s.Has i → (s.add i).hasPushed = true)
    ?_ ?_ i hi
  · rintro s ⟨fired, clock, rfl⟩ i hi
    rcases hi with hi | hi | hi
    · exact absurd hi List.not_mem_nil
    · exact nomatch hi
    · exact absurd hi List.not_mem_nil
  · intro s a h ha i hi
    rcases has_of_next ha hi with hi | rfl
    · exact hasPushed_next ha (h i hi)
    · simp [system, next, AddPc.hasPushed]

/-- Only a push brings an entry to the timer thread. -/
theorem queued_of_next {i : ι} (ha : Enabled entry s a)
    (hi : (next s a).Queued i) : s.Queued i ∨ a = .push i := by
  rcases hi with hi | hi
  · cases a with
    | push j =>
        have hmem : i ∈ s.heap ++ [j] := hi
        rw [List.mem_append, List.mem_singleton] at hmem
        rcases hmem with hmem | rfl
        · exact .inl (.inl hmem)
        · exact .inr rfl
    | pop now j | popNothing now j =>
        exact .inl (.inl (List.mem_of_mem_erase hi))
    | clear => exact absurd hi List.not_mem_nil
    | _ => exact .inl (.inl hi)
  · cases a with
    | pop now j =>
        obtain rfl : j = i := TimerPc.fire.inj hi
        exact .inl (.inl ha.2.1.1)
    | notifyAdd j | notifyShutdown =>
        exact .inl (.inr (notify_eq_fire.mp hi))
    | lockTimer | loadRunningTrue | loadRunningFalse | heapEmpty | heapNotEmpty
    | predicateHeapTrue | predicateHeapFalse | predicateStopped
    | predicateRunning | wait | wake | relockWait | readClock | popNothing now j
    | notDue now | timedWait | timedWake | relockTimedWait | fireWon j g
    | fireLost j g | unlockFired j | schedule j | relock | unlockExit =>
        exact nomatch hi
    | _ => exact .inl (.inr hi)

/-- What the timer thread has read of the clock is not later than the clock,
and the entry in its hands is due. -/
structure Due (entry : ι → Entry γ η) (s : State ι γ) : Prop where
  compare : ∀ {now}, s.timer = .compare now → now ≤ s.clock
  entry : ∀ {i}, s.timer.entry = some i → (entry i).deadline ≤ s.clock

omit [DecidableEq ι] [DecidableEq γ] in
/-- The timer thread goes on with the entry in its hands, or without one. -/
theorem Due.of_timer (h : Due entry s) (hclock : s.clock ≤ s'.clock)
    (hcompare : ∀ now, s'.timer = .compare now →
      s.timer = .compare now ∨ now ≤ s'.clock)
    (hentry : ∀ i, s'.timer.entry = some i → s.timer.entry = some i) :
    Due entry s' := by
  constructor
  · intro now hnow
    rcases hcompare now hnow with hold | hle
    · exact (h.compare hold).trans hclock
    · exact hle
  · intro i hi
    exact (h.entry (hentry i hi)).trans hclock

theorem due_next (h : Due entry s) (ha : Enabled entry s a) :
    Due entry (next s a) := by
  cases a with
  | readClock =>
      refine h.of_timer le_rfl ?_ nofun
      rintro now ⟨⟩
      exact .inr le_rfl
  | pop now j =>
      refine ⟨nofun, ?_⟩
      intro i hi
      obtain rfl : j = i := Option.some.inj hi
      exact ha.2.2.1.trans (h.compare ha.1)
  | fireWon j g =>
      refine h.of_timer le_rfl nofun fun i hi => ?_
      rw [ha.1]
      exact hi
  | unlockFired j =>
      have htimer : s.timer = .unlockFired j := ha
      refine h.of_timer le_rfl nofun fun i hi => ?_
      rw [htimer]
      exact hi
  | notifyAdd j | notifyShutdown =>
      refine h.of_timer le_rfl ?_ ?_
      · intro now hnow
        left
        revert hnow
        simp only [next]
        cases s.timer <;> simp [TimerPc.notify]
      · intro i hi
        rwa [← entry_notify]
  | tick =>
      exact h.of_timer (Nat.le_succ _) (fun _ hnow => .inl hnow) fun _ hi => hi
  | callAdd j | lockAdd j | push j | unlockAdd j | store g b | callShutdown
  | exchangeFirst | exchangeAgain | join | lockShutdown | drainNothing j rest
  | drain j rest | drainWon j rest g | drainLost j rest g
  | drainSchedule j rest | clear | unlockShutdown =>
      exact h.of_timer le_rfl (fun _ hnow => .inl hnow) fun _ hi => hi
  | _ => exact h.of_timer le_rfl nofun nofun

theorem due_of_reachable (hs : (system entry).Reachable s) : Due entry s := by
  refine hs.invariant (Due entry) ?_ fun s a h ha => due_next h ha
  rintro s ⟨fired, clock, rfl⟩
  exact ⟨nofun, nofun⟩

end Steps

end TimerService
end Ethreads
