import Ethreads.TimerService.Exclusion
import Mathlib.Data.List.MinMax
import Mathlib.Data.List.Perm.Basic

/-!
# The order of the timers

The service is run together with a record of the entries that were added, of
the entries that the timer thread has popped, and of the deadline that `run`
has copied for its timed wait.  The deadline is the earliest one at a moment
when the timer thread holds the mutex.  A call of `add_timer` that pushes
afterwards has not notified yet, or has ended the wait.
-/

namespace Ethreads
namespace TimerService

variable {ι γ η : Type*}

/-- A pop of `run`: the entry, the time that was read before, and the heap. -/
structure Pop (ι : Type*) where
  entry : ι
  now : ℕ
  heap : List ι
  deriving DecidableEq, Repr

/-- The service, the local `deadline` of `run`, and what has happened. -/
structure Record (ι γ : Type*) where
  service : State ι γ
  deadline : Option ℕ
  added : List ι
  pops : List (Pop ι)

def earliestDeadline (entry : ι → Entry γ η) (heap : List ι) : Option ℕ :=
  (heap.map fun i => (entry i).deadline).min?

/-- What a step adds to the entries. -/
def Action.pushed : Action ι γ → List ι
  | push i => [i]
  | _ => []

/-- What a step adds to the pops. -/
def popped (s : State ι γ) : Action ι γ → List (Pop ι)
  | .pop now i | .popNothing now i => [⟨i, now, s.heap⟩]
  | _ => []

/-- The local `deadline` of `run` after a step. -/
def copied (entry : ι → Entry γ η) (r : Record ι γ) :
    Action ι γ → Option ℕ
  | .notDue _ => earliestDeadline entry r.service.heap
  | _ => r.deadline

def Record.next [DecidableEq ι] [DecidableEq γ] (entry : ι → Entry γ η)
    (r : Record ι γ) (a : Action ι γ) : Record ι γ where
  service := TimerService.next r.service a
  deadline := copied entry r a
  added := r.added ++ a.pushed
  pops := r.pops ++ popped r.service a

def recordSystem [DecidableEq ι] [DecidableEq γ] (entry : ι → Entry γ η) :
    TransitionSystem (Record ι γ) (Action ι γ) where
  Initial r := ∃ fired clock, r = ⟨initialState ι γ fired clock, none, [], []⟩
  Enabled r a := Enabled entry r.service a
  next := Record.next entry

instance [DecidableEq ι] [DecidableEq γ] (entry : ι → Entry γ η)
    (r : Record ι γ) (a : Action ι γ) :
    Decidable ((recordSystem entry).Enabled r a) :=
  inferInstanceAs (Decidable (Enabled entry r.service a))

/-- The timers fire in order, never early, are never lost and never
overslept.  An entry that a call is just putting into the heap under the mutex
may still be unknown to the timer thread. -/
structure InOrder (entry : ι → Entry γ η) (r : Record ι γ) : Prop where
  once : (r.pops.map Pop.entry).Nodup
  due : ∀ p ∈ r.pops,
    (entry p.entry).deadline ≤ p.now ∧ p.now ≤ r.service.clock
  earliest : ∀ p ∈ r.pops,
    ∀ j ∈ p.heap, (entry p.entry).deadline ≤ (entry j).deadline
  added : ∀ i, i ∈ r.added ↔ (r.service.add i).hasPushed = true
  conserved : r.added.Perm (r.pops.map Pop.entry ++ r.service.heap)
  waits : (∀ i, r.service.add i ≠ .notify) → r.service.timer = .waiting →
    ∀ j ∈ r.service.heap, r.service.add j = .unlock
  timedWaits : (∀ i, r.service.add i ≠ .notify) →
    r.service.timer = .timedWaiting →
      ∃ d, r.deadline = some d ∧ ∀ j ∈ r.service.heap,
        r.service.add j ≠ .unlock → d ≤ (entry j).deadline

/-! ## What the timer thread knows of the heap -/

/-- The call has pushed its entry and has still to notify. -/
def AddPc.announces : AddPc → Prop
  | unlock | notify => True
  | _ => False

/-- The deadline copied by `run` is not later. -/
def NotLater (deadline : Option ℕ) (d : ℕ) : Prop :=
  ∃ d₀, deadline = some d₀ ∧ d₀ ≤ d

/-- What the timer thread has established for an entry of the heap whose call
stands at `q` and whose deadline is `d`. -/
def TimerPc.Minds (deadline : Option ℕ) (q : AddPc) (d : ℕ) :
    TimerPc ι → Prop
  | predicateRunning | enterWait => False
  | waiting => q.announces
  | enterTimedWait => NotLater deadline d
  | timedWaiting => q.announces ∨ NotLater deadline d
  | _ => True

/-- The timer thread compares the clock with some entry. -/
def TimerPc.peeks : TimerPc ι → Bool
  | readClock | compare _ => true
  | _ => false

/-- The timer thread minds each entry of the heap. -/
structure Watches (entry : ι → Entry γ η) (r : Record ι γ) : Prop where
  nonempty : r.service.timer.peeks = true → r.service.heap ≠ []
  minds : ∀ j ∈ r.service.heap, r.service.timer.Minds r.deadline
    (r.service.add j) (entry j).deadline

theorem minds_notify {deadline : Option ℕ} {q q' : AddPc} {d : ℕ}
    {p : TimerPc ι} (h : p.Minds deadline q d) :
    p.notify.Minds deadline q' d := by
  cases p <;> trivial

theorem peeks_notify (p : TimerPc ι) : p.notify.peeks = p.peeks := by
  cases p <;> rfl

/-- An announced entry is minded by a thread that does not hold the mutex. -/
theorem minds_of_announces {deadline : Option ℕ} {q : AddPc} {d : ℕ}
    {p : TimerPc ι} (hp : p.holds = false) (hq : q.announces) :
    p.Minds deadline q d := by
  cases p <;> first | trivial | exact hq | exact .inl hq

theorem earliestDeadline_isSome (entry : ι → Entry γ η) {heap : List ι}
    (hheap : heap ≠ []) : (earliestDeadline entry heap).isSome = true := by
  rw [Option.isSome_iff_ne_none]
  intro hnone
  exact hheap (List.map_eq_nil_iff.mp (List.min?_eq_none_iff.mp hnone))

theorem notLater_earliestDeadline {entry : ι → Entry γ η} {heap : List ι}
    {j : ι} (hj : j ∈ heap) :
    NotLater (earliestDeadline entry heap) (entry j).deadline := by
  have hmem : (entry j).deadline ∈ heap.map fun i => (entry i).deadline :=
    List.mem_map_of_mem hj
  obtain ⟨d, hd⟩ := Option.isSome_iff_exists.mp
    (earliestDeadline_isSome entry (List.ne_nil_of_mem hj))
  exact ⟨d, hd, (List.le_min?_iff hd).mp le_rfl _ hmem⟩

section Steps

variable [DecidableEq ι] [DecidableEq γ] {r : Record ι γ}
  {a : Action ι γ} {entry : ι → Entry γ η}

theorem service_reachable (hr : (recordSystem entry).Reachable r) :
    (system entry).Reachable r.service := by
  refine hr.project (fun r => r.service) ?_ ?_
  · rintro r ⟨fired, clock, rfl⟩
    exact ⟨fired, clock, rfl⟩
  · intro r a _ ha _
    exact .inr ⟨a, ha, trivial, rfl⟩

omit [DecidableEq γ] in
theorem Watches.of_caller (h : Watches entry r) {r' : Record ι γ} {i : ι}
    {q : AddPc} (hadd : r'.service.add = Function.update r.service.add i q)
    (hheap : r'.service.heap = r.service.heap)
    (htimer : r'.service.timer = r.service.timer)
    (hdeadline : r'.deadline = r.deadline)
    (hq : i ∈ r.service.heap → (r.service.add i).announces → q.announces) :
    Watches entry r' := by
  refine ⟨by rw [htimer, hheap]; exact h.nonempty, fun j hj => ?_⟩
  rw [hheap] at hj
  have hj' := h.minds j hj
  rw [htimer, hdeadline, hadd]
  by_cases hji : j = i
  · subst hji
    rw [Function.update_self]
    revert hj'
    cases r.service.timer <;> first
      | exact fun _ => trivial
      | exact id
      | exact hq hj
      | exact Or.imp_left (hq hj)
  · rwa [Function.update_of_ne hji]

omit [DecidableEq ι] [DecidableEq γ] in
theorem Watches.of_timer (h : Watches entry r) {r' : Record ι γ}
    (hadd : r'.service.add = r.service.add)
    (hheap : r'.service.heap = r.service.heap)
    (hpeeks : r'.service.timer.peeks = true → r.service.heap ≠ [])
    (hminds : ∀ j ∈ r.service.heap,
      r.service.timer.Minds r.deadline (r.service.add j)
        (entry j).deadline →
      r'.service.timer.Minds r'.deadline (r.service.add j)
        (entry j).deadline) : Watches entry r' := by
  refine ⟨by rw [hheap]; exact hpeeks, fun j hj => ?_⟩
  rw [hheap] at hj
  rw [hadd]
  exact hminds j hj (h.minds j hj)

omit [DecidableEq ι] [DecidableEq γ] in
theorem Watches.of_careless {r' : Record ι γ}
    (hpeeks : r'.service.timer.peeks = false)
    (hminds : ∀ q d, r'.service.timer.Minds r'.deadline q d) :
    Watches entry r' :=
  ⟨fun h => absurd (hpeeks.symm.trans h) (by simp), fun _ _ => hminds _ _⟩

omit [DecidableEq ι] [DecidableEq γ] in
theorem Watches.of_same (h : Watches entry r) {r' : Record ι γ}
    (hadd : r'.service.add = r.service.add)
    (hheap : r'.service.heap = r.service.heap)
    (htimer : r'.service.timer = r.service.timer)
    (hdeadline : r'.deadline = r.deadline) : Watches entry r' := by
  refine h.of_timer hadd hheap (by rw [htimer]; exact h.nonempty) ?_
  intro j _ hj
  rwa [htimer, hdeadline]

theorem Watches.of_push (h : Watches entry r) (hexcl : Exclusive r.service)
    {i : ι} (hi : r.service.add i = .push) :
    Watches entry (r.next entry (.push i)) := by
  have htimer : r.service.timer.holds = false := by
    rw [Bool.eq_false_iff]
    intro ht
    have hadd := hexcl.add_of_timer ht i
    rw [hi] at hadd
    cases hadd
  refine ⟨fun _ => List.append_ne_nil_of_right_ne_nil _ nofun, ?_⟩
  intro j hj
  by_cases hji : j = i
  · subst hji
    have hadd : (r.next entry (.push j)).service.add j = .unlock :=
      Function.update_self ..
    rw [hadd]
    exact minds_of_announces htimer trivial
  · have hadd : (r.next entry (.push i)).service.add j = r.service.add j :=
      Function.update_of_ne hji ..
    rw [hadd]
    refine h.minds j ?_
    rcases List.mem_append.mp hj with hj | hj
    · exact hj
    · exact absurd (List.mem_singleton.mp hj) hji

theorem Watches.of_clear (hexcl : Exclusive r.service)
    (hs : r.service.shutdown = .drain []) :
    Watches entry (r.next entry .clear) := by
  refine ⟨fun hp => ?_, fun j hj => absurd hj List.not_mem_nil⟩
  have hholds : r.service.timer.holds = true := by
    revert hp
    change r.service.timer.peeks = true → _
    cases r.service.timer <;> simp [TimerPc.peeks, TimerPc.holds]
  have hshutdown := hexcl.shutdown_of_timer hholds
  rw [hs] at hshutdown
  cases hshutdown

theorem watches_next (hr : (recordSystem entry).Reachable r)
    (h : Watches entry r) (ha : Enabled entry r.service a) :
    Watches entry (r.next entry a) := by
  have hexcl := exclusive_reachable (service_reachable hr)
  cases a with
  | heapNotEmpty =>
      exact h.of_timer rfl rfl (fun _ => ha.2) fun _ _ _ => trivial
  | readClock =>
      have ht : r.service.timer = .readClock := ha
      exact h.of_timer rfl rfl (fun _ => h.nonempty (by rw [ht]; rfl))
        fun _ _ _ => trivial
  | predicateHeapFalse =>
      refine h.of_timer rfl rfl nofun fun j hj _ => ?_
      rw [ha.2] at hj
      exact absurd hj List.not_mem_nil
  | predicateRunning =>
      refine h.of_timer rfl rfl nofun fun j _ hj => ?_
      rw [ha.1] at hj
      exact hj
  | wait =>
      have ht : r.service.timer = .enterWait := ha
      refine h.of_timer rfl rfl nofun fun j _ hj => ?_
      rw [ht] at hj
      exact hj.elim
  | notDue now =>
      exact h.of_timer rfl rfl nofun fun j hj _ => notLater_earliestDeadline hj
  | timedWait =>
      have ht : r.service.timer = .enterTimedWait := ha
      refine h.of_timer rfl rfl nofun fun j _ hj => ?_
      rw [ht] at hj
      exact .inr hj
  | callAdd i =>
      have hi : r.service.add i = .idle := ha
      refine h.of_caller rfl rfl rfl rfl fun _ hann => ?_
      rw [hi] at hann
      exact hann.elim
  | lockAdd i =>
      refine h.of_caller rfl rfl rfl rfl fun _ hann => ?_
      rw [ha.1] at hann
      exact hann.elim
  | unlockAdd i => exact h.of_caller rfl rfl rfl rfl fun _ _ => trivial
  | notifyAdd i =>
      exact ⟨fun hp => h.nonempty (by rwa [← peeks_notify]),
        fun j hj => minds_notify (h.minds j hj)⟩
  | push i => exact h.of_push hexcl ha
  | notifyShutdown =>
      refine h.of_timer rfl rfl ?_ fun j _ hj => minds_notify hj
      exact fun hp => h.nonempty (by rwa [← peeks_notify])
  | clear => exact Watches.of_clear hexcl ha
  | callShutdown | exchangeFirst | exchangeAgain | join | lockShutdown
  | drainNothing i rest | drain i rest | drainWon i rest g
  | drainLost i rest g | drainSchedule i rest | unlockShutdown
  | store g b | tick => exact h.of_same rfl rfl rfl rfl
  | _ => exact Watches.of_careless rfl fun _ _ => trivial

theorem watches_reachable (hr : (recordSystem entry).Reachable r) :
    Watches entry r := by
  refine hr.invariant_of (Watches entry) (J := (recordSystem entry).Reachable)
    (fun r hr => hr) ?_ fun r a hr h ha => watches_next hr h ha
  rintro r ⟨fired, clock, rfl⟩
  exact ⟨nofun, fun _ hj => absurd hj List.not_mem_nil⟩

/-- The timer thread waits, or is about to wait, for a deadline. -/
def TimerPc.timed : TimerPc ι → Bool
  | enterTimedWait | timedWaiting => true
  | _ => false

/-- The timed wait is for some deadline. -/
theorem deadline_isSome (hr : (recordSystem entry).Reachable r)
    (ht : r.service.timer.timed = true) : r.deadline.isSome = true := by
  refine hr.invariant_of (J := Watches entry)
    (fun r => r.service.timer.timed = true → r.deadline.isSome = true)
    (fun r hr => watches_reachable hr) ?_ ?_ ht
  · rintro r ⟨fired, clock, rfl⟩
    nofun
  · intro r a hwatch h ha ht
    cases a with
    | notDue now =>
        refine earliestDeadline_isSome entry (hwatch.nonempty ?_)
        rw [ha.1]
        rfl
    | timedWait =>
        have htimer : r.service.timer = .enterTimedWait := ha
        exact h (by rw [htimer]; rfl)
    | notifyAdd i | notifyShutdown =>
        refine h ?_
        revert ht
        change r.service.timer.notify.timed = true → _
        cases r.service.timer <;> simp [TimerPc.notify, TimerPc.timed]
    | callAdd i | lockAdd i | push i | unlockAdd i | callShutdown
    | exchangeFirst | exchangeAgain | join | lockShutdown
    | drainNothing i rest | drain i rest | drainWon i rest g
    | drainLost i rest g | drainSchedule i rest | clear | unlockShutdown
    | store g b | tick => exact h ht
    | _ => cases ht

/-! ## The record of the entries -/

/-- What the record says of the calls and of the pops. -/
structure Logged (entry : ι → Entry γ η) (r : Record ι γ) : Prop where
  added : ∀ i, i ∈ r.added ↔ (r.service.add i).hasPushed = true
  nodup : r.added.Nodup
  due : ∀ p ∈ r.pops,
    (entry p.entry).deadline ≤ p.now ∧ p.now ≤ r.service.clock
  earliest : ∀ p ∈ r.pops,
    ∀ j ∈ p.heap, (entry p.entry).deadline ≤ (entry j).deadline
  conserved : r.service.running = true →
    r.added.Perm (r.pops.map Pop.entry ++ r.service.heap)

omit [DecidableEq ι] [DecidableEq γ] in
theorem mem_pushed {i : ι} : i ∈ a.pushed ↔ a = .push i := by
  cases a <;> simp [Action.pushed, eq_comm]

/-- A pop takes a due entry that is one of the earliest in the heap. -/
theorem popped_spec {s : State ι γ} (hs : (system entry).Reachable s)
    (ha : Enabled entry s a) {p : Pop ι} (hp : p ∈ popped s a) :
    ((entry p.entry).deadline ≤ p.now ∧ p.now ≤ s.clock) ∧
      ∀ j ∈ p.heap, (entry p.entry).deadline ≤ (entry j).deadline := by
  have hdue := due_of_reachable hs
  cases a with
  | pop now i | popNothing now i =>
      obtain rfl := List.mem_singleton.mp hp
      exact ⟨⟨ha.2.2.1, hdue.compare ha.1⟩, ha.2.1.2⟩
  | _ => exact absurd hp List.not_mem_nil

/-- An entry is added, popped or left where it is. -/
theorem conserved_next (hr : (recordSystem entry).Reachable r)
    (h : r.added.Perm (r.pops.map Pop.entry ++ r.service.heap))
    (hrunning : r.service.running = true)
    (ha : Enabled entry r.service a) :
    (r.next entry a).added.Perm ((r.next entry a).pops.map Pop.entry ++
      (r.next entry a).service.heap) := by
  have hnothing : ∀ {r' : Record ι γ}, r'.added = r.added ++ [] →
      r'.pops = r.pops ++ [] → r'.service.heap = r.service.heap →
        r'.added.Perm (r'.pops.map Pop.entry ++ r'.service.heap) := by
    intro r' hadded hpops hheap
    rw [hadded, hpops, hheap, List.append_nil, List.append_nil]
    exact h
  have hpop : ∀ {r' : Record ι γ} {now : ℕ} {i : ι}, i ∈ r.service.heap →
      r'.added = r.added ++ [] →
      r'.pops = r.pops ++ [⟨i, now, r.service.heap⟩] →
      r'.service.heap = r.service.heap.erase i →
        r'.added.Perm (r'.pops.map Pop.entry ++ r'.service.heap) := by
    intro r' now i hi hadded hpops hheap
    rw [hadded, hpops, hheap, List.append_nil, List.map_append,
      List.append_assoc]
    exact h.trans ((List.perm_cons_erase hi).append_left _)
  cases a with
  | push i =>
      have hpush := h.append_right [i]
      rw [List.append_assoc] at hpush
      change (r.added ++ [i]).Perm ((r.pops ++ []).map Pop.entry ++
        (r.service.heap ++ [i]))
      rwa [List.append_nil]
  | pop now i | popNothing now i => exact hpop ha.2.1.1 rfl rfl rfl
  | clear =>
      have hs : r.service.shutdown = .drain [] := ha
      rcases shutdown_of_running (service_reachable hr) hrunning with hi | hi
      · exact nomatch hs.symm.trans hi
      · exact nomatch hs.symm.trans hi
  | _ => exact hnothing rfl rfl rfl

theorem logged_next (hr : (recordSystem entry).Reachable r)
    (h : Logged entry r) (ha : Enabled entry r.service a) :
    Logged entry (r.next entry a) := by
  have hservice := service_reachable hr
  constructor
  · intro i
    have hmem : i ∈ (r.next entry a).added ↔ i ∈ r.added ∨ a = .push i := by
      rw [← mem_pushed]
      exact List.mem_append
    rw [hmem, h.added i]
    exact (hasPushed_next_iff ha).symm
  · refine h.nodup.append ?_ ?_
    · cases a <;> simp [Action.pushed]
    · intro i hold hnew
      have hi : Enabled entry r.service (.push i) := mem_pushed.mp hnew ▸ ha
      have hpushed := (h.added i).mp hold
      rw [show r.service.add i = .push from hi] at hpushed
      cases hpushed
  · intro p hp
    rcases List.mem_append.mp hp with hp | hp
    · exact ⟨(h.due p hp).1, (h.due p hp).2.trans (clock_le_next _ _)⟩
    · have hspec := popped_spec hservice ha hp
      exact ⟨hspec.1.1, hspec.1.2.trans (clock_le_next _ _)⟩
  · intro p hp
    rcases List.mem_append.mp hp with hp | hp
    · exact h.earliest p hp
    · exact (popped_spec hservice ha hp).2
  · intro hrunning
    have hbefore := running_of_next hrunning
    exact conserved_next hr (h.conserved hbefore) hbefore ha

theorem logged_reachable (hr : (recordSystem entry).Reachable r) :
    Logged entry r := by
  refine hr.invariant_of (Logged entry) (J := (recordSystem entry).Reachable)
    (fun r hr => hr) ?_ fun r a hr h ha => logged_next hr h ha
  rintro r ⟨fired, clock, rfl⟩
  exact ⟨fun i => by simp [initialState, AddPc.hasPushed], List.nodup_nil,
    nofun, nofun, fun _ => List.Perm.nil⟩

omit [DecidableEq ι] [DecidableEq γ] in
/-- Unless it has still to notify, an announced entry is just being put. -/
theorem eq_unlock_of_announces {q : AddPc} (hq : q.announces)
    (hnotify : q ≠ .notify) : q = .unlock := by
  cases q <;> first | rfl | exact absurd rfl hnotify | exact hq.elim

/-- While the service runs, its timers are fired in order, never early, and
are neither lost nor overslept. -/
theorem inOrder_of_running (entry : ι → Entry γ η) :
    ∀ r, (recordSystem entry).Reachable r → r.service.running = true →
      InOrder entry r := by
  intro r hr hrunning
  have hlog := logged_reachable hr
  have hwatch := watches_reachable hr
  have hperm := hlog.conserved hrunning
  refine ⟨?_, hlog.due, hlog.earliest, hlog.added, hperm, ?_, ?_⟩
  · exact (hperm.nodup_iff.mp hlog.nodup).of_append_left
  · intro hnotify htimer j hj
    have hminds := hwatch.minds j hj
    rw [htimer] at hminds
    exact eq_unlock_of_announces hminds (hnotify j)
  · intro hnotify htimer
    obtain ⟨d, hd⟩ := Option.isSome_iff_exists.mp
      (deadline_isSome hr (by rw [htimer]; rfl))
    refine ⟨d, hd, fun j hj hunlock => ?_⟩
    have hminds := hwatch.minds j hj
    rw [htimer] at hminds
    rcases hminds with hann | ⟨d', hd', hle⟩
    · exact absurd (eq_unlock_of_announces hann (hnotify j)) hunlock
    · obtain rfl : d = d' := Option.some.inj (hd.symm.trans hd')
      exact hle

end Steps

/-- A timer of a timed awaiter, and an earlier one of a sleep. -/
def laterAndEarlier : Fin 2 → Entry (Fin 2) (Fin 2)
  | 0 => ⟨2, some 0, some 0, none⟩
  | 1 => ⟨1, none, none, some ⟨some 1, 1⟩⟩

/-- The timer thread sleeps for the later timer when the earlier one is added,
which it then pops first. -/
def earlierArrives : List (Action (Fin 2) (Fin 2)) :=
  [.callAdd 0, .lockAdd 0, .push 0, .unlockAdd 0, .notifyAdd 0, .lockTimer,
    .loadRunningTrue, .heapNotEmpty, .readClock, .notDue 0, .timedWait,
    .callAdd 1, .lockAdd 1, .push 1, .unlockAdd 1, .notifyAdd 1, .tick, .tick,
    .relockTimedWait, .loadRunningTrue, .heapNotEmpty, .readClock, .pop 2 1]

theorem inOrder_earlierArrives :
    InOrder laterAndEarlier ((recordSystem laterAndEarlier).after
      ⟨initialState (Fin 2) (Fin 2) (fun _ => false) 0, none, [], []⟩
        earlierArrives) :=
  inOrder_of_running laterAndEarlier _
    (TransitionSystem.Executes.reachable (.init ⟨_, _, rfl⟩) (by decide))
    (by decide)

end TimerService
end Ethreads
