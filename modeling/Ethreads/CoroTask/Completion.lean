import Ethreads.CoroTask.Transfer
import Ethreads.Support.Tally

/-!
# The completion protocol of a task

The flag `started_` is exchanged before the task is scheduled, so the two
together count one scheduling.  Each of the three ways to continue is recorded
by the one consumer, so they exclude each other.  The destructor runs outside
all calls and waits for `final_suspend_reached`.
-/

namespace Ethreads
namespace CoroTask

variable {τ T E : Type*} {noop : BitVec 64}

/-! ## Program points -/

namespace Pc

/-- The caller has exchanged `started_` and still has to schedule. -/
def pending : Pc T E → ℕ
  | checkDone _ | schedule _ => 1
  | _ => 0

/-- The caller has seen that the task was started. -/
def updated : Pc T E → Bool
  | idle | loadReady | answered _ | casStarted _ | awaitReady
  | exchangeStarted => false
  | _ => true

def continued : Pc T E → Bool
  | lockState b | testReady b | wait b | waiting b | notified b
  | readResult b | unlockState b _ | returned b _ => b
  | _ => false

/-- `await_suspend` has returned, or was not needed. -/
def pastSuspend : Pc T E → Bool
  | suspended => true
  | p => p.continued

end Pc

theorem pending_afterStart (p : Purpose) :
    (afterStart p : Pc T E).pending = 0 := by
  cases p <;> rfl

theorem pending_afterSetContinuation (x y : BitVec 64) :
    (afterSetContinuation x y : Pc T E).pending = 0 := by
  unfold afterSetContinuation
  split <;> rfl

theorem pending_mark (p : Pc T E) : p.mark.pending = p.pending := by
  cases p <;> rfl

theorem updated_mark (p : Pc T E) : p.mark.updated = p.updated := by
  cases p <;> rfl

variable [DecidableEq τ]

/-! ## Scheduling -/

variable [Fintype τ]

/-- The exchange of `started_` and the scheduling belong together. -/
structure Launched (s : State τ T E) : Prop where
  account : s.scheduled + tally Pc.pending s.pc = s.started.toNat
  begun : s.coro ≠ .initial → 0 < s.scheduled
  updated : ∀ t, (s.pc t).updated = true → s.started = true

theorem pending_update {s s' : State τ T E} {t : τ} {p q : Pc T E}
    (h : s.scheduled + tally Pc.pending s.pc = s.started.toNat)
    (hp : s.pc t = p) (hpc : s'.pc = Function.update s.pc t q)
    (hbal : s'.scheduled + q.pending + s.started.toNat =
      s.scheduled + p.pending + s'.started.toNat) :
    s'.scheduled + tally Pc.pending s'.pc = s'.started.toNat := by
  have := tally_update Pc.pending s.pc t q
  rw [hp] at this
  rw [hpc]
  omega

omit [Fintype τ] in
theorem updated_update {s s' : State τ T E} {t : τ} {q : Pc T E}
    (h : ∀ u, (s.pc u).updated = true → s.started = true)
    (hpc : s'.pc = Function.update s.pc t q)
    (hq : q.updated = true → s'.started = true)
    (hmono : s.started = true → s'.started = true) :
    ∀ u, (s'.pc u).updated = true → s'.started = true := by
  intro u hu
  rw [hpc] at hu
  by_cases hut : u = t
  · subst hut
    rw [Function.update_self] at hu
    exact hq hu
  · rw [Function.update_of_ne hut] at hu
    exact hmono (h u hu)

omit [DecidableEq τ] in
theorem Launched.started_of_begun {s : State τ T E} (h : Launched s)
    (hc : s.coro ≠ .initial) : s.started = true := by
  have hbegun := h.begun hc
  have haccount := h.account
  by_contra hne
  rw [Bool.not_eq_true] at hne
  rw [hne] at haccount
  simp at haccount
  omega

omit [DecidableEq τ] in
/-- Before the task is scheduled its coroutine cannot be done. -/
theorem Launched.not_isDone {s : State τ T E} (h : Launched s) {t : τ}
    (ht : (s.pc t).pending = 1) : s.coro.isDone = false := by
  have hle := le_tally Pc.pending s.pc t
  have haccount := h.account
  have hstarted : s.started.toNat ≤ 1 := Bool.toNat_le s.started
  have hinitial : s.coro = .initial := by
    by_contra hne
    have := h.begun hne
    omega
  rw [hinitial]
  rfl

theorem scheduled_next {handle : τ → Handle noop} {s : State τ T E}
    {a : Action τ T E} (hoff : HandedOff handle s) (h : Launched s)
    (ha : Enabled handle s a) :
    (next handle s a).scheduled + tally Pc.pending (next handle s a).pc =
      (next handle s a).started.toNat := by
  have hacc := h.account
  cases a with
  | isDone t p =>
      have hdone := h.not_isDone (by rw [ha.1]; rfl)
      cases hdone.symm.trans ha.2
  | startFirst t p =>
      refine pending_update hacc ha.1 rfl ?_
      simp [next, State.goto, ha.2, Pc.pending]
  | exchangeFirst t =>
      refine pending_update hacc ha.1 rfl ?_
      simp [next, State.goto, ha.2, Pc.pending]
  | schedule t p =>
      refine pending_update hacc ha rfl ?_
      rw [pending_afterStart]
      rfl
  | startAgain t p =>
      refine pending_update hacc ha.1 rfl ?_
      rw [pending_afterStart]
      rfl
  | continuationTaken t old =>
      refine pending_update hacc ha.1 rfl ?_
      rw [pending_afterSetContinuation]
      rfl
  | setContinuation t old =>
      refine pending_update hacc ha.1 rfl ?_
      rw [pending_afterSetContinuation]
      rfl
  | transferTo c t =>
      exact pending_update hacc (hoff.suspended_of_transferTo ha) rfl rfl
  | notifyAll =>
      have hmark : tally Pc.pending (fun t => (s.pc t).mark) =
          tally Pc.pending s.pc :=
        tally_congr fun t => pending_mark (s.pc t)
      change s.scheduled + tally Pc.pending (fun t => (s.pc t).mark) = _
      rw [hmark]
      exact hacc
  | _ =>
      first
      | exact hacc
      | exact pending_update hacc ha rfl rfl
      | exact pending_update hacc ha.1 rfl rfl

/-- Only a task that was scheduled leaves its initial suspension. -/
theorem begun_next {handle : τ → Handle noop} {s : State τ T E}
    {a : Action τ T E} (h : Launched s) (ha : Enabled handle s a)
    (hc : (next handle s a).coro ≠ .initial) :
    0 < (next handle s a).scheduled := by
  cases a with
  | resumeTask => exact ha.2
  | schedule t p => exact Nat.succ_pos _
  | _ =>
      refine h.begun fun hinitial => ?_
      first
      | exact hc hinitial
      | cases (show s.coro = _ from ha).symm.trans hinitial
      | cases ha.1.symm.trans hinitial

/-- A caller gets past `start` only with the flag set. -/
theorem updated_next {handle : τ → Handle noop} {s : State τ T E}
    {a : Action τ T E} (hpub : Published s) (hoff : HandedOff handle s)
    (h : Launched s) (ha : Enabled handle s a) :
    ∀ u, ((next handle s a).pc u).updated = true →
      (next handle s a).started = true := by
  have hup := h.updated
  have hkeep : ∀ (t : τ) (p q : Pc T E), s.pc t = p →
      (next handle s a).pc = Function.update s.pc t q →
      (next handle s a).started = s.started →
      (q.updated = true → p.updated = true ∨ s.started = true) →
        ∀ u, ((next handle s a).pc u).updated = true →
          (next handle s a).started = true := by
    intro t p q hp hpc hstarted hq
    refine updated_update hup hpc (fun hqu => ?_) hstarted.trans
    rcases hq hqu with hpu | hs
    · exact hstarted.trans (hup t (by rw [hp]; exact hpu))
    · exact hstarted.trans hs
  cases a with
  | startFirst t p => exact fun _ _ => rfl
  | exchangeFirst t => exact fun _ _ => rfl
  | startAgain t p => exact hkeep t _ _ ha.1 rfl rfl fun _ => Or.inr ha.2
  | exchangeAgain t => exact hkeep t _ _ ha.1 rfl rfl fun _ => Or.inr ha.2
  | awaitReadyTrue t =>
      refine hkeep t _ _ ha.1 rfl rfl fun _ => Or.inr ?_
      refine h.started_of_begun fun hinitial => ?_
      have hready := hpub.ready
      rw [hinitial, ha.2] at hready
      cases hready
  | transferTo c t =>
      refine hkeep t _ _ (hoff.suspended_of_transferTo ha) rfl rfl ?_
      exact fun _ => Or.inl rfl
  | notifyAll =>
      intro u hu
      exact hup u ((updated_mark (s.pc u)).symm.trans hu)
  | _ =>
      first
      | exact hup
      | exact hkeep _ _ _ ha rfl rfl fun _ => Or.inl rfl
      | exact hkeep _ _ _ ha.1 rfl rfl fun _ => Or.inl rfl
      | exact hkeep _ _ _ ha rfl rfl nofun
      | exact hkeep _ _ _ ha.1 rfl rfl nofun

theorem launched_next {handle : τ → Handle noop} {s : State τ T E}
    {a : Action τ T E} (hpub : Published s) (hoff : HandedOff handle s)
    (h : Launched s) (ha : Enabled handle s a) :
    Launched (next handle s a) where
  account := scheduled_next hoff h ha
  begun := begun_next h ha
  updated := updated_next hpub hoff h ha

theorem launched_reachable {handle : τ → Handle noop} {s : State τ T E}
    (hs : (system T E handle).Reachable s) : Launched s := by
  refine TransitionSystem.Reachable.invariant_of hs Launched
    (fun s hs => And.intro (published_reachable hs) (handedOff_reachable hs))
    ?_ fun s a hJ h ha => launched_next hJ.1 hJ.2 h ha
  rintro s rfl
  refine ⟨?_, fun hc => absurd rfl hc, fun t ht => (by cases ht)⟩
  have hzero : tally Pc.pending (initialState τ T E).pc = 0 :=
    tally_eq_zero_iff.mpr fun _ => rfl
  rw [hzero]
  rfl

/-! ## Continuations -/

/-- How often the awaiting coroutine has been made to continue. -/
def State.continuations (s : State τ T E) : ℕ :=
  s.byReady + s.bySuspend + s.byFinal

/-- Every continuation is recorded by the caller that has continued. -/
def Counted (s : State τ T E) : Prop :=
  s.continuations = tally (fun p => p.continued.toNat) s.pc

theorem counted_update {s s' : State τ T E} {t : τ} {p q : Pc T E}
    (h : Counted s) (hp : s.pc t = p)
    (hpc : s'.pc = Function.update s.pc t q)
    (hbal : s'.continuations + p.continued.toNat =
      s.continuations + q.continued.toNat) : Counted s' := by
  have htally := tally_update (fun p => p.continued.toNat) s.pc t q
  rw [hp] at htally
  unfold Counted at h ⊢
  rw [hpc]
  omega

omit [DecidableEq τ] [Fintype τ] in
theorem continued_afterStart (p : Purpose) :
    (afterStart p : Pc T E).continued = false := by
  cases p <;> rfl

omit [DecidableEq τ] [Fintype τ] in
theorem continued_afterSetContinuation (x y : BitVec 64) :
    (afterSetContinuation x y : Pc T E).continued = false := by
  unfold afterSetContinuation
  split <;> rfl

omit [DecidableEq τ] [Fintype τ] in
theorem continued_mark (p : Pc T E) : p.mark.continued = p.continued := by
  cases p <;> rfl

theorem counted_next {handle : τ → Handle noop} {s : State τ T E}
    {a : Action τ T E} (hoff : HandedOff handle s) (h : Counted s)
    (ha : Enabled handle s a) : Counted (next handle s a) := by
  have hkeep : ∀ (t : τ) (p q : Pc T E), s.pc t = p →
      (next handle s a).pc = Function.update s.pc t q →
      (next handle s a).continuations = s.continuations →
      q.continued = p.continued → Counted (next handle s a) := by
    intro t p q hp hpc hcount hq
    exact counted_update h hp hpc (by rw [hcount, hq])
  cases a with
  | awaitReadyTrue t =>
      refine counted_update h ha.1 rfl ?_
      simp only [State.continuations, next, State.goto, Pc.continued,
        Bool.toNat_true, Bool.toNat_false]
      omega
  | returnAwaiting t =>
      refine counted_update h ha rfl ?_
      simp only [State.continuations, next, State.goto, Pc.continued,
        Bool.toNat_true, Bool.toNat_false]
      omega
  | transferTo c t =>
      refine counted_update h (hoff.suspended_of_transferTo ha) rfl ?_
      simp only [State.continuations, next, State.goto, Pc.continued,
        Bool.toNat_true, Bool.toNat_false]
      omega
  | startAgain t p =>
      exact hkeep t _ _ ha.1 rfl rfl (continued_afterStart p)
  | isDone t p => exact hkeep t _ _ ha.1 rfl rfl (continued_afterStart p)
  | schedule t p => exact hkeep t _ _ ha rfl rfl (continued_afterStart p)
  | continuationTaken t old =>
      exact hkeep t _ _ ha.1 rfl rfl (continued_afterSetContinuation _ _)
  | setContinuation t old =>
      exact hkeep t _ _ ha.1 rfl rfl (continued_afterSetContinuation _ _)
  | notifyAll =>
      have hmark : tally (fun p => p.continued.toNat)
          (fun t => (s.pc t).mark) =
            tally (fun p : Pc T E => p.continued.toNat) s.pc :=
        tally_congr fun t => congrArg Bool.toNat (continued_mark (s.pc t))
      exact Eq.trans h hmark.symm
  | _ =>
      first
      | exact h
      | exact hkeep _ _ _ ha rfl rfl rfl
      | exact hkeep _ _ _ ha.1 rfl rfl rfl

theorem counted_reachable {handle : τ → Handle noop} {s : State τ T E}
    (hs : (system T E handle).Reachable s) : Counted s := by
  refine TransitionSystem.Reachable.invariant_of hs Counted
    (fun s hs => handedOff_reachable hs) ?_
    fun s a hoff h ha => counted_next hoff h ha
  rintro s rfl
  exact (tally_eq_zero_iff.mpr fun _ => rfl).symm

/-! ## Destruction -/

/-- The destructor runs outside all calls and destroys a coroutine that was
never scheduled or has passed its final suspend point. -/
structure Guarded (s : State τ T E) : Prop where
  quiet : s.destructor ≠ .idle → ∀ t, (s.pc t).inCall = false
  safe : s.destructor = .destroy ∨ s.destructor = .destroyed →
    s.coro = .initial ∧ s.scheduled = 0 ∨ s.finalSuspendReached = true
  count : s.destroyed = if s.destructor = .destroyed then 1 else 0

omit [DecidableEq τ] [Fintype τ] in
/-- While the destructor runs no caller takes a step. -/
theorem caller_eq_none_of_quiet {handle : τ → Handle noop} {s : State τ T E}
    {a : Action τ T E} (hoff : HandedOff handle s)
    (hd : s.destructor ≠ .idle) (hquiet : ∀ t, (s.pc t).inCall = false)
    (ha : Enabled handle s a) : a.caller = none := by
  have hno : ∀ (t : τ) (p : Pc T E), s.pc t = p → p.inCall = true → False := by
    intro t p hp hin
    have := hquiet t
    rw [hp, hin] at this
    cases this
  cases a with
  | transferTo c t =>
      exact (hno t _ (hoff.suspended_of_transferTo ha) rfl).elim
  | callIsReady t => exact absurd ha.2 hd
  | callStart t => exact absurd ha.2 hd
  | callGet t => exact absurd ha.2.1 hd
  | coAwait t => exact absurd ha.2.1 hd
  | _ =>
      first
      | rfl
      | exact (hno _ _ ha rfl).elim
      | exact (hno _ _ ha.1 rfl).elim

omit [Fintype τ] in
theorem inCall_next {handle : τ → Handle noop} {s : State τ T E}
    {a : Action τ T E} (hcaller : a.caller = none)
    (hquiet : ∀ t, (s.pc t).inCall = false) (t : τ) :
    ((next handle s a).pc t).inCall = false := by
  have hq := hquiet t
  have hmove : (next handle s a).pc t = s.pc t ∨
      ∃ b, s.pc t = .waiting b ∧ (next handle s a).pc t = .notified b :=
    next_pc_of_ne (by rw [hcaller]; simp)
  rcases hmove with hpc | ⟨b, hold, -⟩
  · rw [hpc]
    exact hq
  · rw [hold] at hq
    cases hq

theorem guarded_next {handle : τ → Handle noop} {s : State τ T E}
    {a : Action τ T E} (hoff : HandedOff handle s) (hlaunch : Launched s)
    (h : Guarded s) (ha : Enabled handle s a) :
    Guarded (next handle s a) where
  quiet := by
    intro hd
    by_cases hidle : s.destructor = .idle
    · cases a with
      | destruct => exact ha.2
      | foundUnstarted => cases hidle.symm.trans ha.1
      | foundStarted => cases hidle.symm.trans ha.1
      | foundFinal => cases hidle.symm.trans ha.1
      | destroy => cases hidle.symm.trans ha
      | _ => exact absurd hidle hd
    · have hquiet := h.quiet hidle
      exact inCall_next (caller_eq_none_of_quiet hoff hidle hquiet ha) hquiet
  safe := by
    intro hd
    cases a with
    | destruct => rcases hd with hd | hd <;> cases hd
    | foundStarted => rcases hd with hd | hd <;> cases hd
    | foundUnstarted =>
        have haccount := hlaunch.account
        rw [ha.2] at haccount
        have hzero : s.scheduled = 0 := by
          simp only [Bool.toNat_false] at haccount
          omega
        refine Or.inl ⟨?_, hzero⟩
        by_contra hne
        exact absurd (hlaunch.begun hne) (by omega)
    | foundFinal => exact Or.inr ha.2
    | destroy => exact h.safe (Or.inl ha)
    | schedule t p =>
        have hidle : s.destructor ≠ .idle := by
          intro hidle
          rcases hd with hd | hd <;> cases hidle.symm.trans hd
        have hcaller :=
          caller_eq_none_of_quiet hoff hidle (h.quiet hidle) ha
        cases hcaller
    | storeFinal c => exact Or.inr rfl
    | resumeTask =>
        rcases h.safe hd with ⟨-, hzero⟩ | hfinal
        · exact absurd ha.2 (by omega)
        · exact Or.inr hfinal
    | _ =>
        rcases h.safe hd with ⟨hinitial, hzero⟩ | hfinal
        · first
          | exact Or.inl ⟨hinitial, hzero⟩
          | cases (show s.coro = _ from ha).symm.trans hinitial
          | cases ha.1.symm.trans hinitial
        · exact Or.inr hfinal
  count := by
    have hcount := h.count
    cases a with
    | destroy =>
        rw [show s.destructor = .destroy from ha] at hcount
        simp [next, hcount]
    | destruct => rw [ha.1] at hcount; exact hcount
    | foundUnstarted => rw [ha.1] at hcount; exact hcount
    | foundStarted => rw [ha.1] at hcount; exact hcount
    | foundFinal => rw [ha.1] at hcount; exact hcount
    | _ => exact hcount

theorem guarded_reachable {handle : τ → Handle noop} {s : State τ T E}
    (hs : (system T E handle).Reachable s) : Guarded s := by
  refine TransitionSystem.Reachable.invariant_of hs Guarded
    (fun s hs => And.intro (handedOff_reachable hs) (launched_reachable hs))
    ?_ fun s a hJ h ha => guarded_next hJ.1 hJ.2 h ha
  rintro s rfl
  exact ⟨fun hd => absurd rfl hd,
    fun hd => (by rcases hd with hd | hd <;> cases hd), rfl⟩

/-! ## The protocol -/

structure CompletionProtocol (handle : τ → Handle noop) (s : State τ T E) :
    Prop where
  /-- The task is scheduled at most once. -/
  scheduled_le : s.scheduled ≤ 1
  /-- It is scheduled when somebody has asked for it and nobody stands between
  the update of `started_` and the scheduling. -/
  scheduled : (∃ t, (s.pc t).updated = true) →
    (∀ t, (s.pc t).pending = 0) → s.scheduled = 1
  /-- The awaiting coroutine continues at most once. -/
  continued_le : s.continuations ≤ 1
  /-- It has continued when the task has completed and `await_suspend` has
  returned. -/
  continued : s.coro = .finished → ∀ t, (s.pc t).pastSuspend = true →
    s.continuations = 1
  /-- The final awaiter transfers to nobody but the suspended coroutine. -/
  transfer : ∀ c, s.coro = .transfer c → c ≠ noop →
    ∃ t, s.pc t = .suspended ∧ (handle t).address = c
  /-- When it continues, the result is ready, and it does not block. -/
  ready : ∀ t, (s.pc t).continued = true → s.ready = true ∧
    ∀ b, s.pc t ≠ .wait b ∧ s.pc t ≠ .waiting b
  /-- The consumer gets what the body of the task has ended with. -/
  result : ∀ t b r, s.pc t = .returned b r →
    r = s.completion ∧ r.isSome = true
  /-- The coroutine is destroyed at most once. -/
  destroyed_le : s.destroyed ≤ 1
  /-- It is destroyed only if it was never scheduled or will not touch its
  state any more. -/
  destroyed : s.destroyed = 1 →
    s.coro = .initial ∧ s.scheduled = 0 ∨ s.coro.finalStored = true

omit [DecidableEq τ] [Fintype τ] in
/-- Whoever has continued never blocks in `get`. -/
theorem Pc.Ok.ready_of_continued {h : Handle noop} {s : State τ T E}
    {p : Pc T E} (hok : p.Ok h s) (hp : p.continued = true) :
    s.ready = true ∧ ∀ b, p ≠ .wait b ∧ p ≠ .waiting b := by
  cases p with
  | lockState b => exact ⟨hok hp, by simp⟩
  | testReady b => exact ⟨hok hp, by simp⟩
  | readResult b => exact ⟨hok, by simp⟩
  | unlockState b r => exact ⟨hok.1, by simp⟩
  | returned b r => exact ⟨hok.1, by simp⟩
  | wait b => cases hok.symm.trans hp
  | waiting b => cases hok.symm.trans hp
  | notified b => cases hok.symm.trans hp
  | _ => cases hp

omit [DecidableEq τ] in
/-- Only the consumer continues. -/
theorem continuations_le {s : State τ T E}
    (hconsumer : Guards Pc.consumes s.consumer s.pc) (h : Counted s) :
    s.continuations ≤ 1 := by
  have hconsumes : ∀ p : Pc T E, p.continued = true → p.consumes = true := by
    intro p hp
    cases p <;> first | rfl | cases hp
  by_cases hsome : ∃ t, (s.pc t).continued = true
  · obtain ⟨t, ht⟩ := hsome
    have hone : tally (fun p => p.continued.toNat) s.pc =
        (s.pc t).continued.toNat := by
      refine tally_eq_of_forall_ne t fun u hu => ?_
      rw [Bool.toNat_eq_zero, ← Bool.not_eq_true]
      exact fun hcont => hu (hconsumer.unique (hconsumes _ hcont)
        (hconsumes _ ht))
    exact (h.trans hone).le.trans (Bool.toNat_le _)
  · push Not at hsome
    have hzero : tally (fun p => p.continued.toNat) s.pc = 0 := by
      refine tally_eq_zero_iff.mpr fun t => ?_
      rw [Bool.toNat_eq_zero, ← Bool.not_eq_true]
      exact hsome t
    exact (h.trans hzero).le.trans (Nat.zero_le 1)

/-- Every interleaving of starters, one consumer, the coroutine and the
destructor keeps the completion protocol. -/
theorem completionProtocol_of_reachable {handle : τ → Handle noop}
    {s : State τ T E} (hs : (system T E handle).Reachable s) :
    CompletionProtocol handle s := by
  have hpub := published_reachable hs
  have hoff := handedOff_reachable hs
  have hlaunch := launched_reachable hs
  have hcounted := counted_reachable hs
  have hguarded := guarded_reachable hs
  have hle := continuations_le hoff.consumer hcounted
  have haccount := hlaunch.account
  have hstarted := Bool.toNat_le s.started
  constructor
  · omega
  · rintro ⟨t, ht⟩ hnone
    rw [hlaunch.updated t ht, tally_eq_zero_iff.mpr hnone] at haccount
    simpa using haccount
  · exact hle
  · intro hfinished t ht
    have hcont : (s.pc t).continued = true := by
      cases hp : s.pc t with
      | suspended =>
          have hok := hoff.ok t
          rw [hp] at hok
          have howes := hok.2
          rw [hfinished] at howes
          exact howes.elim
      | _ =>
          rw [hp] at ht
          exact ht
    have hpos := le_tally (fun p : Pc T E => p.continued.toNat) s.pc t
    simp only [hcont, Bool.toNat_true] at hpos
    unfold Counted at hcounted
    omega
  · intro c hc hne
    obtain ⟨t, ht⟩ := hoff.transfers (by rw [hc]; exact hne)
    have hok := hoff.ok t
    rw [ht] at hok
    have howes := hok.2
    rw [hc] at howes
    exact ⟨t, ht, howes.symm⟩
  · intro t ht
    exact (hoff.ok t).ready_of_continued ht
  · intro t b r hr
    have hok := hoff.ok t
    rw [hr] at hok
    have hpublished := hpub.ready.symm.trans hok.1
    refine ⟨hok.2, ?_⟩
    rw [hok.2, hpub.ended]
    cases hp : s.coro <;> rw [hp] at hpublished <;>
      first | rfl | cases hpublished
  · rw [hguarded.count]
    split <;> omega
  · intro hone
    have hdestroyed : s.destructor = .destroyed := by
      by_contra hne
      rw [hguarded.count, if_neg hne] at hone
      cases hone
    rcases hguarded.safe (Or.inr hdestroyed) with hsafe | hfinal
    · exact Or.inl hsafe
    · exact Or.inr (hpub.final.symm.trans hfinal)

/-- Two callers; the address 8 stands for `std::noop_coroutine()`. -/
def sampleHandle (t : Fin 2) : Handle 8 where
  address := 16 * (t.val + 1)
  aligned := by revert t; decide
  ne_zero := by revert t; decide
  ne_noop := by revert t; decide

/-- Caller 0 starts the task, caller 1 awaits it and registers just before
the coroutine marks the word; the final awaiter transfers to caller 1, which
reads the result before the task is destroyed. -/
def awaitThenDestroy : List (Action (Fin 2) ℕ Unit) :=
  [.callStart 0, .coAwait 1, .startFirst 0 .start, .awaitReadyFalse 1,
    .exchangeAgain 1, .notDone 0 .start, .schedule 0 .start, .resumeTask,
    .complete (.value 7), .coroLock (.value 7), .storeResult (.value 7),
    .loadWord 1, .storeReady, .notifyAll, .coroUnlock, .coroLoadWord,
    .setContinuation 1 0, .setReadyFails 0, .setReady 32, .getContinuation,
    .storeFinal 32, .transferTo 32 1, .lockState 1 true, .testTrue 1 true,
    .readResult 1 true, .unlockState 1 true (some (.value 7)), .destruct,
    .foundStarted, .foundFinal, .destroy]

theorem completionProtocol_awaitThenDestroy :
    CompletionProtocol sampleHandle ((system ℕ Unit sampleHandle).after
      (initialState (Fin 2) ℕ Unit) awaitThenDestroy) :=
  completionProtocol_of_reachable
    (TransitionSystem.Executes.reachable (.init rfl) (by decide))

end CoroTask
end Ethreads
