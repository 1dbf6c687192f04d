import Ethreads.CoroTask.Publication
import Ethreads.Support.Mutex

/-!
# The handoff to the awaiting coroutine

The word of the handoff changes at most twice: the consumer stores its address
and the final awaiter the ready bit.  Whoever comes second resumes the
awaiting coroutine.  The invariant says what each caller may rely on, and that
the final awaiter finds a suspended coroutine whenever it is going to
transfer.
-/

namespace Ethreads
namespace CoroTask

variable {τ T E : Type*} {noop : BitVec 64}

/-! ## Program points -/

/-- Only the consumer of the result stands here. -/
def Pc.consumes : Pc T E → Bool
  | casStarted p | checkDone p | schedule p => decide (p ≠ .start)
  | idle | loadReady | answered _ | started => false
  | _ => true

/-- The coroutine can still transfer to the suspended coroutine at this
address. -/
def CoroPc.owes (addr : BitVec 64) : CoroPc T E → Prop
  | storeFinal c | transfer c => c = addr
  | finished => False
  | _ => True

/-- The coroutine is going to transfer to a suspended coroutine. -/
def CoroPc.willTransfer (noop : BitVec 64) : CoroPc T E → Prop
  | getContinuation => True
  | storeFinal c | transfer c => c ≠ noop
  | _ => False

variable [DecidableEq τ]

/-! ## The handoff -/

/-- What a caller may rely on. -/
def Pc.Ok (h : Handle noop) (s : State τ T E) : Pc T E → Prop
  | awaitReady | exchangeStarted | loadWord => hasContinuation s.word = false
  | casStarted p | checkDone p | schedule p =>
      p = .awaitSuspend → hasContinuation s.word = false
  | casWord old =>
      hasContinuation s.word = false ∧ hasContinuation old = false
  | suspended =>
      s.word &&& addrMask = h.address ∧ s.coro.owes h.address
  | returnAwaiting | readResult _ => s.ready = true
  | lockState b | testReady b => b = true → s.ready = true
  | wait b | waiting b | notified b => b = false
  | unlockState _ r | returned _ r => s.ready = true ∧ r = s.completion
  | _ => True

/-- What holds about the handoff in every run. -/
structure HandedOff (handle : τ → Handle noop) (s : State τ T E) : Prop where
  consumer : Guards Pc.consumes s.consumer s.pc
  fresh : s.consumer = none → hasContinuation s.word = false
  ok : ∀ t, (s.pc t).Ok (handle t) s
  registered : hasContinuation s.word = true → s.coro.flagged = false →
    ∃ t, s.pc t = .suspended
  transfers : s.coro.willTransfer noop → ∃ t, s.pc t = .suspended

omit [DecidableEq τ] in
theorem consumes_afterStart (p : Purpose) :
    (afterStart p : Pc T E).consumes = decide (p ≠ .start) := by
  cases p <;> rfl

omit [DecidableEq τ] in
theorem consumes_afterSetContinuation (x y : BitVec 64) :
    (afterSetContinuation x y : Pc T E).consumes = true := by
  unfold afterSetContinuation
  split <;> rfl

omit [DecidableEq τ] in
theorem consumes_mark (p : Pc T E) : p.mark.consumes = p.consumes := by
  cases p <;> rfl

theorem consumer_next {handle : τ → Handle noop} {s : State τ T E}
    {a : Action τ T E} (h : Guards Pc.consumes s.consumer s.pc)
    (ha : Enabled handle s a) :
    Guards Pc.consumes (next handle s a).consumer (next handle s a).pc := by
  have hstay : ∀ (t : τ) (p q : Pc T E), s.pc t = p →
      q.consumes = p.consumes →
        Guards Pc.consumes s.consumer (Function.update s.pc t q) := by
    intro t p q hp hq
    exact h.stay (by rw [hp, hq])
  cases a with
  | callGet t => exact h.enter ha.2.2 rfl
  | coAwait t => exact h.enter ha.2.2 rfl
  | startAgain t p => exact hstay t _ _ ha.1 (consumes_afterStart p)
  | isDone t p => exact hstay t _ _ ha.1 (consumes_afterStart p)
  | schedule t p => exact hstay t _ _ ha (consumes_afterStart p)
  | continuationTaken t old =>
      exact hstay t _ _ ha.1 (consumes_afterSetContinuation _ _)
  | setContinuation t old =>
      exact hstay t _ _ ha.1 (consumes_afterSetContinuation _ _)
  | notifyAll => exact h.map consumes_mark
  | transferTo c t => exact h.stay ((h t).mpr ha.2.2.1).symm
  | _ =>
      first
      | exact h
      | exact hstay _ _ _ ha rfl
      | exact hstay _ _ _ ha.1 rfl

/-- A suspended coroutine stays so until the final awaiter transfers to it. -/
theorem suspended_next {handle : τ → Handle noop} {s : State τ T E}
    {a : Action τ T E} (ha : Enabled handle s a) {u : τ}
    (hu : s.pc u = .suspended) (hne : ∀ c, a ≠ .transferTo c u) :
    (next handle s a).pc u = .suspended := by
  have hother : ∀ (t : τ) (p q : Pc T E), s.pc t = p → p ≠ .suspended →
      Function.update s.pc t q u = .suspended := by
    intro t p q hp hps
    have hut : u ≠ t := by
      rintro rfl
      exact hps (hp.symm.trans hu)
    rw [Function.update_of_ne hut, hu]
  cases a with
  | transferTo c t =>
      have hut : u ≠ t := fun hut => hne c (by rw [hut])
      exact (Function.update_of_ne hut _ _).trans hu
  | notifyAll => exact congrArg Pc.mark hu
  | _ =>
      first
      | exact hu
      | exact hother _ _ _ ha (by simp)
      | exact hother _ _ _ ha.1 (by simp)

omit [DecidableEq τ] in
/-- The agent to which the final awaiter transfers is suspended. -/
theorem HandedOff.suspended_of_transferTo {handle : τ → Handle noop}
    {s : State τ T E} (h : HandedOff handle s) {c : BitVec 64} {t : τ}
    (ha : Enabled handle s (.transferTo c t)) : s.pc t = .suspended := by
  obtain ⟨hcoro, hc, hconsumer, -⟩ := ha
  obtain ⟨u, hu⟩ := h.transfers (by rw [hcoro]; exact hc)
  have hu' := (h.consumer u).mp (by rw [hu]; rfl)
  rw [hconsumer] at hu'
  cases hu'
  exact hu

omit [DecidableEq τ] in
theorem hasContinuation_of_and_addrMask {word : BitVec 64} {h : Handle noop}
    (hword : word &&& addrMask = h.address) : hasContinuation word = true := by
  simp only [hasContinuation, hword]
  exact bne_iff_ne.mpr h.ne_zero

omit [DecidableEq τ] in
/-- What a caller knows survives the steps of others. -/
theorem Pc.Ok.transfer {h : Handle noop} {s s' : State τ T E} {p : Pc T E}
    (hp : p.Ok h s) (hready : s.ready = true → s'.ready = true)
    (hcompletion : s.ready = true → s'.completion = s.completion)
    (hword : p.consumes = true → hasContinuation s.word = false →
      hasContinuation s'.word = false)
    (hsuspended : p = .suspended →
      s'.word &&& addrMask = s.word &&& addrMask ∧
        (s.coro.owes h.address → s'.coro.owes h.address)) :
    p.Ok h s' := by
  cases p with
  | awaitReady => exact hword rfl hp
  | exchangeStarted => exact hword rfl hp
  | loadWord => exact hword rfl hp
  | casStarted q =>
      intro hq
      subst hq
      exact hword rfl (hp rfl)
  | checkDone q =>
      intro hq
      subst hq
      exact hword rfl (hp rfl)
  | schedule q =>
      intro hq
      subst hq
      exact hword rfl (hp rfl)
  | casWord old => exact ⟨hword rfl hp.1, hp.2⟩
  | suspended =>
      obtain ⟨hmask, howes⟩ := hsuspended rfl
      exact ⟨hmask.trans hp.1, howes hp.2⟩
  | returnAwaiting => exact hready hp
  | readResult b => exact hready hp
  | lockState b => exact fun hb => hready (hp hb)
  | testReady b => exact fun hb => hready (hp hb)
  | unlockState b r =>
      exact ⟨hready hp.1, hp.2.trans (hcompletion hp.1).symm⟩
  | returned b r => exact ⟨hready hp.1, hp.2.trans (hcompletion hp.1).symm⟩
  | _ => exact hp

/-- `ready` is only ever set. -/
theorem next_ready {handle : τ → Handle noop} {s : State τ T E}
    {a : Action τ T E} (h : s.ready = true) :
    (next handle s a).ready = true := by
  cases a <;> first | exact h | rfl

/-- The completion is fixed once `ready` is set. -/
theorem next_completion {handle : τ → Handle noop} {s : State τ T E}
    {a : Action τ T E} (hpub : Published s) (ha : Enabled handle s a)
    (h : s.ready = true) :
    (next handle s a).completion = s.completion := by
  cases a with
  | complete c =>
      have hready := hpub.ready
      rw [show s.coro = .running from ha, h] at hready
      cases hready
  | _ => rfl

/-- Only the consumer stores an address. -/
theorem next_hasContinuation {handle : τ → Handle noop} {s : State τ T E}
    {a : Action τ T E} (ha : Enabled handle s a)
    (hne : ∀ t old, a ≠ .setContinuation t old)
    (h : hasContinuation s.word = false) :
    hasContinuation (next handle s a).word = false := by
  cases a with
  | setContinuation t old => exact absurd rfl (hne t old)
  | setReady old =>
      have hword := ha.2.2
      rw [hword] at h
      simpa [next] using h
  | _ => exact h

/-- What the coroutine owes to a suspended coroutine it goes on to owe, until
it transfers. -/
theorem owes_next {handle : τ → Handle noop} {s : State τ T E}
    {a : Action τ T E} (hpub : Published s) (ha : Enabled handle s a)
    {h : Handle noop} (hword : s.word &&& addrMask = h.address)
    (howes : s.coro.owes h.address) (hne : ∀ c t, a ≠ .transferTo c t) :
    (next handle s a).coro.owes h.address := by
  cases a with
  | transferTo c t => exact absurd rfl (hne c t)
  | alreadyReady old =>
      have hok := hpub.ok
      rw [ha.1] at hok
      cases ha.2.symm.trans hok
  | setReady old =>
      have hcont := hasContinuation_of_and_addrMask hword
      rw [ha.2.2] at hcont
      simp only [next, hcont, if_true]
      trivial
  | getContinuation => exact getContinuation_of_and_addrMask h hword
  | storeFinal c =>
      rw [show s.coro = .storeFinal c from ha] at howes
      exact howes
  | transferNoop c =>
      rw [ha.1] at howes
      exact h.ne_noop (howes.symm.trans ha.2)
  | _ => first | exact howes | trivial

/-- No step changes the address of a suspended coroutine. -/
theorem next_addrMask {handle : τ → Handle noop} {s : State τ T E}
    {a : Action τ T E} (hoff : HandedOff handle s) (ha : Enabled handle s a)
    {u : τ} (hu : s.pc u = .suspended) :
    (next handle s a).word &&& addrMask = s.word &&& addrMask := by
  cases a with
  | setContinuation t old =>
      have hok := hoff.ok t
      rw [ha.1] at hok
      have hsusp := hoff.ok u
      rw [hu] at hsusp
      have hcont := hasContinuation_of_and_addrMask hsusp.1
      cases hok.1.symm.trans hcont
  | setReady old =>
      rw [ha.2.2]
      exact withReady_and_addrMask old
  | _ => rfl

omit [DecidableEq τ] in
theorem afterSetContinuation_of_ready {old : BitVec 64} (h : Handle noop)
    (hold : isReady old = true) :
    (afterSetContinuation noop (afterExchange noop old h.address) : Pc T E) =
      .returnAwaiting := by
  simp only [afterExchange, hold, if_true, afterSetContinuation]
  rw [if_pos ⟨h.ne_zero, h.ne_noop⟩]

omit [DecidableEq τ] in
theorem afterSetContinuation_of_not_ready {old addr : BitVec 64}
    (hold : isReady old = false) :
    (afterSetContinuation noop (afterExchange noop old addr) : Pc T E) =
      .suspended := by
  simp [afterExchange, hold, afterSetContinuation]

omit [DecidableEq τ] in
theorem CoroPc.owes_of_not_flagged {p : CoroPc T E} (hp : p.flagged = false)
    (addr : BitVec 64) : p.owes addr := by
  cases p <;> trivial

omit [DecidableEq τ] in
theorem CoroPc.published_of_flagged {p : CoroPc T E} (hp : p.flagged = true) :
    p.published = true := by
  cases p <;> first | rfl | cases hp

omit [DecidableEq τ] in
theorem CoroPc.stored_of_published {p : CoroPc T E} (hp : p.published = true) :
    p.stored = true := by
  cases p <;> first | rfl | cases hp

omit [DecidableEq τ] in
theorem ok_afterStart {h : Handle noop} {s : State τ T E} {p : Purpose}
    (hp : p = .awaitSuspend → hasContinuation s.word = false) :
    (afterStart p : Pc T E).Ok h s := by
  cases p with
  | start => trivial
  | get => exact nofun
  | awaitSuspend => exact hp rfl

/-- The caller that takes a step, the final awaiter's transfer included. -/
def Action.caller : Action τ T E → Option τ
  | callIsReady t | callStart t | callGet t | coAwait t | loadReady t
  | startFirst t _ | startAgain t _ | notDone t _ | isDone t _
  | schedule t _ | awaitReadyTrue t | awaitReadyFalse t | exchangeFirst t
  | exchangeAgain t | loadWord t | continuationTaken t _
  | setContinuation t _ | setContinuationFails t _ | returnAwaiting t
  | lockState t _ | testTrue t _ | testFalse t _ | wait t _ | wake t _
  | relock t _ | readResult t _ | unlockState t _ _ | transferTo _ t =>
      some t
  | _ => none

/-- A step moves no other caller, except that `notify_all` marks those that
wait. -/
theorem next_pc_of_ne {handle : τ → Handle noop} {s : State τ T E}
    {a : Action τ T E} {u : τ} (hu : a.caller ≠ some u) :
    (next handle s a).pc u = s.pc u ∨
      ∃ b, s.pc u = .waiting b ∧ (next handle s a).pc u = .notified b := by
  cases a with
  | notifyAll =>
      cases hp : s.pc u with
      | waiting b => exact Or.inr ⟨b, rfl, congrArg Pc.mark hp⟩
      | _ => exact Or.inl (congrArg Pc.mark hp)
  | _ =>
      first
      | exact Or.inl rfl
      | exact Or.inl (Function.update_of_ne
          (fun h => hu (congrArg some h.symm)) _ _)

theorem ok_of_stay {handle : τ → Handle noop} {s : State τ T E}
    {a : Action τ T E} (hpub : Published s) (hoff : HandedOff handle s)
    (ha : Enabled handle s a) {u : τ} (hu : a.caller ≠ some u) :
    (s.pc u).Ok (handle u) (next handle s a) := by
  refine (hoff.ok u).transfer next_ready (next_completion hpub ha) ?_ ?_
  · intro hconsumes
    refine next_hasContinuation ha ?_
    rintro t old rfl
    refine hu (congrArg some (hoff.consumer.unique ?_ hconsumes))
    rw [ha.1]
    rfl
  · intro hsusp
    refine ⟨next_addrMask hoff ha hsusp, fun howes => ?_⟩
    have hok := hoff.ok u
    rw [hsusp] at hok
    refine owes_next hpub ha hok.1 howes ?_
    rintro c t rfl
    refine hu (congrArg some (hoff.consumer.unique ?_ (u := u) ?_))
    · rw [hoff.suspended_of_transferTo ha]
      rfl
    · rw [hsusp]
      rfl

/-- The caller that exchanges the word finds the task ready, or leaves it the
handle of its own coroutine. -/
theorem ok_setContinuation {handle : τ → Handle noop} {s : State τ T E}
    {t : τ} {old : BitVec 64} (hpub : Published s)
    (ha : Enabled handle s (.setContinuation t old)) :
    ((next handle s (.setContinuation t old)).pc t).Ok (handle t)
      (next handle s (.setContinuation t old)) := by
  have hself : ∀ {q : Pc T E},
      (next handle s (.setContinuation t old)).pc =
        Function.update s.pc t q →
          (next handle s (.setContinuation t old)).pc t = q := by
    intro q hq
    rw [hq, Function.update_self]
  have hflag := hpub.word
  rw [ha.2.2] at hflag
  by_cases hready : isReady old = true
  · have hpublished := CoroPc.published_of_flagged (hflag.symm.trans hready)
    have hpc := hself (congrArg (Function.update s.pc t)
      (afterSetContinuation_of_ready (handle t) hready))
    rw [hpc]
    exact hpub.ready.trans hpublished
  · rw [Bool.not_eq_true] at hready
    have hpc := hself (congrArg (Function.update s.pc t)
      (afterSetContinuation_of_not_ready hready))
    rw [hpc]
    exact ⟨withContinuation_and_addrMask old (handle t),
      CoroPc.owes_of_not_flagged (hflag.symm.trans hready) _⟩

/-- What the acting caller knows at its new program point. -/
theorem ok_caller {handle : τ → Handle noop} {s : State τ T E}
    {a : Action τ T E} (hpub : Published s) (hoff : HandedOff handle s)
    (ha : Enabled handle s a) {t : τ} (ht : a.caller = some t) :
    ((next handle s a).pc t).Ok (handle t) (next handle s a) := by
  have hok := hoff.ok t
  have hset : ∀ (s' : State τ T E) (q : Pc T E),
      s'.pc = Function.update s.pc t q → q.Ok (handle t) s' →
        (s'.pc t).Ok (handle t) s' := by
    intro s' q hs' hq
    rwa [hs', Function.update_self]
  cases a <;> cases ht
  case callIsReady => exact hset _ _ rfl trivial
  case callStart => exact hset _ _ rfl nofun
  case callGet => exact hset _ _ rfl nofun
  case coAwait => exact hset _ _ rfl (hoff.fresh ha.2.2)
  case loadReady => exact hset _ _ rfl trivial
  case startFirst p =>
      rw [ha.1] at hok
      exact hset _ _ rfl hok
  case startAgain p =>
      rw [ha.1] at hok
      exact hset _ _ rfl (ok_afterStart hok)
  case notDone p =>
      rw [ha.1] at hok
      exact hset _ _ rfl hok
  case isDone p =>
      rw [ha.1] at hok
      exact hset _ _ rfl (ok_afterStart hok)
  case schedule p =>
      rw [show s.pc t = .schedule p from ha] at hok
      exact hset _ _ rfl (ok_afterStart hok)
  case awaitReadyTrue => exact hset _ _ rfl fun _ => ha.2
  case awaitReadyFalse =>
      rw [ha.1] at hok
      exact hset _ _ rfl hok
  case exchangeFirst =>
      rw [ha.1] at hok
      exact hset _ _ rfl fun _ => hok
  case exchangeAgain =>
      rw [ha.1] at hok
      exact hset _ _ rfl hok
  case loadWord =>
      rw [show s.pc t = .loadWord from ha] at hok
      exact hset _ _ rfl ⟨hok, hok⟩
  case continuationTaken old =>
      rw [ha.1] at hok
      cases hok.2.symm.trans ha.2
  case setContinuation old => exact ok_setContinuation hpub ha
  case setContinuationFails old =>
      rw [ha.1] at hok
      exact hset _ _ rfl ⟨hok.1, hok.1⟩
  case returnAwaiting =>
      rw [show s.pc t = .returnAwaiting from ha] at hok
      exact hset _ _ rfl fun _ => hok
  case lockState b =>
      rw [ha.1] at hok
      exact hset _ _ rfl hok
  case testTrue b => exact hset _ _ rfl ha.2
  case testFalse b =>
      rw [ha.1] at hok
      refine hset _ _ rfl ?_
      refine Bool.eq_false_iff.mpr fun hb => ?_
      cases (hok hb).symm.trans ha.2
  case wait b =>
      rw [show s.pc t = .wait b from ha] at hok
      exact hset _ _ rfl hok
  case wake b =>
      rw [show s.pc t = .waiting b from ha] at hok
      exact hset _ _ rfl hok
  case relock b =>
      rw [ha.1] at hok
      exact hset _ _ rfl fun hb => (by cases hok.symm.trans hb)
  case readResult b =>
      rw [show s.pc t = .readResult b from ha] at hok
      have hpublished := hpub.ready.symm.trans hok
      exact hset _ _ rfl
        ⟨hok, hpub.stored (CoroPc.stored_of_published hpublished)⟩
  case unlockState b r =>
      rw [show s.pc t = .unlockState b r from ha] at hok
      exact hset _ _ rfl hok
  case transferTo c =>
      refine hset _ _ rfl fun _ => ?_
      have hready := hpub.ready
      rw [ha.1] at hready
      exact hready

theorem ok_next {handle : τ → Handle noop} {s : State τ T E}
    {a : Action τ T E} (hpub : Published s) (hoff : HandedOff handle s)
    (ha : Enabled handle s a) (u : τ) :
    ((next handle s a).pc u).Ok (handle u) (next handle s a) := by
  by_cases hu : a.caller = some u
  · exact ok_caller hpub hoff ha hu
  · have hkept := ok_of_stay hpub hoff ha hu
    rcases next_pc_of_ne hu with hpc | ⟨b, hold, hnew⟩
    · rw [hpc]
      exact hkept
    · rw [hold] at hkept
      rw [hnew]
      exact hkept

theorem exists_suspended_next {handle : τ → Handle noop} {s : State τ T E}
    {a : Action τ T E} (ha : Enabled handle s a)
    (hne : ∀ c t, a ≠ .transferTo c t) (h : ∃ t, s.pc t = .suspended) :
    ∃ t, (next handle s a).pc t = .suspended := by
  obtain ⟨t, ht⟩ := h
  exact ⟨t, suspended_next ha ht fun c => hne c t⟩

/-- Only a consumer stores a continuation. -/
theorem fresh_next {handle : τ → Handle noop} {s : State τ T E}
    {a : Action τ T E} (hoff : HandedOff handle s) (ha : Enabled handle s a)
    (hnone : (next handle s a).consumer = none) :
    hasContinuation (next handle s a).word = false := by
  cases a with
  | callGet t => cases hnone
  | coAwait t => cases hnone
  | setContinuation t old =>
      have hconsumer := (hoff.consumer t).mp (by rw [ha.1]; rfl)
      cases hconsumer.symm.trans hnone
  | setReady old =>
      exact next_hasContinuation ha (by simp) (hoff.fresh hnone)
  | _ => exact hoff.fresh hnone

/-- A continuation that was stored in time has a suspended consumer. -/
theorem registered_next {handle : τ → Handle noop} {s : State τ T E}
    {a : Action τ T E} (hpub : Published s) (hoff : HandedOff handle s)
    (ha : Enabled handle s a)
    (hcont : hasContinuation (next handle s a).word = true)
    (hflag : (next handle s a).coro.flagged = false) :
    ∃ t, (next handle s a).pc t = .suspended := by
  have hkeep : s.coro.flagged = false → hasContinuation s.word = true →
      (∀ c t, a ≠ .transferTo c t) →
        ∃ t, (next handle s a).pc t = .suspended :=
    fun hf hc hne => exists_suspended_next ha hne (hoff.registered hc hf)
  cases a with
  | setContinuation t old =>
      have hword := hpub.word
      rw [ha.2.2] at hword
      refine ⟨t, ?_⟩
      have hpc : (afterSetContinuation noop (afterExchange noop old
          (handle t).address) : Pc T E) = .suspended :=
        afterSetContinuation_of_not_ready (hword.trans hflag)
      simp only [next, goto_pc, Function.update_self, hpc]
  | setReady old =>
      by_cases hc : hasContinuation old = true <;>
        simp [next, hc, CoroPc.flagged] at hflag
  | transferTo c t => cases hflag
  | alreadyReady old => cases hflag
  | getContinuation => cases hflag
  | storeFinal c => cases hflag
  | transferNoop c => cases hflag
  | resumeTask | coroLock c | setReadyFails old =>
      exact hkeep (by rw [ha.1]; rfl) hcont (by simp)
  | complete c =>
      have hcoro : s.coro = .running := ha
      exact hkeep (by rw [hcoro]; rfl) hcont (by simp)
  | storeResult c =>
      have hcoro : s.coro = .storeResult c := ha
      exact hkeep (by rw [hcoro]; rfl) hcont (by simp)
  | storeReady =>
      have hcoro : s.coro = .storeReady := ha
      exact hkeep (by rw [hcoro]; rfl) hcont (by simp)
  | notifyAll =>
      have hcoro : s.coro = .notifyAll := ha
      exact hkeep (by rw [hcoro]; rfl) hcont (by simp)
  | coroUnlock =>
      have hcoro : s.coro = .unlockState := ha
      exact hkeep (by rw [hcoro]; rfl) hcont (by simp)
  | coroLoadWord =>
      have hcoro : s.coro = .loadWord := ha
      exact hkeep (by rw [hcoro]; rfl) hcont (by simp)
  | _ => exact hkeep hflag hcont (by simp)

/-- The consumer stays suspended until control is transferred to it. -/
theorem transfers_next {handle : τ → Handle noop} {s : State τ T E}
    {a : Action τ T E} (hoff : HandedOff handle s) (ha : Enabled handle s a)
    (hwill : (next handle s a).coro.willTransfer noop) :
    ∃ t, (next handle s a).pc t = .suspended := by
  cases a with
  | setReady old =>
      by_cases hc : hasContinuation old = true
      · refine exists_suspended_next ha (by simp) (hoff.registered ?_ ?_)
        · rw [ha.2.2]
          exact hc
        · rw [ha.1]
          rfl
      · simp [next, hc, CoroPc.willTransfer] at hwill
  | alreadyReady old => exact absurd rfl hwill
  | getContinuation =>
      refine exists_suspended_next ha (by simp) (hoff.transfers ?_)
      rw [show s.coro = .getContinuation from ha]
      trivial
  | storeFinal c =>
      refine exists_suspended_next ha (by simp) (hoff.transfers ?_)
      rw [show s.coro = .storeFinal c from ha]
      exact hwill
  | transferTo c t => exact hwill.elim
  | _ =>
      first
      | exact hwill.elim
      | exact exists_suspended_next ha (by simp) (hoff.transfers hwill)

theorem handedOff_next {handle : τ → Handle noop} {s : State τ T E}
    {a : Action τ T E} (hpub : Published s) (hoff : HandedOff handle s)
    (ha : Enabled handle s a) : HandedOff handle (next handle s a) where
  consumer := consumer_next hoff.consumer ha
  ok := ok_next hpub hoff ha
  fresh := fresh_next hoff ha
  registered := registered_next hpub hoff ha
  transfers := transfers_next hoff ha

theorem handedOff_reachable {handle : τ → Handle noop} {s : State τ T E}
    (hs : (system T E handle).Reachable s) : HandedOff handle s := by
  refine TransitionSystem.Reachable.invariant_of hs (HandedOff handle)
    (fun s hs => published_reachable hs) ?_
    fun s a hpub hoff ha => handedOff_next hpub hoff ha
  rintro s rfl
  have hcont : hasContinuation 0 = false := by decide
  refine ⟨fun t => ?_, fun _ => hcont, fun t => trivial, fun h => ?_,
    fun h => h.elim⟩
  · simp [initialState, Pc.consumes]
  · cases hcont.symm.trans h

theorem exists_completion_of_ready {handle : τ → Handle noop}
    {s : State τ T E} (hs : (system T E handle).Reachable s)
    (hready : s.ready = true) : ∃ c, s.completion = some c := by
  have hpub := published_reachable hs
  have hpublished := hpub.ready.symm.trans hready
  refine Option.isSome_iff_exists.mp ?_
  rw [hpub.ended]
  cases hp : s.coro <;> rw [hp] at hpublished <;>
    first | rfl | cases hpublished

/-- The consumer gets what the body has ended with. -/
theorem exists_completion_of_returned {handle : τ → Handle noop}
    {s : State τ T E} (hs : (system T E handle).Reachable s) {t : τ} {b : Bool}
    {r : Option (Completion T E)} (hr : s.pc t = .returned b r) :
    ∃ c, s.completion = some c ∧ r = some c := by
  have hok := (handedOff_reachable hs).ok t
  rw [hr] at hok
  obtain ⟨c, hc⟩ := exists_completion_of_ready hs hok.1
  exact ⟨c, hc, hok.2.trans hc⟩

end CoroTask
end Ethreads
