import Ethreads.SendAwaiter.Model

/-!
# A re-check that keeps out of the way

At any time a wait *promises* what `resume_impl` is going to report, and it
agrees with its promise if exactly that was appended.  Steps that keep the
re-check out of the way of `resume_impl` keep the agreement.
-/

namespace Ethreads
namespace SendAwaiter

open ReceiveAwaiter (AsyncOpStatus Channel)

variable {ω T : Type*} {c : Config T}

/-- The result of the call of `try_send` that `resume_impl` has made, none
before. -/
def ResumePc.promised (sent : Bool) (returned : Option AsyncOpStatus) :
    ResumePc T → Bool
  | waiting | begin | testSent => sent
  | testClosed | recheck | send _ => false
  | store ok => ok
  | done => returned = some .completed

/-- The program points of `suspend_impl` up to the store of its own result in
`sent_`. -/
def SuspendPc.isUnsent : SuspendPc T → Bool
  | idle | ready | trySend | deadline | addTimer | addNode | recheck | send _
  | store _ => true
  | testSent | testClosed | exchange | finished => false

/-- The program points before the timer is registered. -/
def SuspendPc.isPrivate : SuspendPc T → Bool
  | idle | ready | trySend | deadline | addTimer => true
  | _ => false

namespace Wait

/-- What the wait is going to report as sent. -/
def promised (x : Wait T) : Bool :=
  x.resume.promised x.sent x.returned

/-- What was appended is what the wait is going to report. -/
def Agrees (v : T) (x : Wait T) : Prop :=
  x.appended = added v x.promised

theorem added_ne_of_append {v u : T} {ok : Bool} {l : List T} (hl : l ≠ []) :
    l ++ [u] ≠ added v ok := by
  intro heq
  have hlength := congrArg List.length heq
  have hpos := List.length_pos_iff.mpr hl
  cases ok <;> simp [added] at hlength heq
  exact hl hlength

/-! ## Before the registration -/

/-- Nobody can resume the wait yet. -/
structure Unregistered (x : Wait T) : Prop where
  waiting : x.resume = .waiting
  registered : x.registered = false
  gate : x.gate = false

/-- The wait starts private, with the value it was constructed with; once it
is registered it can be resumed. -/
structure Starts (v : T) (x : Wait T) : Prop where
  unregistered : x.suspend.isPrivate = true → x.Unregistered
  value : x.suspend = .idle ∨ x.suspend = .ready ∨ x.suspend = .trySend →
    x.value = v
  registered : x.suspend.isPrivate = false → x.resume = .waiting →
    x.registered = true

theorem starts_initial (v : T) : (initial v).Starts v :=
  ⟨fun _ => ⟨rfl, rfl, rfl⟩, fun _ => rfl, nofun⟩

theorem unregistered_next {ch : Channel T} {v : T} {x : Wait T} {b : Step T}
    (h : x.Starts v) (hb : x.Enabled c ch b)
    (hp : (x.next c b).suspend.isPrivate = true) :
    (x.next c b).Unregistered := by
  have hx := h.unregistered
  cases b with
  | trySend ok =>
      have hpriv := hx (by rw [hb.1]; rfl)
      cases ok with
      | true => cases hp
      | false => exact ⟨hpriv.waiting, hpriv.registered, hpriv.gate⟩
  | coAwait =>
      have hpriv := hx (by rw [show x.suspend = .idle from hb]; rfl)
      exact ⟨hpriv.waiting, hpriv.registered, hpriv.gate⟩
  | readyOpen =>
      have hpriv := hx (by rw [hb.1]; rfl)
      exact ⟨hpriv.waiting, hpriv.registered, hpriv.gate⟩
  | deadlineAhead =>
      have hpriv := hx (by rw [show x.suspend = .deadline from hb]; rfl)
      exact ⟨hpriv.waiting, hpriv.registered, rfl⟩
  | fire => exact nomatch hb.1.symm.trans (hx hp).registered
  | resume => exact nomatch hb.2.symm.trans (hx hp).gate
  | hasSent | hasNotSent | seesClosed | seesOpen | lastSend u ok =>
      exact nomatch hb.1.symm.trans (hx hp).waiting
  | lastMove | lastStore ok | lastTest =>
      exact nomatch hb.symm.trans (hx hp).waiting
  | reClosed closed => cases closed <;> cases hp
  | _ => cases hp

theorem value_next {ch : Channel T} {v : T} {x : Wait T} {b : Step T}
    (h : x.Starts v) (hb : x.Enabled c ch b)
    (hp : (x.next c b).suspend = .idle ∨ (x.next c b).suspend = .ready ∨
      (x.next c b).suspend = .trySend) : (x.next c b).value = v := by
  have hx := h.value
  cases b with
  | trySend ok => cases ok <;> simp [next] at hp
  | reClosed closed => cases closed <;> simp [next] at hp
  | coAwait => exact hx (.inl hb)
  | readyOpen => exact hx (.inr (.inl hb.1))
  | lastMove =>
      have hpriv := h.unregistered (by
        rcases hp with hp | hp | hp <;> exact (congrArg _ hp).trans rfl)
      exact nomatch hb.symm.trans hpriv.waiting
  | fire | resume | hasSent | hasNotSent | seesClosed | seesOpen
  | lastSend u ok | lastStore ok | lastTest => exact hx hp
  | _ => simp [next] at hp

theorem registered_next {ch : Channel T} {v : T} {x : Wait T} {b : Step T}
    (h : x.Starts v) (hb : x.Enabled c ch b)
    (hp : (x.next c b).suspend.isPrivate = false)
    (hw : (x.next c b).resume = .waiting) :
    (x.next c b).registered = true := by
  have hx := h.registered
  cases b with
  | trySend ok => cases ok <;> simp [next, SuspendPc.isPrivate] at hp hw
  | reClosed closed => exact hx (by rw [hb.1]; rfl) hw
  | reSend u ok => exact hx (by rw [hb.1]; rfl) hw
  | reSent | reNotSent => exact hx (by rw [hb.1]; rfl) hw
  | reMove => exact hx (by rw [show x.suspend = _ from hb]; rfl) hw
  | addNode => exact hx (by rw [show x.suspend = _ from hb]; rfl) hw
  | reStore ok => exact hx (by rw [show x.suspend = _ from hb]; rfl) hw
  | exchange => exact hx (by rw [show x.suspend = _ from hb]; rfl) hw
  | addTimer => rfl
  | fire => exact hx hp hw
  | coAwait | readyOpen | deadlineAhead => cases hp
  | _ => cases hw

theorem starts_next {ch : Channel T} {v : T} {x : Wait T} {b : Step T}
    (h : x.Starts v) (hb : x.Enabled c ch b) : (x.next c b).Starts v :=
  ⟨unregistered_next h hb, value_next h hb, registered_next h hb⟩

/-! ## Runs that keep out of the way -/

/-- A wait agrees with its promise, but for a success of the re-check that is
still to be stored. -/
structure Kept (v : T) (x : Wait T) : Prop where
  agrees : x.suspend ≠ .store true → x.Agrees v
  stored : x.suspend = .store true →
    x.resume.isEarly = true ∧ x.appended = [v]
  unsent : x.suspend.isUnsent = true → x.resume.isEarly = true →
    x.sent = false
  unreturned : x.resume ≠ .done → x.returned = none

theorem kept_initial (v : T) : (initial v).Kept v :=
  ⟨fun _ => rfl, nofun, fun _ _ => rfl, fun _ => rfl⟩

theorem promised_of_isEarly {x : Wait T} (h : x.resume.isEarly = true) :
    x.promised = x.sent := by
  unfold promised
  cases hr : x.resume <;> simp_all [ResumePc.isEarly, ResumePc.promised]

theorem Kept.suspend_ne {v : T} {x : Wait T} (h : x.Kept v)
    (hlate : x.resume.isEarly = false) : x.suspend ≠ .store true := by
  intro hs
  have hearly := (h.stored hs).1
  rw [hlate] at hearly
  cases hearly

theorem Kept.truthful {v : T} {x : Wait T} (h : x.Kept v) :
    x.Truthful v := by
  intro status hstatus
  by_cases hd : x.resume = .done
  · have hagrees := h.agrees (h.suspend_ne (by rw [hd]; rfl))
    unfold Agrees promised at hagrees
    rw [hagrees, hd, hstatus]
    simp [ResumePc.promised]
  · rw [h.unreturned hd] at hstatus
    cases hstatus

theorem Kept.of_frame {v : T} {x y : Wait T} (h : x.Kept v)
    (hpromised : y.promised = x.promised) (hsent : y.sent = x.sent)
    (happended : y.appended = x.appended)
    (hreturned : y.returned = x.returned)
    (hx : x.suspend ≠ .store true) (hy : y.suspend ≠ .store true)
    (hunsent : y.suspend.isUnsent = true → y.resume.isEarly = true →
      x.suspend.isUnsent = true ∧ x.resume.isEarly = true)
    (hdone : y.resume ≠ .done → x.resume ≠ .done) : y.Kept v where
  agrees _ := by
    rw [Agrees, happended, hpromised]
    exact h.agrees hx
  stored hs := absurd hs hy
  unsent hu he := by
    rw [hsent]
    exact h.unsent (hunsent hu he).1 (hunsent hu he).2
  unreturned hd := by
    rw [hreturned]
    exact h.unreturned (hdone hd)

theorem Kept.of_suspend {v : T} {x y : Wait T} (h : x.Kept v)
    (hresume : y.resume = x.resume) (hsent : y.sent = x.sent)
    (happended : y.appended = x.appended)
    (hreturned : y.returned = x.returned)
    (hx : x.suspend ≠ .store true) (hy : y.suspend ≠ .store true)
    (hunsent : y.suspend.isUnsent = true → x.suspend.isUnsent = true) :
    y.Kept v := by
  refine h.of_frame ?_ hsent happended hreturned hx hy ?_ ?_
  · rw [promised, hresume, hsent, hreturned]
    rfl
  · rw [hresume]
    exact fun hu he => ⟨hunsent hu, he⟩
  · rw [hresume]
    exact id

theorem Kept.of_wake {v : T} {x y : Wait T} (h : x.Kept v)
    (hsuspend : y.suspend = x.suspend) (hpromised : y.promised = x.promised)
    (hearly : y.resume.isEarly = x.resume.isEarly)
    (hsent : y.sent = x.sent) (happended : y.appended = x.appended)
    (hreturned : y.returned = x.returned)
    (hdone : y.resume ≠ .done → x.resume ≠ .done) : y.Kept v where
  agrees hs := by
    rw [Agrees, happended, hpromised]
    exact h.agrees (hsuspend ▸ hs)
  stored hs := by
    rw [hearly, happended]
    exact h.stored (hsuspend ▸ hs)
  unsent hu he := by
    rw [hsent]
    exact h.unsent (hsuspend ▸ hu) (hearly ▸ he)
  unreturned hd := by
    rw [hreturned]
    exact h.unreturned (hdone hd)

theorem Kept.of_resume {v : T} {x y : Wait T} (h : x.Kept v)
    (hsuspend : y.suspend = x.suspend) (hne : x.suspend ≠ .store true)
    (hagrees : y.Agrees v)
    (hearly : y.resume.isEarly = true →
      x.resume.isEarly = true ∧ y.sent = x.sent)
    (hreturned : y.resume ≠ .done → y.returned = none) : y.Kept v where
  agrees _ := hagrees
  stored hs := absurd (hsuspend ▸ hs) hne
  unsent hu he := by
    obtain ⟨hx, hsent⟩ := hearly he
    rw [hsent]
    exact h.unsent (hsuspend ▸ hu) hx
  unreturned := hreturned

theorem Kept.appended_eq_nil {v : T} {x : Wait T} (h : x.Kept v)
    (hs : x.suspend ≠ .store true) (hp : x.promised = false) :
    x.appended = [] := by
  have hagrees := h.agrees hs
  rw [Agrees, hp] at hagrees
  exact hagrees

theorem kept_trySend {ch : Channel T} {v : T} {x : Wait T} {ok : Bool}
    (hstarts : x.Starts v) (h : x.Kept v)
    (hb : x.Enabled c ch (.trySend ok)) : (x.next c (.trySend ok)).Kept v := by
  have hw := (hstarts.unregistered (by rw [hb.1]; rfl)).waiting
  have hearly : x.resume.isEarly = true := by rw [hw]; rfl
  have hsent := h.unsent (by rw [hb.1]; rfl) hearly
  have hreturned := h.unreturned (by rw [hw]; nofun)
  have hnil := h.appended_eq_nil (by rw [hb.1]; nofun)
    ((promised_of_isEarly hearly).trans hsent)
  cases ok with
  | true =>
      have hv := hstarts.value (.inr (.inr hb.1))
      refine ⟨fun _ => ?_, nofun, nofun, fun _ => hreturned⟩
      simp [Agrees, next, hnil, hv, promised, ResumePc.promised, added]
  | false =>
      refine ⟨fun _ => ?_, nofun, fun _ _ => rfl, fun _ => hreturned⟩
      simp [Agrees, next, hnil, hw, promised, ResumePc.promised, added]

theorem kept_reSend {ch : Channel T} {v u : T} {x : Wait T} {ok : Bool}
    (h : x.Kept v) (hb : x.Enabled c ch (.reSend u ok))
    (hkeeps : x.KeepsOut v (.reSend u ok)) :
    (x.next c (.reSend u ok)).Kept v := by
  have hne : x.suspend ≠ .store true := by
    rw [hb.1]
    nofun
  cases ok with
  | false =>
      refine h.of_suspend rfl rfl ?_ rfl hne nofun fun _ => ?_
      · simp [next, added]
      · rw [hb.1]
        rfl
  | true =>
      obtain ⟨rfl, hearly⟩ := hkeeps rfl
      have hsent := h.unsent (by rw [hb.1]; rfl) hearly
      have hnil := h.appended_eq_nil hne
        ((promised_of_isEarly hearly).trans hsent)
      refine ⟨fun hs => absurd rfl hs, fun _ => ⟨hearly, ?_⟩,
        fun _ _ => hsent, h.unreturned⟩
      simp [next, hnil, added]

theorem kept_reStore {v : T} {x : Wait T} {ok : Bool} (h : x.Kept v)
    (hs : x.suspend = .store ok) (hkeeps : x.KeepsOut v (.reStore ok)) :
    (x.next c (.reStore ok)).Kept v := by
  refine ⟨fun _ => ?_, nofun, nofun, h.unreturned⟩
  cases ok with
  | true =>
      obtain ⟨hearly, happended⟩ := h.stored hs
      have hpromised : (x.next c (.reStore true)).promised = true :=
        promised_of_isEarly (x := x.next c (.reStore true)) hearly
      rw [Agrees, hpromised]
      exact happended
  | false =>
      have hne : x.suspend ≠ .store true := by
        rw [hs]
        nofun
      have hsame : (x.next c (.reStore false)).promised = x.promised := by
        have hunsent := h.unsent (by rw [hs]; rfl)
        cases hr : x.resume with
        | waiting | begin =>
            have hsent := hunsent (by rw [hr]; rfl)
            simp [promised, ResumePc.promised, next, hr, hsent]
        | testSent =>
            have hsent : x.sent = false := hkeeps rfl hr
            simp [promised, ResumePc.promised, next, hr, hsent]
        | _ => simp [promised, ResumePc.promised, next, hr]
      rw [Agrees, hsame]
      exact h.agrees hne

theorem kept_lastSend {v u : T} {x : Wait T} {ok : Bool} (h : x.Kept v)
    (hr : x.resume = .send u) (hkeeps : x.KeepsOut v (.lastSend u ok)) :
    (x.next c (.lastSend u ok)).Kept v := by
  have hne := h.suspend_ne (by rw [hr]; rfl)
  have hnil := h.appended_eq_nil hne (by simp [promised, hr, ResumePc.promised])
  have hreturned := h.unreturned (by rw [hr]; nofun)
  refine h.of_resume rfl hne ?_ nofun fun _ => hreturned
  cases ok with
  | true =>
      obtain rfl := hkeeps rfl
      simp [Agrees, next, hnil, promised, ResumePc.promised]
  | false => simp [Agrees, next, hnil, promised, ResumePc.promised, added]

theorem kept_ready {v : T} {x y : Wait T} (h : x.Kept v)
    (hs : x.suspend = .ready ∨ x.suspend = .deadline)
    (hr : x.resume = .waiting)
    (hy : y = { x with suspend := .finished, resume := .begin }) :
    y.Kept v := by
  subst hy
  refine h.of_frame ?_ rfl rfl rfl ?_ nofun nofun fun _ => ?_
  · simp [promised, ResumePc.promised, hr]
  · rcases hs with hs | hs <;> rw [hs] <;> nofun
  · rw [hr]
    nofun

theorem kept_resume {v : T} {x y : Wait T} (h : x.Kept v)
    (hsuspend : y.suspend = x.suspend) (hne : x.suspend ≠ .store true)
    (hpromised : y.promised = x.promised)
    (happended : y.appended = x.appended)
    (hearly : y.resume.isEarly = false)
    (hreturned : y.resume ≠ .done → y.returned = none) : y.Kept v := by
  refine h.of_resume hsuspend hne ?_ (fun he => ?_) hreturned
  · rw [Agrees, happended, hpromised]
    exact h.agrees hne
  · rw [hearly] at he
    cases he

theorem kept_next {ch : Channel T} {v : T} {x : Wait T} {b : Step T}
    (hstarts : x.Starts v) (h : x.Kept v) (hb : x.Enabled c ch b)
    (hkeeps : x.KeepsOut v b) : (x.next c b).Kept v := by
  have hprivate : ∀ {p : SuspendPc T}, x.suspend = p → p.isPrivate = true →
      x.resume = .waiting := fun hs hp =>
    (hstarts.unregistered (by rw [hs]; exact hp)).waiting
  have hlate : ∀ {p : ResumePc T}, x.resume = p → p.isEarly = false →
      x.suspend ≠ .store true ∧ (p ≠ .done → x.returned = none) := by
    rintro p rfl hp
    exact ⟨h.suspend_ne hp, h.unreturned⟩
  cases b with
  | trySend ok => exact kept_trySend hstarts h hb
  | reSend u ok => exact kept_reSend h hb hkeeps
  | reStore ok => exact kept_reStore h hb hkeeps
  | lastSend u ok => exact kept_lastSend h hb.1 hkeeps
  | readyClosed => exact kept_ready h (.inl hb.1) (hprivate hb.1 rfl) rfl
  | deadlinePassed => exact kept_ready h (.inr hb) (hprivate hb rfl) rfl
  | resume =>
      refine h.of_wake rfl ?_ ?_ rfl rfl rfl ?_
      · simp [promised, ResumePc.promised, next, hb.1]
      · simp [ResumePc.isEarly, next, hb.1]
      · simp [hb.1]
  | fire => exact h.of_wake rfl rfl rfl rfl rfl rfl id
  | hasSent =>
      have hne : x.suspend ≠ .store true := by
        intro hs
        have hsent := h.unsent (by rw [hs]; rfl) (by rw [hb.1]; rfl)
        exact nomatch hb.2.symm.trans hsent
      refine kept_resume h rfl hne ?_ rfl rfl (fun hd => absurd rfl hd)
      simp [promised, ResumePc.promised, next, hb.1, hb.2]
  | hasNotSent =>
      refine kept_resume h rfl hkeeps ?_ rfl rfl fun _ => ?_
      · simp [promised, ResumePc.promised, next, hb.1, hb.2]
      · exact h.unreturned (by simp [hb.1])
  | seesClosed =>
      refine kept_resume h rfl (hlate hb.1 rfl).1 ?_ rfl rfl
        (fun hd => absurd rfl hd)
      simp [promised, ResumePc.promised, next, hb.1]
  | seesOpen =>
      refine kept_resume h rfl (hlate hb.1 rfl).1 ?_ rfl rfl
        fun _ => (hlate hb.1 rfl).2 nofun
      simp [promised, ResumePc.promised, next, hb.1]
  | lastMove =>
      have hr : x.resume = .recheck := hb
      refine kept_resume h rfl (hlate hr rfl).1 ?_ rfl rfl
        fun _ => (hlate hr rfl).2 nofun
      simp [promised, ResumePc.promised, next, hr]
  | lastStore ok =>
      have hr : x.resume = .store ok := hb
      refine kept_resume h rfl (hlate hr rfl).1 ?_ rfl rfl
        fun _ => (hlate hr rfl).2 nofun
      simp [promised, ResumePc.promised, next, hr]
  | lastTest =>
      have hr : x.resume = .testSent := hb
      refine kept_resume h rfl (hlate hr rfl).1 ?_ rfl rfl
        (fun hd => absurd rfl hd)
      cases hsent : x.sent <;>
        simp [promised, ResumePc.promised, next, hr, hsent]
  | reClosed closed =>
      refine h.of_suspend rfl rfl rfl rfl ?_ ?_ ?_
      · simp [hb.1]
      · cases closed <;> simp [next]
      · cases closed <;> nofun
  | readyOpen | reSent | reNotSent =>
      refine h.of_suspend rfl rfl rfl rfl (by simp [hb.1]) nofun ?_
      simp [next, hb.1, SuspendPc.isUnsent]
  | coAwait | deadlineAhead | addTimer | addNode | reMove | exchange =>
      have hs := hb
      simp only [Enabled] at hs
      refine h.of_suspend rfl rfl rfl rfl (by simp [hs]) nofun ?_
      simp [next, hs, SuspendPc.isUnsent]

end Wait
end SendAwaiter
end Ethreads
