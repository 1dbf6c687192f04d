import Ethreads.SendAwaiter.Keeping

/-!
# The status of a timed send

Runs in which the re-check keeps out of the way of `resume_impl` report what
they have appended.  Any step that gets in the way breaks the agreement of a
wait with its promise, and then `resume_impl` can run to its end with a status
that is not true.
-/

namespace Ethreads
namespace SendAwaiter

open ReceiveAwaiter (AsyncOpStatus Channel)

variable {ω T : Type*} {c : Config T}

namespace Wait

/-! ## Running `resume_impl` to its end -/

/-- A wait that has ended has returned a status. -/
def Reports (x : Wait T) : Prop :=
  x.resume = .done → x.returned ≠ none

theorem reports_next {ch : Channel T} {x : Wait T} {b : Step T}
    (h : x.Reports) (hb : x.Enabled c ch b) : (x.next c b).Reports := by
  intro hd
  cases b with
  | trySend ok =>
      cases ok with
      | true => cases hd
      | false => exact h hd
  | hasSent | seesClosed | lastTest => nofun
  | readyClosed | deadlinePassed | resume | hasNotSent | seesOpen | lastMove
  | lastSend u ok | lastStore ok => cases hd
  | _ => exact h hd

/-- Once the wait is registered it can be resumed. -/
def Resumable (x : Wait T) : Prop :=
  x.resume = .waiting → x.registered = true

/-- How many steps the wait still has to take until it returns. -/
def remaining (x : Wait T) : ℕ :=
  match x.resume with
  | .waiting => if x.gate then 7 else 8
  | .begin => 6
  | .testClosed => 5
  | .recheck => 4
  | .send _ => 3
  | .store _ => 2
  | .testSent => 1
  | .done => 0

theorem not_agrees_of_frame {v : T} {x y : Wait T} (h : ¬x.Agrees v)
    (hpromised : y.promised = x.promised)
    (happended : y.appended = x.appended) : ¬y.Agrees v := by
  rw [Agrees, happended, hpromised]
  exact h

/-- A wait that disagrees with its promise has a step towards its end that
leaves it so. -/
theorem exists_step_not_agrees (ch : Channel T) {v : T} {x : Wait T}
    (h : ¬x.Agrees v) (hresumable : x.Resumable) (hd : x.resume ≠ .done) :
    ∃ b, x.Enabled c ch b ∧ ¬(x.next c b).Agrees v ∧
      (x.next c b).Resumable ∧ (x.next c b).remaining < x.remaining := by
  cases hr : x.resume with
  | waiting =>
      cases hg : x.gate with
      | true =>
          refine ⟨.resume, ⟨hr, hg⟩, not_agrees_of_frame h ?_ rfl,
            by rintro ⟨⟩, ?_⟩
          · simp [promised, ResumePc.promised, next, hr]
          · simp [remaining, next, hr, hg]
      | false =>
          refine ⟨.fire, ⟨hresumable hr, hg⟩, not_agrees_of_frame h rfl rfl,
            hresumable, ?_⟩
          simp [remaining, next, hr, hg]
  | begin =>
      cases hsent : x.sent with
      | true =>
          refine ⟨.hasSent, ⟨hr, hsent⟩, not_agrees_of_frame h ?_ rfl,
            by rintro ⟨⟩, ?_⟩
          · simp [promised, ResumePc.promised, next, hr, hsent]
          · simp [remaining, next, hr]
      | false =>
          refine ⟨.hasNotSent, ⟨hr, hsent⟩, not_agrees_of_frame h ?_ rfl,
            by rintro ⟨⟩, ?_⟩
          · simp [promised, ResumePc.promised, next, hr, hsent]
          · simp [remaining, next, hr]
  | testClosed =>
      cases hc : ch.closed with
      | true =>
          refine ⟨.seesClosed, ⟨hr, hc⟩, not_agrees_of_frame h ?_ rfl,
            by rintro ⟨⟩, ?_⟩
          · simp [promised, ResumePc.promised, next, hr]
          · simp [remaining, next, hr]
      | false =>
          refine ⟨.seesOpen, ⟨hr, hc⟩, not_agrees_of_frame h ?_ rfl,
            by rintro ⟨⟩, ?_⟩
          · simp [promised, ResumePc.promised, next, hr]
          · simp [remaining, next, hr]
  | recheck =>
      refine ⟨.lastMove, hr, not_agrees_of_frame h ?_ rfl, by rintro ⟨⟩, ?_⟩
      · simp [promised, ResumePc.promised, next, hr]
      · simp [remaining, next, hr]
  | send u =>
      have hne : x.appended ≠ [] := by
        intro hnil
        apply h
        simp [Agrees, hnil, promised, hr, ResumePc.promised, added]
      refine ⟨.lastSend u _, ⟨hr, rfl⟩, ?_, by rintro ⟨⟩, ?_⟩
      · cases (SendAwaiter.trySend c ch u).isSome with
        | true => exact added_ne_of_append hne
        | false => simpa [Agrees, next, promised, ResumePc.promised, added]
      · simp [remaining, next, hr]
  | store ok =>
      refine ⟨.lastStore ok, hr, not_agrees_of_frame h ?_ rfl, by rintro ⟨⟩, ?_⟩
      · simp [promised, ResumePc.promised, next, hr]
      · simp [remaining, next, hr]
  | testSent =>
      refine ⟨.lastTest, hr, not_agrees_of_frame h ?_ rfl, by rintro ⟨⟩, ?_⟩
      · cases hsent : x.sent <;>
          simp [promised, ResumePc.promised, next, hr, hsent]
      · simp [remaining, next, hr]
  | done => exact absurd hr hd

/-- A step that gets in the way breaks the agreement. -/
theorem not_agrees_of_not_keepsOut {ch : Channel T} {v : T} {x : Wait T}
    {b : Step T} (h : x.Kept v) (hb : x.Enabled c ch b)
    (hkeeps : ¬x.KeepsOut v b) : ¬(x.next c b).Agrees v := by
  cases b with
  | reSend u ok =>
      have hok : ok = true := by
        by_contra hfalse
        exact hkeeps fun htrue => absurd htrue hfalse
      subst hok
      have hagrees := h.agrees (by simp [hb.1])
      intro hnext
      have heq : x.appended ++ [u] = x.appended := hnext.trans hagrees.symm
      simp at heq
  | lastSend u ok =>
      obtain ⟨hok, hu⟩ := Classical.not_imp.mp hkeeps
      subst hok
      have hne := h.suspend_ne (by rw [hb.1]; rfl)
      have hnil := h.appended_eq_nil hne
        (by simp [promised, hb.1, ResumePc.promised])
      simpa [Agrees, next, hnil, promised, ResumePc.promised, added] using hu
  | hasNotSent =>
      have happended := (h.stored (of_not_not hkeeps)).2
      simp [Agrees, next, happended, promised, ResumePc.promised, added]
  | reStore ok =>
      obtain ⟨hok, hrest⟩ := Classical.not_imp.mp hkeeps
      obtain ⟨hr, hsent⟩ := Classical.not_imp.mp hrest
      subst hok
      have hs : x.suspend = .store false := hb
      have hagrees := h.agrees (by simp [hs])
      rw [Bool.not_eq_false] at hsent
      simp [Agrees, promised, hr, ResumePc.promised, hsent, added] at hagrees
      simp [Agrees, next, hagrees, promised, hr, ResumePc.promised, added]
  | _ => exact absurd trivial hkeeps

theorem resumable_of_not_keepsOut {ch : Channel T} {v : T} {x : Wait T}
    {b : Step T} (h : x.Starts v) (hb : x.Enabled c ch b)
    (hkeeps : ¬x.KeepsOut v b) : (x.next c b).Resumable := by
  cases b with
  | reSend u ok => exact h.registered (by rw [hb.1]; rfl)
  | reStore ok =>
      refine h.registered ?_
      rw [show x.suspend = .store ok from hb]
      rfl
  | lastSend u ok | hasNotSent => nofun
  | _ => exact absurd trivial hkeeps

end Wait

/-! ## Runs -/

section Runs

variable [DecidableEq ω] {value : ω → T}
  {s : Family.State ω (Channel T) (Wait T)}

def AllTruthful (value : ω → T)
    (s : Family.State ω (Channel T) (Wait T)) : Prop :=
  ∀ w, (s.part w).Truthful (value w)

/-- The step keeps the re-check of `suspend_impl` out of the way of
`resume_impl`. -/
def KeepsOut (value : ω → T) (s : Family.State ω (Channel T) (Wait T)) :
    Family.Action ω (ChannelOp T) (Step T) → Prop :=
  Family.Where (fun w _ x b => x.KeepsOut (value w) b) s

instance [DecidableEq T] (s : Family.State ω (Channel T) (Wait T))
    (a : Family.Action ω (ChannelOp T) (Step T)) :
    Decidable (KeepsOut value s a) :=
  inferInstanceAs (Decidable (Family.Where _ s a))

theorem kept_reachable
    (hs : (waits c value).system.ReachableWhere (KeepsOut value) s) (w : ω) :
    (s.part w).Starts (value w) ∧ (s.part w).Kept (value w) :=
  Family.part_invariant hs
    (fun w x => x.Starts (value w) ∧ x.Kept (value w))
    (fun w => ⟨Wait.starts_initial (value w), Wait.kept_initial (value w)⟩)
    (fun _ _ _ h hb hkeeps =>
      ⟨Wait.starts_next h.1 hb, Wait.kept_next h.1 h.2 hb hkeeps⟩) w

theorem reports_reachable (hs : (waits c value).system.Reachable s) (w : ω) :
    (s.part w).Reports :=
  Family.part_invariant hs (fun _ x => x.Reports) (fun _ => nofun)
    (fun _ _ _ h hb _ => Wait.reports_next h hb) w

/-- A wait that disagrees with its promise can run to its end and return a
status that is not true. -/
theorem mayLie_of_not_agrees {w : ω}
    (hs : (waits c value).system.Reachable s)
    (h : ¬(s.part w).Agrees (value w)) (hresumable : (s.part w).Resumable) :
    (waits c value).system.MayReach s fun s' => ¬AllTruthful value s' := by
  induction hn : (s.part w).remaining using Nat.strong_induction_on
    generalizing s with
  | _ n ih =>
    by_cases hd : (s.part w).resume = .done
    · refine .of_now fun htruthful => ?_
      obtain ⟨status, hstatus⟩ :=
        Option.ne_none_iff_exists'.mp (reports_reachable hs w hd)
      apply h
      simpa [Wait.Agrees, Wait.promised, hd, hstatus, ResumePc.promised]
        using htruthful w status hstatus
    · obtain ⟨b, hb, hnext, hresumable', hless⟩ :=
        Wait.exists_step_not_agrees (c := c) s.shared h hresumable hd
      have ha : (waits c value).system.Enabled s (.step w b) := hb
      refine .of_next ha ?_
      have hself := Family.part_next_self (waits c value) s w b
      apply ih _ (hn ▸ hless) (.step hs ha trivial)
      · rw [show (waits c value).system.next s (.step w b) =
          (waits c value).next s (.step w b) from rfl, hself]
        exact hnext
      · rw [show (waits c value).system.next s (.step w b) =
          (waits c value).next s (.step w b) from rfl, hself]
        exact hresumable'
      · rw [show (waits c value).system.next s (.step w b) =
          (waits c value).next s (.step w b) from rfl, hself]
        rfl

/-- `send_async_for` returns a true status in the runs in which every `try_send`
that succeeds still has the value and the re-check keeps out of the way of
`resume_impl`, and the first step that does not can be followed by a wait with a
false status. -/
theorem sendAsyncFor_truthful_of_keepsOut_and_mayReach_not (c : Config T)
    (value : ω → T) :
    (∀ s, (waits c value).system.ReachableWhere (KeepsOut value) s →
      AllTruthful value s) ∧
    (∀ s a, (waits c value).system.ReachableWhere (KeepsOut value) s →
      (waits c value).system.Enabled s a → ¬KeepsOut value s a →
        (waits c value).system.MayReach ((waits c value).system.next s a)
          fun s' => ¬AllTruthful value s') := by
  constructor
  · intro s hs w
    exact (kept_reachable hs w).2.truthful
  · intro s a hs ha hkeeps
    cases a with
    | other e => exact absurd trivial hkeeps
    | step w b =>
        obtain ⟨hstarts, hkept⟩ := kept_reachable hs w
        have hself := Family.part_next_self (waits c value) s w b
        apply mayLie_of_not_agrees (w := w) (.step hs.reachable ha trivial)
        · exact hself.symm ▸ Wait.not_agrees_of_not_keepsOut hkept ha hkeeps
        · exact hself.symm ▸ Wait.resumable_of_not_keepsOut hstarts ha hkeeps

end Runs

/-! ## Runs with and without a true status -/

/-- A channel that holds one value. -/
def boundedOne (movedFrom : List ℕ → List ℕ) : Config (List ℕ) where
  policy := .bounded 1
  movedFrom := movedFrom

def seven : Unit → List ℕ :=
  fun _ => [7]

/-- The channel is full when the wait begins. -/
def beforeSend : Family.State Unit (Channel (List ℕ)) (Wait (List ℕ)) where
  shared := ⟨[[1]], false⟩
  part w := .initial (seven w)

/-- `ready_impl` and the re-check find the channel full.  Another thread then
receives, and the wait is resumed and sends. -/
def sendLast (again last : List ℕ) :
    List (Family.Action Unit (ChannelOp (List ℕ)) (Step (List ℕ))) :=
  [.step () .coAwait, .step () .readyOpen, .step () (.trySend false),
    .step () .deadlineAhead, .step () .addTimer, .step () .addNode,
    .step () .reMove, .step () (.reSend again false),
    .step () (.reStore false), .step () .reNotSent,
    .step () (.reClosed false), .other .receive, .step () .fire,
    .step () .resume, .step () .hasNotSent, .step () .seesOpen,
    .step () .lastMove, .step () (.lastSend last true),
    .step () (.lastStore true), .step () .lastTest]

/-- Moving from the value leaves it as it was. -/
theorem allTruthful_sendLast :
    AllTruthful seven ((waits (boundedOne id) seven).system.after beforeSend
      (sendLast [7] [7])) := by
  refine (sendAsyncFor_truthful_of_keepsOut_and_mayReach_not (boundedOne id)
    seven).1 _ ?_
  exact TransitionSystem.Executes.reachableWhere (.init rfl) (by decide)

/-- Moving from the value leaves an empty vector, which is sent. -/
theorem not_forall_allTruthful :
    ¬∀ s, (waits (boundedOne fun _ => []) seven).system.Reachable s →
      AllTruthful seven s := by
  intro h
  have hreach : (waits (boundedOne fun _ => []) seven).system.Reachable
      ((waits (boundedOne fun _ => []) seven).system.after beforeSend
        (sendLast [] [])) :=
    TransitionSystem.Executes.reachable (.init rfl) (by decide)
  exact absurd (h _ hreach () .completed rfl) (by decide)

end SendAwaiter
end Ethreads
