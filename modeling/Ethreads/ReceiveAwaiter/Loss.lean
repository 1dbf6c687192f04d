import Ethreads.ReceiveAwaiter.Delivery

/-!
# Steps that lose a value

A step that brings `suspend_impl` into the way of `resume_impl` can be
continued to a wait that has removed a value without returning it, or more
values than one: it is enough to run `resume_impl` to its end.
-/

namespace Ethreads
namespace ReceiveAwaiter

variable {ω ι α : Type*}

/-- The value that `resume_impl` has received and not stored yet. -/
def ResumePc.temp : ResumePc α → Option α
  | store _ temp => temp
  | _ => none

namespace Wait

/-! ## Where values come from -/

/-- A wait that has removed nothing holds and returns no value. -/
structure Sourced (x : Wait α) : Prop where
  empty : x.removed = [] →
    x.result = none ∧ x.suspend.temp = none ∧ x.resume.temp = none
  returned : x.resume = .done →
    ∃ out, x.returned = some out ∧ (x.removed = [] → out.value = none)

theorem sourced_initial : (initial : Wait α).Sourced where
  empty _ := ⟨rfl, rfl, rfl⟩
  returned := nofun

theorem taken_eq_nil_iff {i : ℕ} {temp : Option α} :
    taken i temp = [] ↔ temp = none := by
  cases temp <;> simp

theorem sourced_next {m : Await ι} {ch : ι → Channel α} {x : Wait α}
    {b : Step ι α} (h : x.Sourced) (hb : x.Enabled m ch b) :
    (x.next m b).Sourced where
  empty hnil := by
    have hx := h.empty
    cases b with
    | readyReceive i c temp =>
        cases temp with
        | none => exact ⟨rfl, rfl, (hx hnil).2.2⟩
        | some v => cases (List.append_eq_nil_iff.mp hnil).2
    | readyTrue i => exact ⟨(hx hnil).1, rfl, rfl⟩
    | recheck i c temp =>
        obtain ⟨hnone, htaken⟩ := List.append_eq_nil_iff.mp hnil
        obtain ⟨hresult, -, hresume⟩ := hx hnone
        exact ⟨hresult, taken_eq_nil_iff.mp htaken, hresume⟩
    | storeRecheck i temp =>
        obtain ⟨-, hsuspend, hresume⟩ := hx hnil
        rw [show x.suspend = .store i temp from hb] at hsuspend
        exact ⟨hsuspend, rfl, hresume⟩
    | receive i c temp =>
        obtain ⟨hnone, htaken⟩ := List.append_eq_nil_iff.mp hnil
        obtain ⟨hresult, hsuspend, -⟩ := hx hnone
        exact ⟨hresult, hsuspend, taken_eq_nil_iff.mp htaken⟩
    | storeReceived i temp =>
        obtain ⟨-, hsuspend, hresume⟩ := hx hnil
        rw [show x.resume = .store i temp from hb] at hresume
        cases m <;> exact ⟨hresume, hsuspend, rfl⟩
    | found i =>
        cases m <;> exact ⟨(hx hnil).1, rfl, (hx hnil).2.2⟩
    | readyFalse i | added i =>
        cases m <;> exact ⟨(hx hnil).1, rfl, (hx hnil).2.2⟩
    | rechecked i closed =>
        cases closed <;> exact ⟨(hx hnil).1, rfl, (hx hnil).2.2⟩
    | hasResult =>
        cases m <;> exact ⟨(hx hnil).1, (hx hnil).2.1, rfl⟩
    | _ =>
        first
        | exact hx hnil
        | exact ⟨(hx hnil).1, rfl, (hx hnil).2.2⟩
        | exact ⟨(hx hnil).1, (hx hnil).2.1, rfl⟩
  returned hd := by
    have hx := h.returned
    cases b with
    | readyReceive i c temp =>
        cases temp with
        | none => exact hx hd
        | some v => cases hd
    | recheck i c temp =>
        obtain ⟨out, hout, hvalue⟩ := hx hd
        exact ⟨out, hout, fun hnil => hvalue (List.append_eq_nil_iff.mp hnil).1⟩
    | receive i c temp => cases hd
    | storeReceived i temp => cases m <;> cases hd
    | found i => cases m <;> exact hx hd
    | hasResult => cases m <;> cases hd
    | moveOut index =>
        refine ⟨_, rfl, fun hnil => ?_⟩
        rw [Await.value_outcome]
        exact (h.empty hnil).1
    | giveUp i closed => exact ⟨_, rfl, fun _ => m.value_emptyOutcome closed⟩
    | readyTrue i => cases hd
    | resume => cases hd
    | hasNoResult => cases hd
    | checkFound index => cases hd
    | checkEmpty index => cases hd
    | _ => exact hx hd

/-! ## Waits that have lost a value -/

theorem not_returnsRemoved_of_two {x : Wait α} {i : ℕ} {v : α}
    {removed : List (ℕ × α)} (hremoved : removed ≠ [])
    (hx : x.removed = removed ++ [(i, v)]) : ¬x.ReturnsRemoved := by
  intro h
  have hlength := h.1
  rw [hx, List.length_append, List.length_singleton] at hlength
  exact hremoved (List.eq_nil_of_length_eq_zero (by omega))

theorem not_returnsRemoved_of_value {x : Wait α} {out : Outcome α}
    (hremoved : x.removed ≠ []) (hout : x.returned = some out)
    (hvalue : out.value = none) : ¬x.ReturnsRemoved :=
  fun h => hremoved ((h.2 out hout).eq_nil_iff.mpr hvalue)

end Wait

/-! ## Running `resume_impl` to its end -/

section Runs

variable [DecidableEq ω] [DecidableEq ι] {await : ω → Await ι}
  {s : State ω ι α} {w : ω}

/-- Some continuation of the run loses a value. -/
def Loses (await : ω → Await ι) (s : State ω ι α) : Prop :=
  ∃ s', (system await).Leads s s' ∧ ¬s'.LosesNoValue await

theorem Loses.of_step {a : Action ω ι α} (ha : Enabled await s a)
    (h : Loses await (next await s a)) : Loses await s := by
  obtain ⟨s', hleads, hloses⟩ := h
  have hstep : (system await).Leads s (next await s a) :=
    .step (.refl s) ha
  exact ⟨s', hstep.trans hleads, hloses⟩

theorem Loses.of_wait (h : ¬(s.wait w).ReturnsRemoved) : Loses await s :=
  ⟨s, .refl s, fun hall => h (hall w).1⟩

theorem loses_of_moveOut {index : Option ℕ}
    (hremoved : (s.wait w).removed ≠ [])
    (hr : (s.wait w).resume = .moveOut index)
    (hresult : (s.wait w).result = none) : Loses await s := by
  refine .of_step (a := .step w (.moveOut index)) hr (.of_wait (w := w) ?_)
  rw [wait_next_step_self]
  have hvalue : ((await w).outcome (index.getD (s.wait w).readyIndex)
      (s.wait w).result).value = none := by
    rw [Await.value_outcome]
    exact hresult
  exact Wait.not_returnsRemoved_of_value
    (x := (s.wait w).next (await w) (.moveOut index)) hremoved rfl hvalue

theorem loses_of_check (index : Option ℕ)
    (hreceive : ∀ s' : State ω ι α, (s'.wait w).removed ≠ [] →
      (s'.wait w).resume = .receive (index.elim 1 (· + 1)) →
        Loses await s')
    (hremoved : (s.wait w).removed ≠ [])
    (hr : (s.wait w).resume = .check index)
    (hresult : (s.wait w).result = none) : Loses await s := by
  refine .of_step (a := .step w (.checkEmpty index)) ⟨hr, hresult⟩ ?_
  apply hreceive
  · rw [wait_next_step_self]
    exact hremoved
  · rw [wait_next_step_self]
    rfl

theorem loses_of_store {i : ℕ}
    (hreceive : ∀ s' : State ω ι α, (s'.wait w).removed ≠ [] →
      (s'.wait w).resume = .receive (i + 1) → Loses await s')
    (hremoved : (s.wait w).removed ≠ [])
    (hr : (s.wait w).resume = .store i none) : Loses await s := by
  refine .of_step (a := .step w (.storeReceived i none)) hr ?_
  have hnext := wait_next_step_self await s w (.storeReceived i none)
  have hkept : ((next await s (.step w (.storeReceived i none))).wait w).removed
      ≠ [] := by
    rw [hnext]
    exact hremoved
  have hnone : ((next await s (.step w (.storeReceived i none))).wait w).result
      = none := by
    rw [hnext]
    rfl
  have hafter : ((next await s (.step w (.storeReceived i none))).wait w).resume
      = (await w).afterStore i := by
    rw [hnext]
    rfl
  cases hm : await w with
  | receive c =>
      rw [hm] at hafter
      exact loses_of_moveOut hkept hafter hnone
  | receiveFor c =>
      rw [hm] at hafter
      exact loses_of_check (some i) hreceive hkept hafter hnone
  | select cs =>
      rw [hm] at hafter
      exact loses_of_check (some i) hreceive hkept hafter hnone

theorem loses_of_receive {i : ℕ} (hremoved : (s.wait w).removed ≠ [])
    (hr : (s.wait w).resume = .receive i) : Loses await s := by
  induction hn : (await w).channels.length - i generalizing s i with
  | zero =>
      have hnone : (await w).channels[i]? = none :=
        List.getElem?_eq_none (by omega)
      refine .of_step (a := .step w (.giveUp i _)) ⟨hr, hnone, rfl⟩
        (.of_wait (w := w) ?_)
      rw [wait_next_step_self]
      exact Wait.not_returnsRemoved_of_value hremoved rfl
        (Await.value_emptyOutcome _ _)
  | succ n ih =>
      have hi : i < (await w).channels.length := by omega
      have hsome := List.getElem?_eq_getElem hi
      refine .of_step (a := .step w (.receive i _ _)) ⟨hr, hsome, rfl⟩ ?_
      cases htemp : (s.channel (await w).channels[i]).buffer.head? with
      | none =>
          refine loses_of_store (w := w) (i := i) ?_ ?_ ?_
          · exact fun s' hs' hr' => ih hs' hr' (by omega)
          · rw [wait_next_step_self]
            simpa [Wait.next] using hremoved
          · rw [wait_next_step_self]
            rfl
      | some v =>
          refine .of_wait (w := w) ?_
          rw [wait_next_step_self]
          exact Wait.not_returnsRemoved_of_two hremoved rfl

/-- A wait that has removed a value, and holds none once `resume_impl` has
tested `result_`, loses the value when `resume_impl` runs to its end. -/
theorem loses_of_lost (hremoved : (s.wait w).removed ≠ [])
    (hearly : (s.wait w).resume.isEarly = false)
    (hresult : (s.wait w).result = none)
    (htemp : (s.wait w).resume.temp = none)
    (hreturned : (s.wait w).resume = .done →
      ∃ out, (s.wait w).returned = some out ∧ out.value = none) :
    Loses await s := by
  cases hr : (s.wait w).resume with
  | waiting | begin => simp [ResumePc.isEarly, hr] at hearly
  | receive i => exact loses_of_receive hremoved hr
  | store i temp =>
      have hnone : temp = none := by simpa [ResumePc.temp, hr] using htemp
      rw [hnone] at hr
      exact loses_of_store (fun _ => loses_of_receive) hremoved hr
  | check index =>
      exact loses_of_check index (fun _ => loses_of_receive) hremoved hr hresult
  | moveOut index => exact loses_of_moveOut hremoved hr hresult
  | done =>
      obtain ⟨out, hout, hvalue⟩ := hreturned hr
      exact .of_wait (Wait.not_returnsRemoved_of_value hremoved hout hvalue)

theorem sourced_reachable (hs : (system await).Reachable s) (w : ω) :
    (s.wait w).Sourced :=
  wait_invariant hs Wait.Sourced Wait.sourced_initial
    (fun _ _ _ h hb _ => Wait.sourced_next h hb) w

/-! ## Steps that get in the way -/

/-- The re-check takes a value that `resume_impl` does not see any more. -/
theorem loses_of_recheck {i : ℕ} {c : ι} {temp : Option α}
    (hsourced : (s.wait w).Sourced) (htemp : temp ≠ none)
    (hearly : (s.wait w).resume.isEarly = false) :
    Loses await (next await s (.step w (.recheck i c temp))) := by
  have hnext := wait_next_step_self await s w (.recheck i c temp)
  obtain ⟨v, rfl⟩ := Option.ne_none_iff_exists'.mp htemp
  by_cases hremoved : (s.wait w).removed = []
  · obtain ⟨hresult, -, hrtemp⟩ := hsourced.empty hremoved
    apply loses_of_lost (w := w)
    · rw [hnext]
      simp [Wait.next]
    · rw [hnext]
      exact hearly
    · rw [hnext]
      exact hresult
    · rw [hnext]
      exact hrtemp
    · rw [hnext]
      intro hd
      obtain ⟨out, hout, hvalue⟩ := hsourced.returned hd
      exact ⟨out, hout, hvalue hremoved⟩
  · refine .of_wait (w := w) ?_
    rw [hnext]
    exact Wait.not_returnsRemoved_of_two hremoved rfl

/-- `resume_impl` finds `result_` empty while the re-check holds a value. -/
theorem loses_of_hasNoResult (hsourced : (s.wait w).Sourced)
    (htemp : (s.wait w).suspend.temp ≠ none) :
    Loses await (next await s (.step w .hasNoResult)) := by
  have hnext := wait_next_step_self await s w .hasNoResult
  apply loses_of_receive (w := w) (i := 0)
  · rw [hnext]
    exact fun hnil => htemp (hsourced.empty hnil).2.1
  · rw [hnext]
    rfl

/-- The re-check clears `result_` while `resume_impl` is about to return
it. -/
theorem loses_of_storeRecheck {i : ℕ} (hsourced : (s.wait w).Sourced)
    (hreads : (s.wait w).resume.readsResult = true)
    (hresult : (s.wait w).result ≠ none) :
    Loses await (next await s (.step w (.storeRecheck i none))) := by
  have hnext := wait_next_step_self await s w (.storeRecheck i none)
  apply loses_of_lost (w := w)
  · rw [hnext]
    exact fun hnil => hresult (hsourced.empty hnil).1
  · rw [hnext]
    cases hr : (s.wait w).resume <;>
      simp_all [ResumePc.readsResult, ResumePc.isEarly, Wait.next]
  · rw [hnext]
    rfl
  · rw [hnext]
    cases hr : (s.wait w).resume <;>
      simp_all [ResumePc.readsResult, ResumePc.temp, Wait.next]
  · rw [hnext]
    intro hd
    have hdone : (s.wait w).resume = .done := hd
    simp [ResumePc.readsResult, hdone] at hreads

/-- `select` returns a value of the re-check with an index that is not its
own. -/
theorem loses_of_moveOut_select {cs : List ι} {i : ℕ}
    (hearly : (s.wait w).Early) (hm : await w = .select cs)
    (hr : (s.wait w).resume = .moveOut none)
    (hpending : (s.wait w).suspend.pending = some i)
    (hindex : (s.wait w).readyIndex ≠ i) :
    Loses await (next await s (.step w (.moveOut none))) := by
  have hresult := hearly.found (.inr hr)
  obtain ⟨v, hv⟩ := Option.ne_none_iff_exists'.mp hresult
  have hholds := (hearly.holds (by simp [Wait.Untaken, hr])).2
  have hremoved : (s.wait w).removed = [(i, v)] := by
    rw [hholds.removed]
    cases hs : (s.wait w).suspend <;>
      simp_all [SuspendPc.pending, Wait.held]
  refine .of_wait (w := w) ?_
  rw [wait_next_step_self, hm]
  intro h
  have hreturns := h.2 _ rfl
  have heq : (s.wait w).removed = [((s.wait w).readyIndex, v)] := by
    simpa [Await.outcome, Outcome.Returns, Wait.next, hv] using hreturns
  rw [hremoved] at heq
  simp_all

/-- A step that gets in the way of `resume_impl` can be continued to the loss
of a value. -/
theorem loses_of_not_keepsOut {a : Action ω ι α}
    (hs : (system await).Reachable s) (ha : Enabled await s a)
    (hkeeps : ¬KeepsOut await s a) : Loses await (next await s a) := by
  cases a with
  | send c v | receive c | close c => exact absurd trivial hkeeps
  | step w b =>
      have hsourced := sourced_reachable hs w
      cases b with
      | recheck i c temp =>
          obtain ⟨htemp, hearly⟩ := Classical.not_imp.mp hkeeps
          exact loses_of_recheck hsourced htemp (by simpa using hearly)
      | hasNoResult => exact loses_of_hasNoResult hsourced hkeeps
      | storeRecheck i temp =>
          obtain ⟨htemp, hrest⟩ := Classical.not_imp.mp hkeeps
          obtain ⟨hreads, hresult⟩ := Classical.not_imp.mp hrest
          rw [htemp]
          exact loses_of_storeRecheck hsourced hreads hresult
      | moveOut index =>
          cases index with
          | some i => exact absurd trivial hkeeps
          | none =>
              cases hm : await w with
              | receive c | receiveFor c =>
                  simp [KeepsOut, Wait.KeepsOut, hm] at hkeeps
              | select cs =>
                  simp only [KeepsOut, Wait.KeepsOut, hm, not_forall]
                    at hkeeps
                  obtain ⟨i, hpending, hindex⟩ := hkeeps
                  exact loses_of_moveOut_select (early_reachable hs w).2 hm ha
                    hpending hindex
      | _ => exact absurd trivial hkeeps

/-- The receive-side awaiters lose no value in the runs that keep the re-check
of `suspend_impl` out of the way of `resume_impl`, and every step that does not
can be followed by a loss. -/
theorem losesNoValue_of_keepsOut_and_leads_not (await : ω → Await ι) :
    (∀ s : State ω ι α, (system await).ReachableWhere (KeepsOut await) s →
      s.LosesNoValue await) ∧
    (∀ (s : State ω ι α) a, (system await).Reachable s →
      (system await).Enabled s a → ¬KeepsOut await s a →
        ∃ s', (system await).Leads ((system await).next s a) s' ∧
          ¬s'.LosesNoValue await) := by
  constructor
  · intro s hs
    exact losesNoValue_of_keepsOut hs
  · intro s a hs ha hkeeps
    exact loses_of_not_keepsOut hs ha hkeeps

end Runs

/-! ## Runs with and without a loss -/

/-- A wait on each kind of awaiter, over two channels. -/
def oneOfEach : Fin 3 → Await (Fin 2)
  | 0 => .receive 0
  | 1 => .receiveFor 1
  | 2 => .select [0, 1]

/-- The timer resumes the timed wait while its node is being registered; it
receives a value that was sent in the meantime. -/
def timedRun : List (Action (Fin 3) (Fin 2) ℕ) :=
  [.step 1 .coAwait, .step 1 (.readyReceive 0 1 none), .step 1 (.readyFalse 1),
    .step 1 .addTimer, .step 1 .fire, .step 1 .resume, .step 1 .hasNoResult,
    .send 1 7, .step 1 (.receive 0 1 (some 7)),
    .step 1 (.storeReceived 0 (some 7)), .step 1 (.checkFound (some 0)),
    .step 1 (.moveOut (some 0)), .step 1 (.addNode 0 1), .step 1 (.added 1),
    .step 1 (.recheck 0 1 none), .step 1 (.storeRecheck 0 none)]

/-- The re-check of `select` finds a value in the second channel after the
wait was resumed, and stores it before it is looked for. -/
def selectRun : List (Action (Fin 3) (Fin 2) ℕ) :=
  [.step 2 .coAwait, .step 2 (.readyReceive 0 0 none),
    .step 2 (.readyReceive 1 1 none), .step 2 (.readyFalse 2),
    .step 2 (.addNode 0 0), .step 2 (.addNode 1 1), .step 2 (.added 2),
    .send 1 5, .step 2 .fire, .step 2 (.recheck 0 0 none),
    .step 2 (.storeRecheck 0 none), .step 2 (.notFound 0), .step 2 .resume,
    .step 2 (.recheck 1 1 (some 5)), .step 2 (.storeRecheck 1 (some 5)),
    .step 2 .hasResult, .step 2 (.found 1), .step 2 (.storeIndex 1),
    .step 2 (.moveOut none), .step 2 .exchange]

def emptyChannels : Fin 2 → Channel ℕ :=
  fun _ => ⟨[], false⟩

/-- The waits and channels before the first step. -/
def beforeRun : State (Fin 3) (Fin 2) ℕ where
  channel := emptyChannels
  wait := fun _ => .initial

theorem losesNoValue_timed_select :
    State.LosesNoValue oneOfEach
      ((system oneOfEach).after beforeRun timedRun) ∧
    State.LosesNoValue oneOfEach
      ((system oneOfEach).after beforeRun selectRun) := by
  have h : ∀ s : State (Fin 3) (Fin 2) ℕ,
      (system oneOfEach).ReachableWhere (KeepsOut oneOfEach) s →
        s.LosesNoValue oneOfEach :=
    (losesNoValue_of_keepsOut_and_leads_not oneOfEach).1
  constructor
  · exact h _ (TransitionSystem.Executes.reachableWhere (.init ⟨_, rfl⟩)
      (by decide))
  · exact h _ (TransitionSystem.Executes.reachableWhere (.init ⟨_, rfl⟩)
      (by decide))

/-- The timed wait has returned 1 when its re-check takes 2 from the
channel. -/
def lateRecheck : List (Action (Fin 3) (Fin 2) ℕ) :=
  [.step 1 .coAwait, .step 1 (.readyReceive 0 1 none), .step 1 (.readyFalse 1),
    .step 1 .addTimer, .step 1 (.addNode 0 1), .step 1 (.added 1), .send 1 1,
    .step 1 .fire, .step 1 .resume, .step 1 .hasNoResult,
    .step 1 (.receive 0 1 (some 1)), .step 1 (.storeReceived 0 (some 1)),
    .step 1 (.checkFound (some 0)), .step 1 (.moveOut (some 0)), .send 1 2,
    .step 1 (.recheck 0 1 (some 2))]

theorem not_forall_losesNoValue :
    ¬∀ s : State (Fin 3) (Fin 2) ℕ, (system oneOfEach).Reachable s →
      s.LosesNoValue oneOfEach := by
  intro h
  have hreachable : (system oneOfEach).Reachable
      ((system oneOfEach).after beforeRun lateRecheck) :=
    TransitionSystem.Executes.reachable (.init ⟨_, rfl⟩) (by decide)
  have hlength := (h _ hreachable 1).1.1
  exact absurd hlength (by decide)

end ReceiveAwaiter
end Ethreads
