import Ethreads.TimedAttempt.Model

/-!
# What a timed attempt returns

Up to three attempts of a wait may succeed, but what it returns depends on the
last one only.  Hence a wait tells the truth as long as `resume_impl` makes the
only successful attempt; once `ready_impl` or the re-check has taken, the wait
can be continued to its end so that it takes a second time, or returns false.
-/

namespace Ethreads
namespace TimedAttempt

variable {ω σ ε : Type*} {P : Primitive σ ε}

/-- The confirmation fails right after an attempt. -/
structure Primitive.ConfirmsNothing (P : Primitive σ ε) : Prop where
  failed : ∀ s f, P.confirm = some f → P.attempt s = none → f s = false
  taken : ∀ s s' f, P.confirm = some f → P.attempt s = some s' → f s' = false

theorem semaphore_confirmsNothing : semaphore.ConfirmsNothing where
  failed := nofun
  taken := nofun

theorem event_confirmsNothing : (event true).ConfirmsNothing where
  failed s f hf hs := by
    cases hf
    cases s
    · rfl
    · cases hs
  taken s s' f hf hs := by
    cases hf
    cases s
    · cases hs
    · cases hs
      rfl

namespace Wait

/-! ## Only the last attempt takes -/

/-- Until `resume_impl` has returned nothing was taken, and it returns what it
has taken. -/
structure TakesLast (x : Wait) : Prop where
  before : x.resume ≠ .done → x.taken = 0 ∧ x.returned = none
  returned : x.resume = .done →
    ∃ r, x.returned = some r ∧ x.taken = r.toNat

theorem takesLast_initial : initial.TakesLast where
  before _ := ⟨rfl, rfl⟩
  returned := nofun

theorem TakesLast.truthful {x : Wait} (h : x.TakesLast) : x.Truthful := by
  intro r hr
  by_cases hd : x.resume = .done
  · obtain ⟨r', hr', htaken⟩ := h.returned hd
    rw [hr] at hr'
    cases hr'
    exact htaken
  · rw [(h.before hd).2] at hr
    cases hr

theorem TakesLast.of_frame {x y : Wait} (h : x.TakesLast)
    (hdone : y.resume = .done ↔ x.resume = .done)
    (htaken : y.taken = x.taken) (hreturned : y.returned = x.returned) :
    y.TakesLast where
  before hd := by
    rw [htaken, hreturned]
    exact h.before (mt hdone.mpr hd)
  returned hd := by
    rw [htaken, hreturned]
    exact h.returned (hdone.mp hd)

theorem TakesLast.of_return {x : Wait} (r : Bool)
    (hdone : x.resume = .done) (hreturned : x.returned = some r)
    (htaken : x.taken = r.toNat) : x.TakesLast where
  before hd := absurd hdone hd
  returned _ := ⟨r, hreturned, htaken⟩

/-- Until the timer is registered nobody can resume the wait. -/
structure Unregistered (x : Wait) : Prop where
  waiting : x.resume = .waiting
  registered : x.registered = false
  gate : x.gate = false

/-- The steps up to the registration of the timer are those of a private
awaiter. -/
def StartsPrivate (x : Wait) : Prop :=
  x.suspend = .idle ∨ x.suspend = .ready ∨ x.suspend = .deadline ∨
    x.suspend = .addTimer → x.Unregistered

theorem startsPrivate_initial : initial.StartsPrivate :=
  fun _ => ⟨rfl, rfl, rfl⟩

theorem startsPrivate_next {s : σ} {x : Wait} {b : Step}
    (h : x.StartsPrivate) (hb : x.Enabled P s b) :
    (x.next P b).StartsPrivate := by
  intro hp
  cases b with
  | coAwait =>
      have hx := h (.inl hb)
      exact ⟨hx.waiting, hx.registered, hx.gate⟩
  | ready ok =>
      have hx := h (.inr (.inl hb.1))
      cases ok with
      | true => simp [next] at hp
      | false => exact ⟨hx.waiting, hx.registered, hx.gate⟩
  | deadlineAhead =>
      have hx := h (.inr (.inr (.inl hb)))
      exact ⟨hx.waiting, hx.registered, rfl⟩
  | fire =>
      have hx := (h hp).registered
      rw [hb.1] at hx
      cases hx
  | resume =>
      have hx := (h hp).gate
      rw [hb.2] at hx
      cases hx
  | retry ok =>
      have hpriv : x.Unregistered := by
        apply h
        cases ok with
        | true => exact hp
        | false =>
            simp only [next] at hp
            split at hp <;> exact hp
      have hx := hpriv.waiting
      rw [hb.1] at hx
      cases hx
  | confirm r =>
      have hx := (h hp).waiting
      rw [hb.1] at hx
      cases hx
  | recheck ok => cases ok <;> simp [next] at hp
  | deadlinePassed | addTimer | addNode | exchange => simp [next] at hp

theorem takesLast_next {s : σ} {x : Wait} {b : Step}
    (hpriv : x.StartsPrivate) (h : x.TakesLast) (hb : x.Enabled P s b)
    (honly : b.OnlyRetryTakes) : (x.next P b).TakesLast := by
  cases b with
  | ready ok =>
      obtain rfl : ok = false := honly
      exact h.of_frame Iff.rfl rfl rfl
  | recheck ok =>
      obtain rfl : ok = false := honly
      exact h.of_frame Iff.rfl rfl rfl
  | deadlinePassed =>
      have hx := (hpriv (.inr (.inr (.inl hb)))).waiting
      exact h.of_frame (by simp [next, hx]) rfl rfl
  | resume => exact h.of_frame (by simp [next, hb.1]) rfl rfl
  | retry ok =>
      have hbefore := h.before (by simp [hb.1])
      cases ok with
      | true =>
          refine .of_return true rfl rfl ?_
          simp [next, hbefore.1]
      | false =>
          simp only [next]
          split
          · exact h.of_frame (by simp [hb.1]) rfl rfl
          · exact .of_return false rfl rfl hbefore.1
  | confirm r =>
      obtain rfl : r = false := honly
      exact .of_return false rfl rfl (h.before (by simp [hb.1])).1
  | coAwait | deadlineAhead | addTimer | addNode | exchange | fire =>
      exact h.of_frame Iff.rfl rfl rfl

/-- Only the event awaiter gets to the confirmation. -/
def Confirms (P : Primitive σ ε) (x : Wait) : Prop :=
  x.resume = .confirm → P.confirm.isSome = true

theorem confirms_next {s : σ} {x : Wait} {b : Step} (h : x.Confirms P)
    (hb : x.Enabled P s b) : (x.next P b).Confirms P := by
  intro hc
  cases b with
  | retry ok =>
      cases ok with
      | true => cases hc
      | false =>
          by_cases hsome : P.confirm.isSome = true
          · exact hsome
          · simp [next, hsome] at hc
  | ready ok => cases ok <;> simp_all [next, Confirms]
  | recheck ok => cases ok <;> exact h hc
  | deadlinePassed | resume | confirm r => cases hc
  | coAwait | deadlineAhead | addTimer | addNode | exchange | fire => exact h hc

end Wait

/-! ## Runs -/

section Runs

variable [DecidableEq ω]

/-- The primitive and the waits for it. -/
abbrev State (ω σ : Type*) := Family.State ω σ Wait

/-- Every wait returns what it has taken. -/
def AllTruthful (s : State ω σ) : Prop :=
  ∀ w, (s.part w).Truthful

/-- The step keeps `ready_impl`, the re-check and the confirmation from
taking. -/
def OnlyRetryTakes (s : State ω σ) : Family.Action ω ε Step → Prop :=
  Family.Where (fun _ _ _ b => b.OnlyRetryTakes) s

instance (s : State ω σ) (a : Family.Action ω ε Step) :
    Decidable (OnlyRetryTakes s a) :=
  inferInstanceAs (Decidable (Family.Where _ s a))

variable {s : State ω σ} {w : ω}

theorem takesLast_reachable
    (hs : (P.waits ω).system.ReachableWhere OnlyRetryTakes s) (w : ω) :
    (s.part w).TakesLast := by
  have h := Family.part_invariant hs
    (fun _ x => x.StartsPrivate ∧ x.TakesLast)
    (fun _ => ⟨Wait.startsPrivate_initial, Wait.takesLast_initial⟩)
    (fun _ _ _ h hb honly =>
      ⟨Wait.startsPrivate_next h.1 hb, Wait.takesLast_next h.1 h.2 hb honly⟩)
    w
  exact h.2

theorem truthful_of_onlyRetryTakes
    (hs : (P.waits ω).system.ReachableWhere OnlyRetryTakes s) :
    AllTruthful s :=
  fun w => (takesLast_reachable hs w).truthful

/-! ## Running `resume_impl` to its end -/

/-- Some continuation of the run has a wait that returns something else than
it has taken. -/
def MayLie (P : Primitive σ ε) (s : State ω σ) : Prop :=
  (P.waits ω).system.MayReach s fun s' => ¬AllTruthful s'

theorem mayLie_of_returned {r : Bool} (hr : (s.part w).returned = some r)
    (htaken : (s.part w).taken ≠ r.toNat) : MayLie P s :=
  .of_now fun h => htaken (h w r hr)

theorem mayLie_of_step {b : Step} (hb : (s.part w).Enabled P s.shared b)
    (h : MayLie P ((P.waits ω).next s (.step w b))) : MayLie P s :=
  TransitionSystem.MayReach.of_next (M := (P.waits ω).system)
    (a := .step w b) hb h

/-- `resume_impl` calls `is_set` right after an attempt, and returns false. -/
theorem mayLie_of_confirm {f : σ → Bool} (hf : P.confirm = some f)
    (hfalse : f s.shared = false) (hr : (s.part w).resume = .confirm)
    (htaken : (s.part w).taken ≠ 0) : MayLie P s := by
  have hb : (s.part w).Enabled P s.shared (.confirm false) := by
    refine ⟨hr, ?_⟩
    rw [hf, Option.map_some, hfalse]
  apply mayLie_of_step hb
  apply mayLie_of_returned (w := w) (r := false)
  · rw [Family.part_next_self]
    rfl
  · rw [Family.part_next_self]
    exact htaken

/-- A wait that has taken before `resume_impl` makes its attempt. -/
theorem mayLie_of_begin (hP : P.ConfirmsNothing)
    (hr : (s.part w).resume = .begin) (htaken : (s.part w).taken ≠ 0) :
    MayLie P s := by
  have hb : (s.part w).Enabled P s.shared
      (.retry (P.attempt s.shared).isSome) := ⟨hr, rfl⟩
  apply mayLie_of_step hb
  cases hs : P.attempt s.shared with
  | some x =>
      apply mayLie_of_returned (w := w) (r := true)
      · rw [Family.part_next_self]
        rfl
      · rw [Family.part_next_self]
        intro htwice
        apply htaken
        exact Nat.succ.inj htwice
  | none =>
      cases hf : P.confirm with
      | none =>
          apply mayLie_of_returned (w := w) (r := false)
          · rw [Family.part_next_self]
            simp [Primitive.waits, Wait.next, hf]
          · rw [Family.part_next_self]
            simpa [Primitive.waits, Wait.next, hf] using htaken
      | some f =>
          apply mayLie_of_confirm (w := w) hf
          · rw [Family.shared_next_step]
            simpa [Primitive.waits, Step.sharedAfter, hs]
              using hP.failed s.shared f hf hs
          · rw [Family.part_next_self]
            simp [Primitive.waits, Wait.next, hf]
          · rw [Family.part_next_self]
            simpa [Primitive.waits, Wait.next, hf] using htaken

/-- A wait that has taken in its re-check while `resume_impl` was not
running. -/
theorem mayLie_of_exchange (hP : P.ConfirmsNothing)
    (hs : (s.part w).suspend = .exchange)
    (hr : (s.part w).resume = .waiting) (htaken : (s.part w).taken ≠ 0) :
    MayLie P s := by
  have hexchange : (s.part w).Enabled P s.shared .exchange := hs
  apply mayLie_of_step hexchange
  have hresume : (((P.waits ω).next s (.step w .exchange)).part w).Enabled P
      ((P.waits ω).next s (.step w .exchange)).shared .resume := by
    rw [Family.part_next_self]
    exact ⟨hr, rfl⟩
  apply mayLie_of_step hresume
  apply mayLie_of_begin (w := w) hP
  · rw [Family.part_next_self]
    rfl
  · rw [Family.part_next_self, Family.part_next_self]
    exact htaken

/-- The re-check takes. -/
theorem mayLie_of_recheck (hP : P.ConfirmsNothing)
    (htakes : (s.part w).TakesLast) (hconfirms : (s.part w).Confirms P)
    (hb : (s.part w).Enabled P s.shared (.recheck true)) :
    MayLie P ((P.waits ω).next s (.step w (.recheck true))) := by
  have hnext := Family.part_next_self (P.waits ω) s w (.recheck true)
  have htaken : (((P.waits ω).next s (.step w (.recheck true))).part w).taken
      ≠ 0 := by
    rw [hnext]
    exact Nat.succ_ne_zero _
  have hresume : (((P.waits ω).next s (.step w (.recheck true))).part w).resume
      = (s.part w).resume := by
    rw [hnext]
    rfl
  cases hr : (s.part w).resume with
  | waiting =>
      apply mayLie_of_exchange (w := w) hP
      · rw [hnext]
        rfl
      · rw [hresume, hr]
      · exact htaken
  | begin => exact mayLie_of_begin hP (hresume.trans hr) htaken
  | confirm =>
      obtain ⟨x, hx⟩ := Option.isSome_iff_exists.mp hb.2.symm
      obtain ⟨f, hf⟩ := Option.isSome_iff_exists.mp (hconfirms hr)
      apply mayLie_of_confirm (w := w) hf
      · rw [Family.shared_next_step]
        simpa [Primitive.waits, Step.sharedAfter, hx]
          using hP.taken s.shared x f hf hx
      · exact hresume.trans hr
      · exact htaken
  | done =>
      obtain ⟨r, hreturned, hrtaken⟩ := htakes.returned hr
      apply mayLie_of_returned (w := w) (r := r)
      · rw [hnext]
        exact hreturned
      · rw [hnext]
        show (s.part w).taken + 1 ≠ r.toNat
        omega

theorem confirms_reachable (hs : (P.waits ω).system.Reachable s) (w : ω) :
    (s.part w).Confirms P :=
  Family.part_invariant hs (fun _ x => x.Confirms P) (fun _ => nofun)
    (fun _ _ _ h hb _ => Wait.confirms_next h hb) w

/-- The first step with which somebody but the last attempt takes can be
continued to a wait that returns something else than it has taken. -/
theorem mayLie_of_not_onlyRetryTakes (hP : P.ConfirmsNothing)
    {a : Family.Action ω ε Step}
    (hs : (P.waits ω).system.ReachableWhere OnlyRetryTakes s)
    (ha : (P.waits ω).Enabled s a) (honly : ¬OnlyRetryTakes s a) :
    MayLie P ((P.waits ω).next s a) := by
  cases a with
  | other e => exact absurd trivial honly
  | step w b =>
      have htakes := takesLast_reachable hs w
      cases b with
      | ready ok =>
          obtain rfl : ok = true := eq_true_of_ne_false honly
          apply mayLie_of_begin (w := w) hP
          · rw [Family.part_next_self]
            rfl
          · rw [Family.part_next_self]
            exact Nat.succ_ne_zero _
      | recheck ok =>
          obtain rfl : ok = true := eq_true_of_ne_false honly
          exact mayLie_of_recheck hP htakes
            (confirms_reachable hs.reachable w) ha
      | confirm r =>
          obtain rfl : r = true := eq_true_of_ne_false honly
          have hr : (s.part w).resume = .confirm := ha.1
          apply mayLie_of_returned (w := w) (r := true)
          · rw [Family.part_next_self]
            rfl
          · rw [Family.part_next_self]
            show (s.part w).taken ≠ 1
            rw [(htakes.before (by simp [hr])).1]
            exact Nat.zero_ne_one
      | _ => exact absurd trivial honly

/-- The waits tell the truth in the runs in which `resume_impl` makes the only
attempt that succeeds, and after the first other one a wait may not. -/
theorem truthful_of_onlyRetryTakes_and_mayReach_not (hP : P.ConfirmsNothing) :
    (∀ s : State ω σ,
      (P.waits ω).system.ReachableWhere OnlyRetryTakes s → AllTruthful s) ∧
    (∀ (s : State ω σ) a,
      (P.waits ω).system.ReachableWhere OnlyRetryTakes s →
        (P.waits ω).system.Enabled s a → ¬OnlyRetryTakes s a →
          (P.waits ω).system.MayReach ((P.waits ω).system.next s a)
            fun s' => ¬AllTruthful s') := by
  constructor
  · intro s hs
    exact truthful_of_onlyRetryTakes hs
  · intro s a hs ha honly
    exact mayLie_of_not_onlyRetryTakes hP hs ha honly

/-! ## The two awaiters -/

/-- `acquire_async_for` takes a permit exactly when it says so in the runs in
which neither `ready_impl` nor the re-check takes one; after the first such
step it may not. -/
theorem acquireAsyncFor_truthful_of_onlyRetryTakes (ω : Type*) [DecidableEq ω] :
    (∀ s : State ω ℤ,
      (semaphore.waits ω).system.ReachableWhere OnlyRetryTakes s →
        AllTruthful s) ∧
    (∀ (s : State ω ℤ) a,
      (semaphore.waits ω).system.ReachableWhere OnlyRetryTakes s →
        (semaphore.waits ω).system.Enabled s a → ¬OnlyRetryTakes s a →
          (semaphore.waits ω).system.MayReach
            ((semaphore.waits ω).system.next s a)
            fun s' => ¬AllTruthful s') :=
  truthful_of_onlyRetryTakes_and_mayReach_not semaphore_confirmsNothing

/-- `wait_async_for` of an auto-reset event consumes a signal exactly when it
reports one in the runs in which neither `ready_impl` nor the re-check consumes
one and `is_set` finds none; after the first step that does, it may not. -/
theorem waitAsyncFor_truthful_of_onlyRetryTakes (ω : Type*) [DecidableEq ω] :
    (∀ s : State ω Bool,
      ((event true).waits ω).system.ReachableWhere OnlyRetryTakes s →
        AllTruthful s) ∧
    (∀ (s : State ω Bool) a,
      ((event true).waits ω).system.ReachableWhere OnlyRetryTakes s →
        ((event true).waits ω).system.Enabled s a → ¬OnlyRetryTakes s a →
          ((event true).waits ω).system.MayReach
            (((event true).waits ω).system.next s a)
            fun s' => ¬AllTruthful s') :=
  truthful_of_onlyRetryTakes_and_mayReach_not event_confirmsNothing

end Runs

/-! ## Runs with and without a lie -/

/-- One wait and nothing to take. -/
def beforeWait (x : σ) : State Unit σ where
  shared := x
  part := fun _ => .initial

/-- The wait is suspended with nothing to take, and ended by its timer after
others have done `e`. -/
def takesInTime (e : ε) : List (Family.Action Unit ε Step) :=
  [.step () .coAwait, .step () (.ready false), .step () .deadlineAhead,
    .step () .addTimer, .step () .addNode, .step () (.recheck false), .other e,
    .step () .fire, .step () .resume, .step () (.retry true)]

theorem acquireAsyncFor_truthful_release :
    AllTruthful ((semaphore.waits Unit).system.after (beforeWait 0)
      (takesInTime (.release 1))) := by
  refine (acquireAsyncFor_truthful_of_onlyRetryTakes Unit).1 _ ?_
  exact TransitionSystem.Executes.reachableWhere (.init rfl) (by decide)

theorem waitAsyncFor_truthful_set :
    AllTruthful (((event true).waits Unit).system.after (beforeWait false)
      (takesInTime .set)) := by
  refine (waitAsyncFor_truthful_of_onlyRetryTakes Unit).1 _ ?_
  exact TransitionSystem.Executes.reachableWhere (.init rfl) (by decide)

/-- `ready_impl` succeeds, and `resume_impl` makes an attempt of its own. -/
def readyAtOnce (again : Bool) : List (Family.Action Unit ε Step) :=
  [.step () .coAwait, .step () (.ready true), .step () (.retry again)]

/-- With two permits the wait takes both of them. -/
theorem not_forall_acquireAsyncFor_truthful :
    ¬∀ s : State Unit ℤ, (semaphore.waits Unit).system.Reachable s →
      AllTruthful s := by
  intro h
  have hreach : (semaphore.waits Unit).system.Reachable
      ((semaphore.waits Unit).system.after (beforeWait 2)
        (readyAtOnce true)) :=
    TransitionSystem.Executes.reachable (.init rfl) (by decide)
  exact absurd (h _ hreach () true rfl) (by decide)

/-- The wait consumes the only signal and returns false. -/
theorem not_forall_waitAsyncFor_truthful :
    ¬∀ s : State Unit Bool, ((event true).waits Unit).system.Reachable s →
      AllTruthful s := by
  intro h
  have hreach : ((event true).waits Unit).system.Reachable
      (((event true).waits Unit).system.after (beforeWait true)
        (readyAtOnce false ++ [.step () (.confirm false)])) :=
    TransitionSystem.Executes.reachable (.init rfl) (by decide)
  exact absurd (h _ hreach () false rfl) (by decide)

end TimedAttempt
end Ethreads
