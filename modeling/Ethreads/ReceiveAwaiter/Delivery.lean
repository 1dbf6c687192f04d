import Ethreads.ReceiveAwaiter.Model

/-!
# Values lost by receive-side awaiters

A value is lost when the re-check of `suspend_impl` and `resume_impl` get in
each other's way.  The awaiters lose nothing in the runs whose every step keeps
them apart, and any step that does not can be continued to a loss.
-/

namespace Ethreads
namespace ReceiveAwaiter

variable {ω ι α : Type*}

@[simp] theorem taken_none (i : ℕ) :
    taken i (none : Option α) = [] := rfl

@[simp] theorem taken_some (i : ℕ) (v : α) : taken i (some v) = [(i, v)] := rfl

theorem map_snd_taken (i : ℕ) (temp : Option α) :
    (taken i temp).map Prod.snd = temp.toList := by
  cases temp <;> rfl

theorem length_taken_le (i : ℕ) (temp : Option α) :
    (taken i temp).length ≤ 1 := by
  cases temp <;> simp

/-! ## Outcomes -/

/-- The value of an outcome. -/
def Outcome.value : Outcome α → Option α
  | received value => value
  | timedReceived _ value => value
  | selected _ value => value
  | noChannelHasData => none

theorem Outcome.Returns.map_snd {out : Outcome α} {removed : List (ℕ × α)}
    (h : out.Returns removed) : removed.map Prod.snd = out.value.toList := by
  cases out with
  | received value => exact h
  | timedReceived status value => exact h
  | selected i value =>
      rw [show removed = taken i value from h]
      exact map_snd_taken i value
  | noChannelHasData =>
      rw [show removed = [] from h]
      rfl

theorem Outcome.Returns.eq_nil_iff {out : Outcome α} {removed : List (ℕ × α)}
    (h : out.Returns removed) : removed = [] ↔ out.value = none := by
  rw [← List.map_eq_nil_iff (f := Prod.snd), h.map_snd]
  cases out.value <;> simp

theorem Outcome.Returns.length_le {out : Outcome α} {removed : List (ℕ × α)}
    (h : out.Returns removed) : removed.length ≤ 1 := by
  have hlength := congrArg List.length h.map_snd
  rw [List.length_map] at hlength
  rw [hlength]
  cases out.value <;> simp

@[simp] theorem Await.value_outcome (m : Await ι) (i : ℕ)
    (result : Option α) : (m.outcome i result).value = result := by
  cases m <;> rfl

@[simp] theorem Await.value_emptyOutcome (m : Await ι) (closed : Bool) :
    (m.emptyOutcome closed : Outcome α).value = none := by
  cases m <;> rfl

theorem Await.outcome_returns (m : Await ι) (i : ℕ) (result : Option α) :
    (m.outcome i result).Returns (taken i result) := by
  cases m with
  | receive c => exact map_snd_taken i result
  | receiveFor c => exact map_snd_taken i result
  | select cs => rfl

theorem Await.emptyOutcome_returns (m : Await ι) (closed : Bool) :
    (m.emptyOutcome closed : Outcome α).Returns [] := by
  cases m <;> rfl

namespace Wait

/-! ## Before the registration -/

/-- `suspend_impl` has not been called. -/
def IsReady (x : Wait α) : Prop :=
  match x.suspend with
  | .idle => True
  | .ready _ => True
  | _ => False

/-- Before `suspend_impl` nobody can schedule the wait. -/
def Unregistered (x : Wait α) : Prop :=
  x.IsReady →
    x.registered = false ∧ x.scheduled = false ∧ x.resume = .waiting

theorem unregistered_initial : (initial : Wait α).Unregistered :=
  fun _ => ⟨rfl, rfl, rfl⟩

theorem unregistered_next {m : Await ι} {ch : ι → Channel α} {x : Wait α}
    {b : Step ι α} (h : x.Unregistered) (hb : x.Enabled m ch b) :
    (x.next m b).Unregistered := by
  cases b with
  | readyReceive i c temp =>
      cases temp <;> grind [Unregistered, IsReady, next, Enabled]
  | readyFalse i | added i | found i =>
      cases m <;> exact fun hready => absurd hready id
  | _ => grind [Unregistered, IsReady, next, Enabled]

/-! ## Before `resume_impl` has tested `result_` -/

/-- What `suspend_impl` has removed from the channels, when nobody else
has. -/
def held (x : Wait α) : List (ℕ × α) :=
  match x.suspend with
  | .store i temp => taken i temp
  | .test i => taken i x.result
  | .index i => taken i x.result
  | .exchange => taken x.readyIndex x.result
  | .finished => taken x.readyIndex x.result
  | _ => []

/-- `suspend_impl` is not to read or return what is in `result_`. -/
def Unstored (x : Wait α) : Prop :=
  match x.suspend with
  | .test _ => False
  | .index _ => False
  | .exchange => False
  | .finished => False
  | _ => True

/-- The wait has removed what `suspend_impl` holds. -/
structure SuspendHolds (x : Wait α) : Prop where
  removed : x.removed = x.held
  unstored : x.Unstored → x.result = none

/-- `resume_impl` has not received anything itself. -/
def Untaken (x : Wait α) : Prop :=
  match x.resume with
  | .waiting => True
  | .begin => True
  | .check none => True
  | .moveOut none => True
  | _ => False

/-- `suspend_impl` holds nothing here. -/
def holdsNothing : SuspendPc α → Bool
  | .idle | .ready _ | .addTimer | .addNode _ | .recheck _ => true
  | _ => false

theorem held_of_holdsNothing {x : Wait α}
    (hx : holdsNothing x.suspend = true) : x.held = [] ∧ x.Unstored := by
  unfold held Unstored
  cases hs : x.suspend <;> rw [hs] at hx <;>
    first | exact ⟨rfl, trivial⟩ | cases hx

theorem SuspendHolds.of_nothing {x y : Wait α} (h : x.SuspendHolds)
    (hx : holdsNothing x.suspend = true) (hremoved : y.removed = x.removed)
    (hresult : x.result = none → y.result = none)
    (hy : y.result = none → y.held = []) : y.SuspendHolds := by
  obtain ⟨hheld, hunstored⟩ := held_of_holdsNothing hx
  have hnone := hresult (h.unstored hunstored)
  constructor
  · rw [hremoved, h.removed, hheld, hy hnone]
  · exact fun _ => hnone

theorem SuspendHolds.of_taken {x y : Wait α} (h : x.SuspendHolds)
    (hx : holdsNothing x.suspend = true) {i : ℕ} {temp : Option α}
    (hremoved : y.removed = x.removed ++ taken i temp)
    (hheld : y.held = taken i temp)
    (hy : x.result = none → y.Unstored → y.result = none) :
    y.SuspendHolds := by
  obtain ⟨hnothing, hunstored⟩ := held_of_holdsNothing hx
  constructor
  · rw [hremoved, h.removed, hnothing, hheld, List.nil_append]
  · exact hy (h.unstored hunstored)

theorem SuspendHolds.of_held {x y : Wait α} (h : x.SuspendHolds)
    (hremoved : y.removed = x.removed) (hheld : y.held = x.held)
    (hy : y.Unstored → y.result = none) : y.SuspendHolds :=
  ⟨by rw [hremoved, hheld, h.removed], hy⟩

theorem suspendHolds_next {m : Await ι} {ch : ι → Channel α} {x : Wait α}
    {b : Step ι α} (hr : x.Untaken) (h : x.SuspendHolds)
    (hb : x.Enabled m ch b) : (x.next m b).SuspendHolds := by
  have hfinished : ∀ {y : Wait α}, y.suspend = .finished → y.result = none →
      y.held = [] := by
    intro y hs hn
    simp only [held, hs, hn, taken_none]
  have hexchange : ∀ {y : Wait α}, y.suspend = .exchange → y.result = none →
      y.held = [] := by
    intro y hs hn
    simp only [held, hs, hn, taken_none]
  cases b with
  | coAwait =>
      have hs : x.suspend = .idle := hb
      exact h.of_nothing (by rw [hs]; rfl) rfl id fun _ => rfl
  | readyReceive i c temp =>
      have hx : holdsNothing x.suspend = true := by rw [hb.1]; rfl
      cases temp with
      | none => exact h.of_nothing hx rfl (fun _ => rfl) fun _ => rfl
      | some v => exact h.of_taken hx rfl rfl fun _ hv => by cases hv
  | readyTrue i =>
      exact h.of_nothing (by rw [hb.1]; rfl) rfl id (hfinished rfl)
  | readyFalse i =>
      refine h.of_nothing (by rw [hb.1]; rfl) rfl id fun _ => ?_
      cases m <;> rfl
  | addTimer =>
      have hs : x.suspend = .addTimer := hb
      exact h.of_nothing (by rw [hs]; rfl) rfl id fun _ => rfl
  | addNode i c =>
      exact h.of_nothing (by rw [hb.1]; rfl) rfl id fun _ => rfl
  | added i =>
      refine h.of_nothing (by rw [hb.1]; rfl) rfl id fun hn => ?_
      cases m with
      | receive c => exact hfinished rfl hn
      | receiveFor c => rfl
      | select cs => rfl
  | recheck i c temp =>
      exact h.of_taken (by rw [hb.1]; rfl) rfl rfl fun hn _ => hn
  | storeRecheck i temp =>
      have hs : x.suspend = .store i temp := hb
      refine h.of_held rfl ?_ (by rintro ⟨⟩)
      simp only [held, hs, next]
  | found i =>
      cases m <;> refine h.of_held rfl ?_ (by rintro ⟨⟩) <;>
        simp only [held, hb.1, next]
  | notFound i =>
      refine h.of_held rfl ?_ fun _ => hb.2
      simp only [held, hb.1, hb.2, next, taken_none]
  | storeIndex i =>
      have hs : x.suspend = .index i := hb
      refine h.of_held rfl ?_ (by rintro ⟨⟩)
      simp only [held, hs, next]
  | rechecked i closed =>
      have hx : holdsNothing x.suspend = true := by rw [hb.1]; rfl
      cases closed with
      | true => exact h.of_nothing hx rfl id (hexchange rfl)
      | false => exact h.of_nothing hx rfl id (hfinished rfl)
  | exchange =>
      have hs : x.suspend = .exchange := hb
      refine h.of_held rfl ?_ (by rintro ⟨⟩)
      simp only [held, hs, next]
  | receive i c temp =>
      rw [Untaken, hb.1] at hr
      exact hr.elim
  | storeReceived i temp =>
      have hresume : x.resume = .store i temp := hb
      rw [Untaken, hresume] at hr
      exact hr.elim
  | _ => exact ⟨h.removed, h.unstored⟩

/-- While `resume_impl` has taken nothing, the wait has removed what
`suspend_impl` holds, and a wait that holds a value is scheduled. -/
structure Early (x : Wait α) : Prop where
  holds : x.Untaken → x.returned = none ∧ x.SuspendHolds
  found : x.resume = .check none ∨ x.resume = .moveOut none →
    x.result ≠ none
  scheduled : x.resume = .waiting → x.suspend = .finished →
    x.removed ≠ [] → x.scheduled = true

theorem early_initial : (initial : Wait α).Early where
  holds _ := ⟨rfl, rfl, fun _ => rfl⟩
  found := by rintro (h | h) <;> cases h
  scheduled := nofun

theorem waiting_of_ready {x : Wait α} {i : ℕ} (hu : x.Unregistered)
    (hs : x.suspend = .ready i) : x.resume = .waiting := by
  have hready : x.IsReady := by simp [IsReady, hs]
  exact (hu hready).2.2

/-- A step that leaves `resume_impl` with nothing taken was taken from such a
state, or begins `resume_impl` at once. -/
theorem untaken_of_next {m : Await ι} {ch : ι → Channel α} {x : Wait α}
    {b : Step ι α} (hu : x.Unregistered) (hb : x.Enabled m ch b)
    (hr : (x.next m b).Untaken) : x.Untaken := by
  cases b with
  | readyReceive i c temp => simp [Untaken, waiting_of_ready hu hb.1]
  | readyTrue i => simp [Untaken, waiting_of_ready hu hb.1]
  | found i => cases m <;> exact hr
  | resume => simp [Untaken, hb.1]
  | hasResult => simp [Untaken, hb.1]
  | hasNoResult => simp [Untaken, hb.1]
  | storeReceived i temp => cases m <;> exact absurd hr id
  | checkFound index =>
      cases index with
      | none => simp [Untaken, hb.1]
      | some i => exact absurd hr id
  | receive i c temp => exact absurd hr id
  | checkEmpty index => exact absurd hr id
  | moveOut index => exact absurd hr id
  | giveUp i closed => exact absurd hr id
  | _ => exact hr

theorem early_next {m : Await ι} {ch : ι → Channel α} {x : Wait α}
    {b : Step ι α} (hu : x.Unregistered) (h : x.Early)
    (hb : x.Enabled m ch b) : (x.next m b).Early where
  holds hr := by
    have hx := untaken_of_next hu hb hr
    obtain ⟨hreturned, hholds⟩ := h.holds hx
    refine ⟨?_, suspendHolds_next hx hholds hb⟩
    cases b with
    | readyReceive i c temp => cases temp <;> exact hreturned
    | found i => cases m <;> exact hreturned
    | moveOut index => exact absurd hr id
    | giveUp i closed => exact absurd hr id
    | _ => exact hreturned
  found hr := by
    have hf := h.found
    have hx := fun hr => (h.holds hr).2
    cases b with
    | readyReceive i c temp =>
        have hwaiting := waiting_of_ready hu hb.1
        cases temp <;> simp_all [next]
    | found i => cases m <;> exact hf hr
    | hasResult => exact hb.2
    | storeReceived i temp =>
        cases m <;> grind [next, Await.afterStore]
    | storeRecheck i temp =>
        grind [next, Enabled, Untaken, SuspendHolds, Unstored]
    | checkFound index => exact hb.2
    | _ => grind [next, Enabled]
  scheduled hr hs hv := by
    have hx := h.holds
    have hsch := h.scheduled
    cases b with
    | readyReceive i c temp => cases temp <;> grind [next, Enabled]
    | added i =>
        cases m <;> grind [next, Enabled, Untaken, SuspendHolds, held,
          Await.afterRegistration]
    | found i => cases m <;> grind [next, Enabled]
    | readyFalse i => cases m <;> grind [next, Enabled, Await.firstRegistration]
    | hasResult => cases m <;> grind [next, Await.afterBegin]
    | storeReceived i temp => cases m <;> grind [next, Await.afterStore]
    | _ => grind [next, Enabled, Untaken, SuspendHolds, held]

/-! ## After `resume_impl` has tested `result_` -/

/-- What `resume_impl` has received itself. -/
def received (x : Wait α) : List (ℕ × α) :=
  match x.resume with
  | .store i temp => taken i temp
  | .check (some i) => taken i x.result
  | .moveOut (some i) => taken i x.result
  | _ => []

/-- `resume_impl` is to overwrite `result_`. -/
def Overwrites (x : Wait α) : Prop :=
  match x.resume with
  | .receive _ => True
  | .store _ _ => True
  | _ => False

/-- Once `resume_impl` receives itself, the wait has removed what it holds or
has returned, and `suspend_impl` holds nothing. -/
structure Kept (x : Wait α) : Prop where
  suspend : ¬x.Untaken → x.suspend.temp = none
  unreturned : ¬x.Untaken → x.resume ≠ .done → x.returned = none
  removed : ¬x.Untaken → x.resume ≠ .done → x.removed = x.received
  overwrites : x.Overwrites → x.result = none
  returned : x.resume = .done →
    ∃ out, x.returned = some out ∧ out.Returns x.removed

theorem kept_initial : (initial : Wait α).Kept where
  suspend _ := rfl
  unreturned _ _ := rfl
  removed _ _ := rfl
  overwrites _ := rfl
  returned := nofun

theorem length_held_le (x : Wait α) : x.held.length ≤ 1 := by
  unfold held
  split <;> simp [length_taken_le]

theorem length_received_le (x : Wait α) : x.received.length ≤ 1 := by
  unfold received
  split <;> simp [length_taken_le]

/-- A wait that keeps apart what its agents hold returns what it has
removed. -/
theorem Kept.returnsRemoved {x : Wait α} (he : x.Early) (h : x.Kept) :
    x.ReturnsRemoved := by
  by_cases hu : x.Untaken
  · obtain ⟨hreturned, hholds⟩ := he.holds hu
    refine ⟨?_, ?_⟩
    · rw [hholds.removed]
      exact length_held_le x
    · intro out hout
      rw [hreturned] at hout
      cases hout
  · by_cases hd : x.resume = .done
    · obtain ⟨out, hout, hreturns⟩ := h.returned hd
      refine ⟨hreturns.length_le, fun out' hout' => ?_⟩
      rw [hout] at hout'
      cases hout'
      exact hreturns
    · refine ⟨?_, ?_⟩
      · rw [h.removed hu hd]
        exact length_received_le x
      · intro out hout
        rw [h.unreturned hu hd] at hout
        cases hout

/-- A wait that holds a value can go on. -/
theorem exists_enabled {m : Await ι} {ch : ι → Channel α} {x : Wait α}
    (he : x.Early) (h : x.Kept) (hv : x.removed ≠ [])
    (hn : x.returned = none) : ∃ b, x.Enabled m ch b := by
  cases hr : x.resume with
  | waiting =>
      have hu : x.Untaken := by simp [Untaken, hr]
      have hheld : x.held ≠ [] := (he.holds hu).2.removed ▸ hv
      cases hs : x.suspend with
      | store i temp => exact ⟨.storeRecheck i temp, hs⟩
      | test i =>
          by_cases hresult : x.result = none
          · exact ⟨.notFound i, hs, hresult⟩
          · exact ⟨.found i, hs, hresult⟩
      | index i => exact ⟨.storeIndex i, hs⟩
      | exchange => exact ⟨.exchange, hs⟩
      | finished => exact ⟨.resume, hr, he.scheduled hr hs hv⟩
      | idle | ready i | addTimer | addNode i | recheck i =>
          simp [held, hs] at hheld
  | begin =>
      by_cases hresult : x.result = none
      · exact ⟨.hasNoResult, hr, hresult⟩
      · exact ⟨.hasResult, hr, hresult⟩
  | receive i =>
      cases hc : m.channels[i]? with
      | none => exact ⟨.giveUp i _, hr, hc, rfl⟩
      | some c => exact ⟨.receive i c _, hr, hc, rfl⟩
  | store i temp => exact ⟨.storeReceived i temp, hr⟩
  | check index =>
      by_cases hresult : x.result = none
      · exact ⟨.checkEmpty index, hr, hresult⟩
      · exact ⟨.checkFound index, hr, hresult⟩
  | moveOut index => exact ⟨.moveOut index, hr⟩
  | done =>
      obtain ⟨out, hout, -⟩ := h.returned hr
      rw [hn] at hout
      cases hout

theorem Kept.of_untaken {x : Wait α} (hu : x.Untaken) : x.Kept where
  suspend h := absurd hu h
  unreturned h := absurd hu h
  removed h := absurd hu h
  overwrites h := by
    unfold Untaken at hu
    unfold Overwrites at h
    split at h <;> simp_all
  returned h := by
    simp [Untaken, h] at hu

theorem Kept.of_suspend {x y : Wait α} (h : x.Kept)
    (hresume : y.resume = x.resume) (hreturned : y.returned = x.returned)
    (hremoved : y.removed = x.removed)
    (htemp : ¬x.Untaken → y.suspend.temp = none)
    (hresult : ¬x.Untaken → x.resume ≠ .done → y.result = x.result) :
    y.Kept := by
  have huntaken : y.Untaken ↔ x.Untaken := by simp [Untaken, hresume]
  by_cases hu : x.Untaken
  · exact of_untaken (huntaken.mpr hu)
  · constructor
    · exact fun _ => htemp hu
    · intro _ hd
      rw [hreturned]
      exact h.unreturned hu (hresume ▸ hd)
    · intro _ hd
      rw [hresume] at hd
      rw [hremoved, h.removed hu hd]
      simp [received, hresume, hresult hu hd]
    · intro ho
      have ho' : x.Overwrites := by simpa [Overwrites, hresume] using ho
      have hd : x.resume ≠ .done := by
        intro hd
        simp [Overwrites, hd] at ho'
      rw [hresult hu hd]
      exact h.overwrites ho'
    · intro hd
      rw [hreturned, hremoved]
      exact h.returned (hresume ▸ hd)

/-- What `suspend_impl` has stored is what `resume_impl` finds. -/
theorem outcome_returns_held {m : Await ι} {x : Wait α}
    (h : x.SuspendHolds) (hresult : x.result ≠ none)
    (hindex : ∀ cs, m = .select cs →
      ∀ i ∈ x.suspend.pending, x.readyIndex = i) :
    (m.outcome x.readyIndex x.result).Returns x.removed := by
  have hstored : ∃ i, x.removed = taken i x.result ∧
      ((∀ j ∈ x.suspend.pending, x.readyIndex = j) → x.readyIndex = i) := by
    rw [h.removed]
    have hu := mt h.unstored hresult
    cases hs : x.suspend with
    | test i => exact ⟨i, by simp [held, hs], fun hp => hp i rfl⟩
    | index i => exact ⟨i, by simp [held, hs], fun hp => hp i rfl⟩
    | exchange => exact ⟨x.readyIndex, by simp [held, hs], fun _ => rfl⟩
    | finished => exact ⟨x.readyIndex, by simp [held, hs], fun _ => rfl⟩
    | _ => simp [Unstored, hs] at hu
  obtain ⟨i, hremoved, hready⟩ := hstored
  rw [hremoved]
  cases m with
  | receive c => exact map_snd_taken i x.result
  | receiveFor c => exact map_snd_taken i x.result
  | select cs =>
      have hi := hready (hindex cs rfl)
      rw [← hi]
      rfl

theorem Kept.of_resume {x y : Wait α} (h : x.Kept) (hu : ¬x.Untaken)
    (hd : x.resume ≠ .done) (hsuspend : y.suspend = x.suspend)
    (hreturned : y.returned = x.returned)
    (hremoved : x.removed = x.received → y.removed = y.received)
    (hoverwrites : y.Overwrites → y.result = none)
    (hgoes : y.resume ≠ .done) : y.Kept := by
  constructor
  · intro _
    rw [hsuspend]
    exact h.suspend hu
  · intro _ _
    rw [hreturned]
    exact h.unreturned hu hd
  · exact fun _ _ => hremoved (h.removed hu hd)
  · exact hoverwrites
  · exact fun hdone => absurd hdone hgoes

theorem kept_receive {m : Await ι} {x : Wait α} {i : ℕ} {c : ι}
    {temp : Option α} (h : x.Kept) (hr : x.resume = .receive i) :
    (x.next m (.receive i c temp)).Kept := by
  refine h.of_resume (by simp [Untaken, hr]) (by simp [hr]) rfl rfl
    (fun hremoved => ?_) (fun _ => ?_) (by rintro ⟨⟩)
  · simp [next, received, hremoved, hr]
  · exact h.overwrites (by simp [Overwrites, hr])

theorem kept_storeReceived {m : Await ι} {x : Wait α} {i : ℕ}
    {temp : Option α} (h : x.Kept) (hr : x.resume = .store i temp) :
    (x.next m (.storeReceived i temp)).Kept := by
  refine h.of_resume (by simp [Untaken, hr]) (by simp [hr]) rfl rfl
    (fun hremoved => ?_) (fun ho => ?_) ?_
  · cases m <;> simp [next, received, hremoved, hr, Await.afterStore]
  · cases m <;> exact absurd ho id
  · cases m <;> rintro ⟨⟩

theorem kept_hasNoResult {m : Await ι} {x : Wait α} (he : x.Early)
    (hr : x.resume = .begin) (hresult : x.result = none)
    (htemp : x.suspend.temp = none) : (x.next m .hasNoResult).Kept := by
  obtain ⟨hreturned, hholds⟩ := he.holds (by simp [Untaken, hr])
  have hheld : x.held = [] := by
    cases hs : x.suspend with
    | store i temp =>
        have hnone : temp = none := by simpa [SuspendPc.temp, hs] using htemp
        simp [held, hs, hnone]
    | _ => simp [held, hs, hresult]
  constructor
  · exact fun _ => htemp
  · exact fun _ _ => hreturned
  · intro _ _
    exact hholds.removed.trans hheld
  · exact fun _ => hresult
  · nofun

theorem kept_checkFound {m : Await ι} {x : Wait α} {index : Option ℕ}
    (h : x.Kept) (hr : x.resume = .check index) :
    (x.next m (.checkFound index)).Kept := by
  cases index with
  | none => exact .of_untaken trivial
  | some i =>
      refine h.of_resume (by simp [Untaken, hr]) (by simp [hr]) rfl rfl
        (fun hremoved => ?_) (fun ho => absurd ho id) (by rintro ⟨⟩)
      simp [next, received, hremoved, hr]

theorem kept_checkEmpty {m : Await ι} {x : Wait α} {index : Option ℕ}
    (he : x.Early) (h : x.Kept) (hr : x.resume = .check index)
    (hresult : x.result = none) : (x.next m (.checkEmpty index)).Kept := by
  cases index with
  | none => exact absurd hresult (he.found (.inl hr))
  | some i =>
      refine h.of_resume (by simp [Untaken, hr]) (by simp [hr]) rfl rfl
        (fun hremoved => ?_) (fun _ => hresult) (by rintro ⟨⟩)
      simp [next, received, hremoved, hr, hresult]

theorem SuspendHolds.temp_eq_none {x : Wait α} (h : x.SuspendHolds)
    (hresult : x.result ≠ none) : x.suspend.temp = none := by
  have hu := mt h.unstored hresult
  cases hs : x.suspend with
  | store i temp => simp [Unstored, hs] at hu
  | _ => rfl

theorem kept_moveOut {m : Await ι} {x : Wait α} {index : Option ℕ}
    (he : x.Early) (h : x.Kept) (hr : x.resume = .moveOut index)
    (hkeeps : x.KeepsOut m (.moveOut index)) :
    (x.next m (.moveOut index)).Kept := by
  have hdone : x.suspend.temp = none →
      (m.outcome (index.getD x.readyIndex) x.result).Returns x.removed →
      (x.next m (.moveOut index)).Kept := by
    intro htemp hreturns
    constructor
    · exact fun _ => htemp
    · exact fun _ hd => absurd rfl hd
    · exact fun _ hd => absurd rfl hd
    · exact fun ho => absurd ho id
    · exact fun _ => ⟨_, rfl, hreturns⟩
  cases index with
  | none =>
      have hresult := he.found (.inr hr)
      have hholds := (he.holds (by simp [Untaken, hr])).2
      refine hdone (hholds.temp_eq_none hresult) ?_
      apply outcome_returns_held hholds hresult
      rintro cs rfl
      exact hkeeps
  | some i =>
      have hu : ¬x.Untaken := by simp [Untaken, hr]
      refine hdone (h.suspend hu) ?_
      rw [h.removed hu (by simp [hr])]
      simpa [received, hr] using m.outcome_returns i x.result

theorem kept_giveUp {m : Await ι} {x : Wait α} {i : ℕ} {closed : Bool}
    (h : x.Kept) (hr : x.resume = .receive i) :
    (x.next m (.giveUp i closed)).Kept := by
  have hu : ¬x.Untaken := by simp [Untaken, hr]
  have hremoved := h.removed hu (by simp [hr])
  constructor
  · exact fun _ => h.suspend hu
  · exact fun _ hd => absurd rfl hd
  · exact fun _ hd => absurd rfl hd
  · exact fun ho => absurd ho id
  · intro _
    refine ⟨_, rfl, ?_⟩
    have hnil : x.removed = [] := by simp [hremoved, received, hr]
    simpa [next, hnil] using m.emptyOutcome_returns closed

theorem Untaken.of_isEarly {x : Wait α} (h : x.resume.isEarly = true) :
    x.Untaken := by
  cases hr : x.resume <;> simp_all [ResumePc.isEarly, Untaken]

/-- The re-check stores a value only where `resume_impl` does not look for
one. -/
theorem kept_storeRecheck {m : Await ι} {x : Wait α} {i : ℕ}
    {temp : Option α} (h : x.Kept) (hs : x.suspend = .store i temp)
    (hkeeps : x.KeepsOut m (.storeRecheck i temp)) :
    (x.next m (.storeRecheck i temp)).Kept := by
  refine h.of_suspend rfl rfl rfl (fun _ => rfl) fun hu hd => ?_
  have htemp : temp = none := by
    simpa [SuspendPc.temp, hs] using h.suspend hu
  have hresult : x.result = none := by
    cases hr : x.resume with
    | waiting | begin => simp [Untaken, hr] at hu
    | receive j => exact h.overwrites (by simp [Overwrites, hr])
    | store j t => exact h.overwrites (by simp [Overwrites, hr])
    | check index => exact hkeeps htemp (by simp [ResumePc.readsResult, hr])
    | moveOut index => exact hkeeps htemp (by simp [ResumePc.readsResult, hr])
    | done => exact absurd hr hd
  rw [hresult]
  exact htemp

theorem kept_next {m : Await ι} {ch : ι → Channel α} {x : Wait α}
    {b : Step ι α} (hun : x.Unregistered) (he : x.Early) (h : x.Kept)
    (hb : x.Enabled m ch b) (hkeeps : x.KeepsOut m b) :
    (x.next m b).Kept := by
  cases b with
  | readyReceive i c temp =>
      have hwaiting := waiting_of_ready hun hb.1
      cases temp with
      | none => exact .of_untaken (by simp [next, Untaken, hwaiting])
      | some v => exact .of_untaken trivial
  | readyTrue i => exact .of_untaken trivial
  | recheck i c temp =>
      by_cases htemp : temp = none
      · subst htemp
        exact h.of_suspend rfl rfl (by simp [next]) (fun _ => rfl)
          fun _ _ => rfl
      · exact .of_untaken (Untaken.of_isEarly (x := x) (hkeeps htemp))
  | storeRecheck i temp => exact kept_storeRecheck h hb hkeeps
  | found i =>
      cases m <;> exact h.of_suspend rfl rfl rfl (fun _ => rfl) fun _ _ => rfl
  | readyFalse i =>
      cases m <;> exact h.of_suspend rfl rfl rfl (fun _ => rfl) fun _ _ => rfl
  | added i =>
      cases m <;> exact h.of_suspend rfl rfl rfl (fun _ => rfl) fun _ _ => rfl
  | rechecked i closed =>
      cases closed <;>
        exact h.of_suspend rfl rfl rfl (fun _ => rfl) fun _ _ => rfl
  | fire => exact h.of_suspend rfl rfl rfl h.suspend fun _ _ => rfl
  | coAwait | addTimer | addNode i c | notFound i | storeIndex i | exchange =>
      exact h.of_suspend rfl rfl rfl (fun _ => rfl) fun _ _ => rfl
  | resume => exact .of_untaken trivial
  | hasResult => cases m <;> exact .of_untaken trivial
  | hasNoResult => exact kept_hasNoResult he hb.1 hb.2 hkeeps
  | receive i c temp => exact kept_receive h hb.1
  | storeReceived i temp => exact kept_storeReceived h hb
  | checkFound index => exact kept_checkFound h hb.1
  | checkEmpty index => exact kept_checkEmpty he h hb.1 hb.2
  | moveOut index => exact kept_moveOut he h hb hkeeps
  | giveUp i closed => exact kept_giveUp h hb.1

end Wait

/-! ## Runs -/

section Runs

variable [DecidableEq ω] [DecidableEq ι] {await : ω → Await ι}
  {s : State ω ι α}

theorem wait_next_step_self (await : ω → Await ι) (s : State ω ι α) (w : ω)
    (b : Step ι α) :
    (next await s (.step w b)).wait w = (s.wait w).next (await w) b :=
  Function.update_self ..

theorem wait_next_step_of_ne (await : ω → Await ι) (s : State ω ι α)
    {w w' : ω} (b : Step ι α) (hne : w ≠ w') :
    (next await s (.step w' b)).wait w = s.wait w :=
  Function.update_of_ne hne ..

/-- The rule for an invariant of the waits: it is kept by each of their
steps. -/
theorem wait_invariant {P : State ω ι α → Action ω ι α → Prop}
    (hs : (system await).ReachableWhere P s) (I : Wait α → Prop)
    (hinit : I .initial)
    (hstep : ∀ (s : State ω ι α) w b, I (s.wait w) →
      (s.wait w).Enabled (await w) s.channel b → P s (.step w b) →
        I ((s.wait w).next (await w) b)) (w : ω) : I (s.wait w) := by
  refine hs.invariant (fun s => ∀ w, I (s.wait w)) ?_ ?_ w
  · rintro s ⟨ch, rfl⟩ w
    exact hinit
  · intro s a h ha hP w
    cases a with
    | send c v => exact h w
    | receive c => exact h w
    | close c => exact h w
    | step w' b =>
        by_cases hw : w = w'
        · subst hw
          exact (wait_next_step_self await s w b).symm ▸
            hstep s w b (h w) ha hP
        · exact (wait_next_step_of_ne await s b hw).symm ▸ h w

theorem early_reachable (hs : (system await).Reachable s) (w : ω) :
    (s.wait w).Unregistered ∧ (s.wait w).Early :=
  wait_invariant hs (fun x => x.Unregistered ∧ x.Early)
    ⟨Wait.unregistered_initial, Wait.early_initial⟩
    (fun _ _ _ h hb _ =>
      ⟨Wait.unregistered_next h.1 hb, Wait.early_next h.1 h.2 hb⟩) w

theorem kept_reachable
    (hs : (system await).ReachableWhere (KeepsOut await) s) (w : ω) :
    (s.wait w).Early ∧ (s.wait w).Kept := by
  have h := wait_invariant hs
    (fun x => x.Unregistered ∧ x.Early ∧ x.Kept)
    ⟨Wait.unregistered_initial, Wait.early_initial, Wait.kept_initial⟩
    (fun _ _ _ h hb hkeeps =>
      ⟨Wait.unregistered_next h.1 hb, Wait.early_next h.1 h.2.1 hb,
        Wait.kept_next h.1 h.2.1 h.2.2 hb hkeeps⟩) w
  exact h.2

/-- No wait loses a value in a run that keeps `suspend_impl` out of the way of
`resume_impl`. -/
theorem losesNoValue_of_keepsOut
    (hs : (system await).ReachableWhere (KeepsOut await) s) :
    s.LosesNoValue await := by
  intro w
  obtain ⟨he, hk⟩ := kept_reachable hs w
  exact ⟨hk.returnsRemoved he, Wait.exists_enabled he hk⟩

end Runs

end ReceiveAwaiter
end Ethreads
