import Ethreads.Select.Lists

/-!
# A resumed select finds a value

A wake-up of a select promises nothing about its channels: whoever wins
`gate_` may do so for a channel that was closed, or that has become empty
again, and other consumers may take the value before `resume_impl` looks.
While there is a value where `resume_impl` has still to look, it returns one.
-/

namespace Ethreads
namespace Select

open ReceiveAwaiter (Channel Wait)

variable {ι α γ ν τ : Type*}

/-! ## Values -/

/-- One of the channels has a value. -/
def HasValue (cs : List ι) (channel : ι → Channel α) : Prop :=
  ∃ c ∈ cs, (channel c).buffer ≠ []

/-- All channels are closed and drained. -/
def Ended (cs : List ι) (channel : ι → Channel α) : Prop :=
  ∀ c ∈ cs, (channel c).closed = true ∧ (channel c).buffer = []

/-- The index from which on `resume_impl` of a scheduled wait has still to find
a value. -/
def wants (x : Wait α) : Option ℕ :=
  match x.resume with
  | .waiting =>
      if x.scheduled = true ∧ x.result.isNone = true then some 0 else none
  | .begin => if x.result.isNone = true then some 0 else none
  | .receive i => some i
  | .store i none => some (i + 1)
  | .check index =>
      if x.result.isNone = true then some (index.elim 1 (· + 1)) else none
  | _ => none

/-- When the value at the front of the channel is taken, `resume_impl` still
finds one if it would have found one before. -/
def LeavesValue [DecidableEq ι] (cfg : Config ι γ ν) (s : State ι α γ ν τ)
    (c : ι) : Prop :=
  ∀ j ∈ wants s.wait, HasValue (cfg.channels.drop j) s.channel →
    HasValue (cfg.channels.drop j)
      (Function.update s.channel c (s.channel c).removeHead)

/-- The gate is won by a thread that wakes waiters only if a value is there or
will never be; values are taken by other consumers, and by the re-check, only
if one is left for a `resume_impl` that still wants one; and the re-check does
not clear `result_` while `resume_impl` is about to return it. -/
def KeepsValue [DecidableEq ι] (cfg : Config ι γ ν) (s : State ι α γ ν τ) :
    Action ι α γ ν τ → Prop
  | .list _ (.schedule _ (.inl _) _) =>
      s.wait.result ≠ none ∨ HasValue cfg.channels s.channel ∨
        Ended cfg.channels s.channel
  | .receive _ c => LeavesValue cfg s c
  | .step (.recheck _ c _) => LeavesValue cfg s c
  | .step (.storeRecheck _ none) =>
      s.wait.resume.readsResult = true → s.wait.result = none
  | _ => True

/-- What the select has returned, if it has, is a value, or all its channels
are closed and drained. -/
def State.Yields (cfg : Config ι γ ν) (s : State ι α γ ν τ) : Prop :=
  ∀ out, s.wait.returned = some out →
    (∃ i v, out = .selected i (some v)) ∨ Ended cfg.channels s.channel

section Decide

variable [DecidableEq ι] [DecidableEq α]

instance (cs : List ι) (channel : ι → Channel α) :
    Decidable (HasValue cs channel) :=
  inferInstanceAs (Decidable (∃ c ∈ cs, _))

instance (cs : List ι) (channel : ι → Channel α) :
    Decidable (Ended cs channel) :=
  inferInstanceAs (Decidable (∀ c ∈ cs, _))

instance (cfg : Config ι γ ν) (s : State ι α γ ν τ) (c : ι) :
    Decidable (LeavesValue cfg s c) :=
  inferInstanceAs (Decidable (∀ j ∈ wants s.wait, _))

instance (cfg : Config ι γ ν) (s : State ι α γ ν τ)
    (a : Action ι α γ ν τ) : Decidable (KeepsValue cfg s a) := by
  induction a using Action.casesOn with
  | receive t c => dsimp only [KeepsValue]; infer_instance
  | list c b =>
      induction b using AsyncPrimitive.Action.casesOn with
      | schedule t n g =>
          induction n using Sum.casesOn <;>
            dsimp only [KeepsValue] <;> infer_instance
      | _ => exact inferInstanceAs (Decidable True)
  | step b =>
      induction b using ReceiveAwaiter.Step.casesOn with
      | recheck i c temp => dsimp only [KeepsValue]; infer_instance
      | storeRecheck i temp =>
          induction temp using Option.casesOn <;>
            dsimp only [KeepsValue] <;> infer_instance
      | _ => exact inferInstanceAs (Decidable True)
  | _ => exact inferInstanceAs (Decidable True)

end Decide

/-! ## Channels -/

section Channels

variable {cs : List ι} {channel : ι → Channel α} {c : ι} {i : ℕ}

theorem not_hasValue_nil : ¬HasValue [] channel :=
  fun ⟨_, hc, _⟩ => List.not_mem_nil hc

theorem HasValue.drop_succ (h : HasValue (cs.drop i) channel)
    (hc : cs[i]? = some c) (hempty : (channel c).buffer = []) :
    HasValue (cs.drop (i + 1)) channel := by
  obtain ⟨d, hd, hvalue⟩ := h
  obtain ⟨hlt, hget⟩ := List.getElem?_eq_some_iff.mp hc
  rw [List.drop_eq_getElem_cons hlt, hget, List.mem_cons] at hd
  rcases hd with rfl | hd
  · exact absurd hempty hvalue
  · exact ⟨d, hd, hvalue⟩

variable [DecidableEq ι]

theorem update_removeHead_of_empty (hempty : (channel c).buffer = []) :
    Function.update channel c (channel c).removeHead = channel := by
  have hsame : (channel c).removeHead = channel c := by
    unfold Channel.removeHead
    rw [hempty, List.tail_nil, ← hempty]
  rw [hsame, Function.update_eq_self]

/-- No channel is opened again, and none that is closed gets a value. -/
theorem Ended.update {ch : Channel α} (h : Ended cs channel)
    (hclosed : (channel c).closed = true → ch.closed = true)
    (hempty : (channel c).buffer = [] → (channel c).closed = true →
      ch.buffer = []) :
    Ended cs (Function.update channel c ch) := by
  intro d hd
  by_cases hdc : d = c
  · subst hdc
    rw [Function.update_self]
    exact ⟨hclosed (h d hd).1, hempty (h d hd).2 (h d hd).1⟩
  · rw [Function.update_of_ne hdc]
    exact h d hd

theorem Ended.removeHead (h : Ended cs channel) :
    Ended cs (Function.update channel c (channel c).removeHead) :=
  h.update id fun hempty _ => by
    unfold Channel.removeHead
    rw [hempty, List.tail_nil]

theorem HasValue.update {ch : Channel α} (h : HasValue cs channel)
    (hvalue : (channel c).buffer ≠ [] → ch.buffer ≠ []) :
    HasValue cs (Function.update channel c ch) := by
  obtain ⟨d, hd, hne⟩ := h
  refine ⟨d, hd, ?_⟩
  by_cases hdc : d = c
  · subst hdc
    rw [Function.update_self]
    exact hvalue hne
  · rwa [Function.update_of_ne hdc]

end Channels

/-! ## The invariant -/

/-- As long as `resume_impl` wants a value, there is one for it to find or
never will be, and what it is about to return is in `result_`. -/
structure Served (cs : List ι) (channel : ι → Channel α) (x : Wait α) :
    Prop where
  wanted : ∀ j ∈ wants x, HasValue (cs.drop j) channel ∨ Ended cs channel
  found : ∀ i, x.resume = .moveOut (some i) → x.result ≠ none
  stored : x.resume = .waiting →
    x.suspend = .exchange ∨ (∃ i, x.suspend = .index i) → x.result ≠ none
  yields : ∀ out, x.returned = some out →
    (∃ i v, out = .selected i (some v)) ∨ Ended cs channel

theorem served_initial (cs : List ι) (channel : ι → Channel α) :
    Served cs channel .initial where
  wanted _ h := nomatch h
  found _ h := nomatch h
  stored _ h := by rcases h with h | ⟨i, h⟩ <;> exact nomatch h
  yields _ h := nomatch h

/-- The channels change in a way that `resume_impl` does not mind. -/
theorem Served.congr {cs : List ι} {channel channel' : ι → Channel α}
    {x : Wait α} (h : Served cs channel x)
    (hvalue : ∀ j ∈ wants x, HasValue (cs.drop j) channel →
      HasValue (cs.drop j) channel')
    (hended : Ended cs channel → Ended cs channel') :
    Served cs channel' x where
  wanted j hj := (h.wanted j hj).imp (hvalue j hj) hended
  found := h.found
  stored := h.stored
  yields out hout := (h.yields out hout).imp_right hended

/-! ## Steps of the wait -/

section Steps

variable [DecidableEq ι] {cs : List ι} {channel : ι → Channel α} {x : Wait α}

/-- What `KeepsValue` asks of a step of the wait. -/
def Keeps (cs : List ι) (channel : ι → Channel α) (x : Wait α) :
    ReceiveAwaiter.Step ι α → Prop
  | .recheck _ c _ =>
      ∀ j ∈ wants x, HasValue (cs.drop j) channel →
        HasValue (cs.drop j)
          (Function.update channel c (channel c).removeHead)
  | .storeRecheck _ none => x.resume.readsResult = true → x.result = none
  | .fire => x.result ≠ none ∨ HasValue cs channel ∨ Ended cs channel
  | _ => True

omit [DecidableEq ι] in
theorem wants_waiting (hr : x.resume = .waiting)
    (hscheduled : x.scheduled = false) : wants x = none := by
  simp [wants, hr, hscheduled]

omit [DecidableEq ι] in
theorem wants_scheduled (hr : x.resume = .waiting)
    (hscheduled : x.scheduled = true) :
    wants x = if x.result.isNone = true then some 0 else none := by
  simp [wants, hr, hscheduled]

omit [DecidableEq ι] in
theorem wants_begin (hr : x.resume = .begin) (hresult : x.result = none) :
    wants x = some 0 := by
  simp [wants, hr, hresult]

omit [DecidableEq ι] in
theorem wants_receive {i : ℕ} (hr : x.resume = .receive i) :
    wants x = some i := by
  simp [wants, hr]

omit [DecidableEq ι] in
theorem wants_store {i : ℕ} (hr : x.resume = .store i none) :
    wants x = some (i + 1) := by
  simp [wants, hr]

omit [DecidableEq ι] in
theorem wants_check {index : Option ℕ} (hr : x.resume = .check index)
    (hresult : x.result = none) :
    wants x = some (index.elim 1 (· + 1)) := by
  simp [wants, hr, hresult]

omit [DecidableEq ι] in
/-- `resume_impl` does not want more after a step that leaves it where it is
and stores no failure. -/
theorem wants_of_eq {x x' : Wait α} (hresume : x'.resume = x.resume)
    (hscheduled : x'.scheduled = true → x.scheduled = true)
    (hresult : x'.result = none → x.result = none) {j : ℕ}
    (hj : j ∈ wants x') : j ∈ wants x := by
  unfold wants at hj ⊢
  rw [hresume] at hj
  cases hr : x.resume with
  | waiting | begin | check =>
      rw [hr] at hj
      simp_all
  | store i temp =>
      rw [hr] at hj
      cases temp <;> exact hj
  | _ =>
      rw [hr] at hj
      exact hj

omit [DecidableEq ι] in
theorem Served.of_eq {channel' : ι → Channel α} {x' : Wait α}
    (h : Served cs channel x) (hresume : x'.resume = x.resume)
    (hscheduled : x'.scheduled = true → x.scheduled = true)
    (hresult : x'.result = none → x.result = none)
    (hreturned : x'.returned = x.returned)
    (hstored : x'.resume = .waiting →
      x'.suspend = .exchange ∨ (∃ i, x'.suspend = .index i) →
        x'.result ≠ none)
    (hvalue : ∀ j ∈ wants x, HasValue (cs.drop j) channel →
      HasValue (cs.drop j) channel')
    (hended : Ended cs channel → Ended cs channel') :
    Served cs channel' x' where
  wanted j hj :=
    have hold := wants_of_eq hresume hscheduled hresult hj
    (h.wanted j hold).imp (hvalue j hold) hended
  found i hi := fun hnone =>
    h.found i (hresume ▸ hi) (hresult hnone)
  stored := hstored
  yields out hout := (h.yields out (hreturned ▸ hout)).imp_right hended

omit [DecidableEq ι] in
/-- The wait is scheduled, with a value in `result_` or in its channels. -/
theorem Served.schedule {x' : Wait α} (h : Served cs channel x)
    (hvalue : x.resume = .waiting →
      x.result ≠ none ∨ HasValue cs channel ∨ Ended cs channel)
    (hresume : x'.resume = x.resume) (hresult : x'.result = x.result)
    (hreturned : x'.returned = x.returned)
    (hstored : x'.resume = .waiting →
      x'.suspend = .exchange ∨ (∃ i, x'.suspend = .index i) →
        x'.result ≠ none) : Served cs channel x' := by
  refine ⟨fun j hj => ?_, fun i hi => ?_, hstored, fun out hout =>
    h.yields out (hreturned ▸ hout)⟩
  · by_cases hw : x.resume = .waiting
    · obtain ⟨⟨-, hnone⟩, rfl⟩ :
          (x'.scheduled = true ∧ x.result = none) ∧ 0 = j := by
        simpa [wants, hresume, hresult, hw] using hj
      exact (hvalue hw).resolve_left fun hfound => hfound hnone
    · refine h.wanted j ?_
      unfold wants at hj ⊢
      rw [hresume, hresult] at hj
      cases hr : x.resume with
      | waiting => exact absurd hr hw
      | store i temp =>
          rw [hr] at hj
          cases temp <;> exact hj
      | _ =>
          rw [hr] at hj
          exact hj
  · rw [hresult]
    exact h.found i (hresume ▸ hi)

/-- What the re-check or `ready_impl` finds in a channel. -/
theorem served_recheck (h : Served cs channel x) {i : ℕ} {c : ι}
    {temp : Option α} (hkeeps : Keeps cs channel x (.recheck i c temp)) :
    Served cs (Function.update channel c (channel c).removeHead)
      (x.next (.select cs) (.recheck i c temp)) :=
  h.of_eq rfl id id rfl (fun _ hnew => by
    rcases hnew with hnew | ⟨k, hnew⟩ <;> exact nomatch hnew) hkeeps
    Ended.removeHead

theorem served_storeRecheck (he : x.Early) (h : Served cs channel x) {i : ℕ}
    {temp : Option α} (hs : x.suspend = .store i temp)
    (hkeeps : Keeps cs channel x (.storeRecheck i temp)) :
    Served cs channel (x.next (.select cs) (.storeRecheck i temp)) := by
  have hsuspend : ∀ {p : Prop}, (ReceiveAwaiter.SuspendPc.test (α := α) i =
      .exchange ∨ ∃ k, ReceiveAwaiter.SuspendPc.test (α := α) i = .index k) →
        p := by
    rintro p (hnew | ⟨k, hnew⟩) <;> exact nomatch hnew
  cases temp with
  | some v =>
      exact h.of_eq rfl id (fun hnone => nomatch hnone) rfl
        (fun _ => hsuspend) (fun _ _ => id) id
  | none =>
      have hearly : x.Untaken → x.result = none := fun hu =>
        (he.holds hu).2.unstored (by simp [Wait.Unstored, hs])
      refine ⟨fun j hj => h.wanted j ?_, fun k hk => ?_, fun _ => hsuspend,
        h.yields⟩
      · change j ∈ wants { x with suspend := .test i, result := none } at hj
        unfold wants at hj ⊢
        cases hr : x.resume with
        | waiting | begin =>
            have hnone := hearly (by simp [Wait.Untaken, hr])
            simp_all
        | check index =>
            have hnone : x.result = none := hkeeps (by rw [hr]; rfl)
            simp_all
        | store k temp =>
            simp only [hr] at hj
            cases temp <;> exact hj
        | _ =>
            simp only [hr] at hj
            exact hj
      · have hmove : x.resume = .moveOut (some k) := hk
        exact absurd (hkeeps (by rw [hmove]; rfl)) (h.found k hmove)

theorem served_receive (h : Served cs channel x) {i : ℕ} {c : ι}
    {temp : Option α} (hr : x.resume = .receive i) (hc : cs[i]? = some c)
    (htemp : temp = (channel c).buffer.head?) :
    Served cs (Function.update channel c (channel c).removeHead)
      (x.next (.select cs) (.receive i c temp)) := by
  refine ⟨fun j hj => ?_, nofun, nofun,
    fun out hout => (h.yields out hout).imp_right Ended.removeHead⟩
  cases temp with
  | some v => exact nomatch hj
  | none =>
      have hempty : (channel c).buffer = [] :=
        List.head?_eq_none_iff.mp htemp.symm
      rw [update_removeHead_of_empty hempty]
      cases Option.some.inj hj
      exact (h.wanted i (wants_receive hr)).imp_left fun hvalue =>
        hvalue.drop_succ hc hempty

omit [DecidableEq ι] in
/-- Nothing has happened to a wait before its registration. -/
theorem untouched_of_ready (hu : x.Unregistered) (he : x.Early) {i : ℕ}
    (hs : x.suspend = .ready i) :
    x.resume = .waiting ∧ x.scheduled = false ∧ x.returned = none := by
  obtain ⟨-, hscheduled, hwaiting⟩ := hu (by simp [Wait.IsReady, hs])
  have huntaken : x.Untaken := by simp [Wait.Untaken, hwaiting]
  exact ⟨hwaiting, hscheduled, (he.holds huntaken).1⟩

/-- A wait whose agents keep out of each other's way stays served. -/
theorem served_next {b : ReceiveAwaiter.Step ι α} (hu : x.Unregistered)
    (he : x.Early) (h : Served cs channel x)
    (hb : x.Enabled (.select cs) channel b)
    (hkeeps : Keeps cs channel x b) :
    Served cs (b.channelAfter channel) (x.next (.select cs) b) := by
  have hne : ∀ {q : ReceiveAwaiter.SuspendPc α} {p : Prop},
      q ≠ .exchange → (∀ i, q ≠ .index i) →
        (q = .exchange ∨ ∃ i, q = .index i) → p := by
    rintro q p hexchange hindex (hq | ⟨i, hq⟩)
    · exact absurd hq hexchange
    · exact absurd hq (hindex i)
  cases b with
  | coAwait =>
      exact h.of_eq rfl id id rfl (fun _ => hne nofun nofun)
        (fun _ _ => id) id
  | readyReceive i c temp =>
      obtain ⟨hwaiting, hscheduled, hreturned⟩ :=
        untouched_of_ready hu he hb.1
      cases temp with
      | some v =>
          refine ⟨nofun, nofun, nofun, fun out hout => ?_⟩
          exact nomatch hreturned.symm.trans hout
      | none =>
          have hempty : (channel c).buffer = [] :=
            List.head?_eq_none_iff.mp hb.2.2.symm
          refine ⟨fun j hj => ?_, fun k hk => ?_, fun _ => hne nofun nofun,
            fun out hout => nomatch hreturned.symm.trans hout⟩
          · have hnone := wants_waiting
              (x := x.next (.select cs) (.readyReceive i c none)) hwaiting
              hscheduled
            exact nomatch hnone.symm.trans hj
          · exact nomatch hwaiting.symm.trans hk
  | readyTrue i => exact absurd hb.2.2 id
  | readyFalse i =>
      exact h.of_eq rfl nofun id rfl (fun _ => hne nofun nofun)
        (fun _ _ => id) id
  | addTimer | addNode i c | added i | notFound i =>
      exact h.of_eq rfl id id rfl (fun _ => hne nofun nofun)
        (fun _ _ => id) id
  | recheck i c temp => exact served_recheck h hkeeps
  | storeRecheck i temp => exact served_storeRecheck he h hb hkeeps
  | found i =>
      exact h.of_eq rfl id id rfl (fun _ _ => hb.2) (fun _ _ => id) id
  | storeIndex i =>
      exact h.of_eq rfl id id rfl
        (fun hw _ => h.stored hw (.inr ⟨i, hb⟩)) (fun _ _ => id) id
  | rechecked i closed =>
      have hclosed : closed = false := hb.2.2
      subst hclosed
      exact h.of_eq rfl id id rfl (fun _ => hne nofun nofun)
        (fun _ _ => id) id
  | exchange =>
      exact h.schedule (fun hw => .inl (h.stored hw (.inl hb))) rfl rfl rfl
        (fun _ => hne nofun nofun)
  | fire =>
      exact h.schedule (fun _ => hkeeps) rfl rfl rfl h.stored
  | resume =>
      refine ⟨fun j hj => h.wanted j ?_, nofun, nofun, h.yields⟩
      exact (wants_scheduled hb.1 hb.2).trans hj
  | hasResult =>
      refine ⟨nofun, nofun, nofun, h.yields⟩
  | hasNoResult =>
      refine ⟨fun j hj => h.wanted j ?_, nofun, nofun, h.yields⟩
      exact (wants_begin hb.1 hb.2).trans hj
  | receive i c temp => exact served_receive h hb.1 hb.2.1 hb.2.2
  | storeReceived i temp =>
      refine ⟨fun j hj => h.wanted j ?_, nofun, nofun, h.yields⟩
      have hr : x.resume = .store i temp := hb
      cases temp with
      | some v => exact nomatch hj
      | none =>
          cases Option.some.inj hj
          exact wants_store hr
  | checkFound index =>
      refine ⟨nofun, fun _ _ => hb.2, nofun, h.yields⟩
  | checkEmpty index =>
      refine ⟨fun j hj => h.wanted j ?_, nofun, nofun, h.yields⟩
      exact (wants_check hb.1 hb.2).trans hj
  | moveOut index =>
      refine ⟨nofun, nofun, nofun, fun out hout => .inl ?_⟩
      have hfound : x.result ≠ none := by
        cases index with
        | none => exact he.found (.inr hb)
        | some i => exact h.found i hb
      obtain ⟨v, hv⟩ := Option.ne_none_iff_exists'.mp hfound
      refine ⟨index.getD x.readyIndex, v, ?_⟩
      rw [← Option.some.inj hout, ← hv]
      rfl
  | giveUp i closed =>
      refine ⟨nofun, nofun, nofun, fun _ _ => .inr ?_⟩
      have hlength : cs.length ≤ i := List.getElem?_eq_none_iff.mp hb.2.1
      refine (h.wanted i (wants_receive hb.1)).resolve_left ?_
      rw [List.drop_eq_nil_of_le hlength]
      exact not_hasValue_nil

end Steps

/-! ## Runs -/

section Runs

variable [DecidableEq ι] [DecidableEq γ] [DecidableEq ν] [DecidableEq τ]
  {cfg : Config ι γ ν} {s : State ι α γ ν τ} {a : Action ι α γ ν τ}

omit [DecidableEq γ] [DecidableEq ν] [DecidableEq τ] in
theorem keeps_of_keepsValue {b : ReceiveAwaiter.Step ι α}
    (hin : isInner b = true) (h : KeepsValue cfg s (.step b)) :
    Keeps cfg.channels s.channel s.wait b := by
  cases b with
  | fire => cases hin
  | recheck i c temp => exact h
  | storeRecheck i temp =>
      cases temp with
      | none => exact h
      | some v => trivial
  | _ => trivial

theorem served_next_of_registered (hr : Registered cfg s)
    (h : Served cfg.channels s.channel s.wait) (ha : Enabled cfg s a)
    (hkeeps : KeepsValue cfg s a) :
    Served cfg.channels (next cfg s a).channel (next cfg s a).wait := by
  have hstep : ∀ {b : ReceiveAwaiter.Step ι α},
      s.wait.Enabled cfg.await s.channel b →
      Keeps cfg.channels s.channel s.wait b →
      Served cfg.channels (b.channelAfter s.channel)
        (s.wait.next cfg.await b) :=
    fun hb hk => served_next hr.unregistered hr.early h hb hk
  cases a with
  | step b => exact hstep ha.2 (keeps_of_keepsValue ha.1 hkeeps)
  | exchangeWon => exact hstep (b := .exchange) ha.1 trivial
  | exchangeLost =>
      refine h.of_eq rfl id id rfl (fun _ hnew => ?_) (fun _ _ => id) id
      rcases hnew with hnew | ⟨i, hnew⟩ <;> exact nomatch hnew
  | send t c v | trySend t c v =>
      refine h.congr (fun _ _ hvalue => hvalue.update fun _ => ?_)
        fun hended => hended.update id fun _ hclosed => ?_
      · exact List.append_ne_nil_of_right_ne_nil _ (List.cons_ne_nil v [])
      · exact nomatch ha.2.symm.trans hclosed
  | receive t c => exact h.congr hkeeps Ended.removeHead
  | close t c =>
      exact h.congr (fun _ _ hvalue => hvalue.update id) fun hended =>
        hended.update (fun _ => rfl) fun hempty _ => hempty
  | list c b =>
      rcases waitAfter_cases hr ha.2 with
        hw | ⟨i, o, -, hb, hw⟩ | ⟨u, i, r, rfl, hb, hw⟩
      · change Served cfg.channels s.channel (s.waitAfter cfg c b)
        rw [hw]
        exact h
      · change Served cfg.channels s.channel (s.waitAfter cfg c b)
        rw [hw]
        exact hstep hb trivial
      · exact hstep hb hkeeps
  | _ => exact h

end Runs

end Select
end Ethreads
