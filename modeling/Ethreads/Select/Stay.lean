import Mathlib.Data.Fintype.Option
import Ethreads.Select.Yield

/-!
# A select that stays suspended

Neither `ready_impl` nor the re-check of a select looks at the closed flags.
A select that registers with channels whose `close` has been and gone is not
woken any more; it is as long as, when its re-check gives up, a `close` of one
of the channels is still to come to its node.
-/

namespace Ethreads
namespace Select

open ReceiveAwaiter (Channel Wait)

variable {ι α γ ν τ : Type*}

/-- A thread in `close` has still to take the waiters of the channel out of the
list. -/
def State.Sweeping (s : State ι α γ ν τ) (c : ι) : Prop :=
  ∃ t, s.pc t = .wakeAll c ∨ (s.lists c).pc (some t) = .exchange

/-- Node `i` is not in the list of the channel, or will be taken out of it when
the channel is closed. -/
def State.ReachedAt (s : State ι α γ ν τ) (c : ι) (i : ℕ) : Prop :=
  (s.lists c).place (.inl i) ≠ .listed ∨ (s.channel c).closed = false ∨
    s.Sweeping c

/-- Some node of the select has been taken out of its list, or will be. -/
def State.Reached (cfg : Config ι γ ν) (s : State ι α γ ν τ) : Prop :=
  ∃ i : Fin cfg.channels.length, s.ReachedAt cfg.channels[i] i

/-- The re-check gives up only while the select is still within the reach of
some `close`, or of a thread that has taken out a node of it already. -/
def GivesUpInTime (cfg : Config ι γ ν) (s : State ι α γ ν τ) :
    Action ι α γ ν τ → Prop
  | .step (.rechecked _ _) => s.Reached cfg
  | _ => True

/-- The condition on the steps of a run. -/
def Timely [DecidableEq ι] (cfg : Config ι γ ν) (s : State ι α γ ν τ)
    (a : Action ι α γ ν τ) : Prop :=
  KeepsLists s a ∧ KeepsValue cfg s a ∧ GivesUpInTime cfg s a

/-- The coroutine is suspended and not scheduled, although all channels are
closed and drained and no other thread is inside a call. -/
def State.Stuck (cfg : Config ι γ ν) (s : State ι α γ ν τ) : Prop :=
  s.wait.suspend = .finished ∧ s.wait.resume = .waiting ∧
    s.wait.scheduled = false ∧ Ended cfg.channels s.channel ∧
      ∀ t, s.pc t = .idle

/-- What a select returns is a value unless all its channels are closed and
drained, and then it does not stay suspended. -/
structure State.NeverFails (cfg : Config ι γ ν) (s : State ι α γ ν τ) :
    Prop where
  yields : s.Yields cfg
  resumes : ¬s.Stuck cfg

section Decide

variable [DecidableEq ι] [DecidableEq α] [DecidableEq γ] [DecidableEq ν]
  [DecidableEq τ] [Fintype ι] [Fintype τ]

instance (s : State ι α γ ν τ) (a : Action ι α γ ν τ) :
    Decidable (KeepsLists s a) := by
  induction a using Action.casesOn <;> dsimp only [KeepsLists] <;>
    infer_instance

instance (s : State ι α γ ν τ) (c : ι) : Decidable (s.Sweeping c) :=
  inferInstanceAs (Decidable (∃ _, _ ∨ _))

instance (s : State ι α γ ν τ) (c : ι) (i : ℕ) :
    Decidable (s.ReachedAt c i) :=
  inferInstanceAs (Decidable (_ ∨ _ ∨ _))

instance (cfg : Config ι γ ν) (s : State ι α γ ν τ) :
    Decidable (s.Reached cfg) :=
  inferInstanceAs (Decidable (∃ i : Fin cfg.channels.length,
    s.ReachedAt cfg.channels[i] i))

instance (cfg : Config ι γ ν) (s : State ι α γ ν τ)
    (a : Action ι α γ ν τ) : Decidable (GivesUpInTime cfg s a) := by
  induction a using Action.casesOn with
  | step b =>
      induction b using ReceiveAwaiter.Step.casesOn <;>
        dsimp only [GivesUpInTime] <;> infer_instance
  | _ => exact inferInstanceAs (Decidable True)

instance (cfg : Config ι γ ν) (s : State ι α γ ν τ)
    (a : Action ι α γ ν τ) : Decidable (Timely cfg s a) :=
  inferInstanceAs (Decidable (_ ∧ _ ∧ _))

instance (cfg : Config ι γ ν) (s : State ι α γ ν τ) :
    Decidable (s.Stuck cfg) :=
  inferInstanceAs (Decidable (_ ∧ _ ∧ _ ∧ _ ∧ _))

end Decide

/-! ## The invariant -/

/-- While the coroutine waits for its resumption, its nodes have been pushed,
and some waking thread has one or will. -/
structure Covered (cfg : Config ι γ ν) (s : State ι α γ ν τ) : Prop where
  pushed : s.wait.resume = .waiting → s.wait.IsReady ∨
    (∃ k, s.wait.suspend = .addNode k) ∨ s.wait.registered = true ∨
      cfg.channels = []
  reached : s.wait.suspend = .finished → s.wait.resume = .waiting →
    s.fired none = true ∨ s.Reached cfg

theorem covered_initialState (cfg : Config ι γ ν)
    (channel : ι → Channel α) :
    Covered cfg (initialState ι γ ν τ channel) where
  pushed _ := .inl trivial
  reached h := nomatch h

/-- A select within reach does not stay suspended. -/
theorem Covered.not_stuck {cfg : Config ι γ ν} {s : State ι α γ ν τ}
    (hr : Registered cfg s) (h : Covered cfg s) : ¬s.Stuck cfg := by
  rintro ⟨hs, hwaiting, hscheduled, hended, hidle⟩
  have hunfired : s.fired none = false := hr.gate.trans hscheduled
  have hpcs : ∀ c u, (s.lists c).pc u = .idle := by
    intro c u
    cases u with
    | some t => exact hr.idle (by rw [hidle t]; rfl) c
    | none =>
        by_contra hpc
        obtain ⟨i, hadd, -⟩ := hr.registers c hpc
        cases hs.symm.trans hadd
  obtain ⟨i, hi⟩ := (h.reached hs hwaiting).resolve_left (by simp [hunfired])
  have hchannel : cfg.channels[(i : ℕ)]? = some cfg.channels[i] :=
    List.getElem?_eq_getElem i.isLt
  rcases hi with hplace | hopen | ⟨t, ht | ht⟩
  · have hregistered : s.wait.registered = true := by
      rcases h.pushed hwaiting with hready | ⟨k, hk⟩ | hregistered | hnil
      · simp [Wait.IsReady, hs] at hready
      · cases hs.symm.trans hk
      · exact hregistered
      · exact absurd i.isLt (by simp [hnil])
    have hpushed : Pushed s.wait i :=
      ⟨hregistered, fun k hk => by cases hs.symm.trans hk⟩
    rcases hr.pushed i _ hchannel hpushed with hfired | hlisted | ⟨u, hu⟩
    · cases hunfired.symm.trans hfired
    · exact hplace hlisted
    · obtain ⟨ns, hholds, hns⟩ := ((hr.owned cfg.channels[i]).owns u).taken
      rw [show (s.view cfg.channels[i]).pc u = .idle from hpcs _ u] at hholds
      cases hholds
      exact List.not_mem_nil ((hns.2 (.inl i)).mpr hu)
  · have hclosed := (hended _ (List.getElem_mem i.isLt)).1
    cases hopen.symm.trans hclosed
  · cases (hidle t).symm.trans ht
  · cases (hpcs _ (some t)).symm.trans ht

/-! ## Steps -/

section Steps

variable [DecidableEq ι] [DecidableEq γ] [DecidableEq ν] [DecidableEq τ]
  {cfg : Config ι γ ν} {s : State ι α γ ν τ} {a : Action ι α γ ν τ} {c : ι}
  {i : ℕ}

omit [DecidableEq ι] [DecidableEq γ] [DecidableEq ν] [DecidableEq τ] in
/-- A step that puts no node of the select back, opens no channel, and keeps
the threads in `close` that have still to take out the waiters. -/
theorem State.ReachedAt.mono {s' : State ι α γ ν τ} (h : s.ReachedAt c i)
    (hplace : (s'.lists c).place (.inl i) = .listed →
      (s.lists c).place (.inl i) = .listed)
    (hclosed : (s.channel c).closed = false → s'.ReachedAt c i)
    (hsweeping : ∀ t, s.pc t = .wakeAll c ∨
      (s.lists c).pc (some t) = .exchange → s'.ReachedAt c i) :
    s'.ReachedAt c i := by
  rcases h with hnot | hopen | ⟨t, ht⟩
  · exact .inl fun hlisted => hnot (hplace hlisted)
  · exact hclosed hopen
  · exact hsweeping t ht

omit [DecidableEq ι] [DecidableEq γ] [DecidableEq ν] in
theorem State.ReachedAt.goto {t : τ} {q : Pc ι} (h : s.ReachedAt c i)
    (channel : ι → Channel α) (ht : s.pc t ≠ .wakeAll c)
    (hclosed : (s.channel c).closed = false →
      (channel c).closed = false ∨ q = .wakeAll c) :
    State.ReachedAt
      { s with channel := channel, pc := Function.update s.pc t q } c i := by
  refine h.mono id (fun hopen => ?_) fun u hu => .inr (.inr ⟨u, ?_⟩)
  · rcases hclosed hopen with hopen | rfl
    · exact .inr (.inl hopen)
    · exact .inr (.inr ⟨t, .inl (Function.update_self ..)⟩)
  · rcases hu with hu | hu
    · have hne : u ≠ t := by
        rintro rfl
        exact ht hu
      exact .inl ((Function.update_of_ne hne ..).trans hu)
    · exact .inr hu

theorem reachedAt_list (hr : Registered cfg s)
    (hs : ∀ k, s.wait.suspend ≠ .addNode k) {d : ι}
    {b : AsyncPrimitive.Action (Option τ) (ℕ ⊕ ν) (Option γ)}
    (hrun : b.runner.isSome = true) (hb : s.ListEnabled cfg d b)
    (h : s.ReachedAt c i) :
    State.ReachedAt
      { s.listNext cfg d b with wait := s.waitAfter cfg d b } c i := by
  obtain ⟨u, hu⟩ := Option.isSome_iff_exists.mp hrun
  refine h.mono (fun hlisted => ?_) (fun hopen => .inr (.inl hopen))
    fun t ht => ?_
  · rcases place_list_cases hr hu hb c i with
      hsame | ⟨-, rfl, hadding, ⟨o, rfl⟩, -⟩ | ⟨hold, -⟩ | ⟨-, -, hnew⟩
    · exact hsame.symm.trans hlisted
    · obtain ⟨k, hk, -⟩ := hr.registers d (by
        rw [show (s.lists d).pc none = _ from hb.1]
        nofun)
      exact absurd hk (hs k)
    · exact hold
    · rcases hnew with hnew | hnew <;> exact nomatch hnew.symm.trans hlisted
  · rcases ht with ht | ht
    · exact .inr (.inr ⟨t, .inl ht⟩)
    · by_cases hself : c = d ∧ u = some t
      · obtain ⟨rfl, rfl⟩ := hself
        refine .inl fun hlisted => ?_
        change ((s.listNext cfg c b).lists c).place (.inl i) = .listed
          at hlisted
        rw [AsyncPrimitive.eq_exchange hb hu ht, listNext_self] at hlisted
        exact AsyncPrimitive.place_exchange _ _ _ _ hlisted
      · exact .inr (.inr ⟨t, .inr ((pc_list_of_ne hu hself).trans ht)⟩)

theorem reachedAt_call {t : τ} {q : Pc ι} {d : ι}
    {b : AsyncPrimitive.Action (Option τ) (ℕ ⊕ ν) (Option γ)}
    (hagent : b.agent = some (some t)) (h : s.ReachedAt c i)
    (hidle : (s.lists c).pc (some t) = .idle)
    (hplace : ∀ i, (AsyncPrimitive.next cfg.nodeGate (s.view d) b).place
      (.inl i) = (s.lists d).place (.inl i))
    (hcall : s.pc t = .wakeAll c → d = c ∧
      (AsyncPrimitive.next cfg.nodeGate (s.view d) b).pc (some t) =
        .exchange) :
    ((s.listNext cfg d b).goto t q).ReachedAt c i := by
  refine h.mono (fun hlisted => ?_) (fun hopen => .inr (.inl hopen))
    fun u hu => .inr (.inr ?_)
  · change ((s.listNext cfg d b).lists c).place (.inl i) = .listed at hlisted
    by_cases hd : c = d
    · subst hd
      rw [listNext_self] at hlisted
      exact (hplace i).symm.trans hlisted
    · rwa [listNext_of_ne hd] at hlisted
  · by_cases hut : u = t
    · subst hut
      rcases hu with hu | hu
      · obtain ⟨rfl, hpc⟩ := hcall hu
        refine ⟨u, .inr ?_⟩
        change ((s.listNext cfg d b).lists d).pc (some u) = .exchange
        rw [listNext_self]
        exact hpc
      · exact nomatch hidle.symm.trans hu
    · refine ⟨u, hu.imp (fun hu => ?_) fun hu => ?_⟩
      · exact (Function.update_of_ne hut ..).trans hu
      · refine (pc_listNext fun _ hb => hut ?_).trans hu
        exact Option.some.inj (Option.some.inj (hb.symm.trans hagent))

/-- Once `suspend_impl` has returned, what a `close` reaches stays within
reach. -/
theorem reachedAt_next (hr : Registered cfg s)
    (hs : s.wait.suspend = .finished) (ha : Enabled cfg s a)
    (h : s.ReachedAt c i) : (next cfg s a).ReachedAt c i := by
  have hnot : ∀ k, s.wait.suspend ≠ .addNode k := by
    intro k hk
    exact nomatch hs.symm.trans hk
  have hopened : ∀ {d ch}, ((s.channel d).closed = false →
      ch.closed = false) → (s.channel c).closed = false →
        (Function.update s.channel d ch c).closed = false := by
    intro d ch hkept hopen
    by_cases hc : c = d
    · subst hc
      rw [Function.update_self]
      exact hkept hopen
    · rwa [Function.update_of_ne hc]
  have hkeep : ∀ {t q}, s.pc t = q → q ≠ .wakeAll c → s.pc t ≠ .wakeAll c :=
    fun ht hq hw => hq (ht.symm.trans hw)
  cases a with
  | step b =>
      refine h.mono id (fun hopen => .inr (.inl ?_))
        fun t ht => .inr (.inr ⟨t, ht⟩)
      cases b with
      | readyReceive k d temp | recheck k d temp | receive k d temp =>
          exact hopened id hopen
      | _ => exact hopen
  | callAdd k d => exact absurd ha.1 (hnot k)
  | exchangeWon | exchangeLost => exact nomatch hs.symm.trans ha.1
  | send t d v =>
      exact h.goto _ (hkeep ha.1 nofun) fun hopen => .inl (hopened id hopen)
  | trySend t d v =>
      exact h.mono id (fun hopen => .inr (.inl (hopened id hopen)))
        fun u hu => .inr (.inr ⟨u, hu⟩)
  | receive t d =>
      exact h.mono id (fun hopen => .inr (.inl (hopened id hopen)))
        fun u hu => .inr (.inr ⟨u, hu⟩)
  | close t d =>
      refine h.goto _ (hkeep ha nofun) fun hopen => ?_
      by_cases hc : c = d
      · exact .inr (hc ▸ rfl)
      · refine .inl ?_
        change (Function.update s.channel d _ c).closed = false
        rwa [Function.update_of_ne hc]
  | callWakeOne t d =>
      refine reachedAt_call rfl h (hr.idle (by rw [ha.1]; rfl) c)
        (fun _ => rfl) fun hw => ?_
      exact nomatch ha.1.symm.trans hw
  | callWakeAll t d =>
      refine reachedAt_call rfl h (hr.idle (by rw [ha.1]; rfl) c)
        (fun _ => rfl) fun hw => ?_
      cases ha.1.symm.trans hw
      exact ⟨rfl, Function.update_self ..⟩
  | add t d n =>
      refine reachedAt_call rfl h (hr.idle (by rw [ha.1]; rfl) c)
        (fun k => ?_) fun hw => nomatch ha.1.symm.trans hw
      change Function.update (s.lists d).place (.inr n) (.adding (some t))
        (.inl k) = _
      exact Function.update_of_ne Sum.inl_ne_inr ..
  | list d b => exact reachedAt_list hr hnot ha.1 ha.2 h
  | returned t d =>
      refine h.goto s.channel (fun hw => ?_) .inl
      have hinside : (s.pc t).inside = some d := ha.1
      rw [hw] at hinside
      exact nomatch hinside
  | fire g => exact h
  | resume d n =>
      refine h.mono (fun hlisted => ?_) (fun hopen => .inr (.inl hopen))
        fun t ht => .inr (.inr ⟨t, ht.imp id fun ht => ?_⟩)
      · change ((s.listNext cfg d _).lists c).place (.inl i) = .listed
          at hlisted
        by_cases hd : c = d
        · subst hd
          rw [listNext_self] at hlisted
          change Function.update (s.lists c).place (.inr n) .outside
            (.inl i) = .listed at hlisted
          rwa [Function.update_of_ne Sum.inl_ne_inr] at hlisted
        · rwa [listNext_of_ne hd] at hlisted
      · have hpc : ((s.listNext cfg d (.resume (.inr n))).lists c).pc
            (some t) = (s.lists c).pc (some t) := pc_listNext fun _ => nofun
        exact hpc.trans ht

omit [DecidableEq ι] [DecidableEq γ] [DecidableEq ν] in
/-- Once the awaiter has left `ready_impl`, it has registered or will. -/
theorem pushed_step {x : Wait α} {b : ReceiveAwaiter.Step ι α}
    {channel : ι → Channel α}
    (hbegun : ∀ k, x.suspend = .addNode k → k = 0 ∨ x.registered = true)
    (h : x.resume = .waiting → x.IsReady ∨ (∃ k, x.suspend = .addNode k) ∨
      x.registered = true ∨ cfg.channels = [])
    (hb : x.Enabled cfg.await channel b)
    (hwaiting : (x.next cfg.await b).resume = .waiting) :
    (x.next cfg.await b).IsReady ∨
      (∃ k, (x.next cfg.await b).suspend = .addNode k) ∨
        (x.next cfg.await b).registered = true ∨ cfg.channels = [] := by
  have hlater : ∀ {q}, x.suspend = q →
      (match q with | .idle | .ready _ | .addNode _ => False | _ => True) →
        x.resume = .waiting → x.registered = true ∨ cfg.channels = [] := by
    intro q hq hlate hw
    rcases h hw with hready | ⟨k, hk⟩ | hdone
    · unfold Wait.IsReady at hready
      rw [hq] at hready
      cases q <;> first | exact absurd hlate id | exact absurd hready id
    · rw [← hq, hk] at hlate
      exact absurd hlate id
    · exact hdone
  cases b with
  | coAwait => exact .inl trivial
  | readyReceive i c temp =>
      cases temp with
      | some v => exact nomatch hwaiting
      | none => exact .inl trivial
  | readyTrue i => exact absurd hb.2.2 id
  | readyFalse i => exact .inr (.inl ⟨0, rfl⟩)
  | addTimer => exact .inr (.inr (.inl rfl))
  | addNode i c => exact .inr (.inl ⟨i + 1, rfl⟩)
  | added i =>
      refine .inr (.inr ?_)
      rcases hbegun i hb.1 with rfl | hregistered
      · refine .inr (List.eq_nil_of_length_eq_zero ?_)
        exact Nat.le_zero.mp (List.getElem?_eq_none_iff.mp hb.2)
      · exact .inl hregistered
  | recheck i c temp => exact .inr (.inr (hlater hb.1 trivial hwaiting))
  | storeRecheck i temp | storeIndex i | exchange =>
      exact .inr (.inr (hlater hb trivial hwaiting))
  | found i | notFound i | rechecked i closed =>
      exact .inr (.inr (hlater hb.1 trivial hwaiting))
  | fire => exact h hwaiting
  | _ => exact nomatch hwaiting

theorem covered_next (hr : Registered cfg s) (h : Covered cfg s)
    (ha : Enabled cfg s a) (hgives : GivesUpInTime cfg s a) :
    Covered cfg (next cfg s a) := by
  have hreached : s.wait.suspend = .finished → s.wait.resume = .waiting →
      (s.fired none = true → (next cfg s a).fired none = true) →
      (next cfg s a).fired none = true ∨ (next cfg s a).Reached cfg := by
    intro hs hw hfired
    refine (h.reached hs hw).imp hfired ?_
    rintro ⟨i, hi⟩
    exact ⟨i, reachedAt_next hr hs ha hi⟩
  have hstep : ∀ {b : ReceiveAwaiter.Step ι α},
      s.wait.Enabled cfg.await s.channel b →
      (s.wait.next cfg.await b).resume = .waiting →
      (s.wait.next cfg.await b).IsReady ∨
        (∃ k, (s.wait.next cfg.await b).suspend = .addNode k) ∨
          (s.wait.next cfg.await b).registered = true ∨
            cfg.channels = [] :=
    fun hb hw => pushed_step hr.begun h.pushed hb hw
  cases a with
  | step b =>
      refine ⟨fun hw => hstep ha.2 hw, fun hs hw => ?_⟩
      cases b with
      | rechecked i closed => exact .inr hgives
      | readyReceive i c temp => cases temp <;> first | cases hw | cases hs
      | readyTrue i => exact absurd ha.2.2.2 id
      | addTimer | addNode | exchange | fire => cases ha.1
      | coAwait | readyFalse | added | recheck | storeRecheck | found
      | notFound | storeIndex => cases hs
      | _ => cases hw
  | exchangeWon =>
      refine ⟨fun hw => hstep (b := .exchange) ha.1 hw, fun _ _ => .inl ?_⟩
      change Function.update s.fired none true none = true
      exact Function.update_self ..
  | exchangeLost =>
      exact ⟨fun hw => hstep (b := .exchange) ha.1 hw, fun _ _ => .inl ha.2⟩
  | list c b =>
      have hwait : (next cfg s (.list c b)).wait = s.waitAfter cfg c b := rfl
      constructor
      · intro hw
        rw [hwait] at hw ⊢
        rcases waitAfter_cases hr ha.2 with
          hsame | ⟨i, o, -, hb, hnext⟩ | ⟨u, i, r, -, hb, hnext⟩
        · rw [hsame] at hw ⊢
          exact h.pushed hw
        · rw [hnext] at hw ⊢
          exact hstep hb hw
        · rw [hnext] at hw ⊢
          exact hstep hb hw
      · intro hs hw
        rw [hwait] at hs hw
        have hold : s.wait.suspend = .finished ∧
            s.wait.resume = .waiting := by
          rcases waitAfter_cases hr ha.2 with
            hsame | ⟨i, o, -, hb, hnext⟩ | ⟨u, i, r, -, hb, hnext⟩
          · rw [hsame] at hs hw
            exact ⟨hs, hw⟩
          · rw [hnext] at hs
            exact nomatch hs
          · rw [hnext] at hs hw
            exact ⟨hs, hw⟩
        exact hreached hold.1 hold.2 fired_listNext
  | fire g =>
      refine ⟨h.pushed, fun hs hw => hreached hs hw fun hfired => ?_⟩
      change Function.update s.fired (some g) true none = true
      rwa [Function.update_of_ne (Option.some_ne_none g).symm]
  | _ =>
      exact ⟨h.pushed, fun hs hw => hreached hs hw id⟩

end Steps

/-- In every run whose steps meet the condition a select does not fail. -/
theorem neverFails [DecidableEq ι] [DecidableEq γ] [DecidableEq ν]
    [DecidableEq τ] (cfg : Config ι γ ν) :
    ∀ s : State ι α γ ν τ,
      (system cfg α τ).ReachableWhere (Timely cfg) s → s.NeverFails cfg := by
  intro s hs
  have hinvariant : Registered cfg s ∧
      Served cfg.channels s.channel s.wait ∧ Covered cfg s := by
    refine hs.invariant (fun s => Registered cfg s ∧
      Served cfg.channels s.channel s.wait ∧ Covered cfg s) ?_
      fun s a ⟨hr, hserved, hcovered⟩ ha hP =>
        ⟨registered_next hr ha hP.1,
          served_next_of_registered hr hserved ha hP.2.1,
          covered_next hr hcovered ha hP.2.2⟩
    rintro s ⟨channel, rfl⟩
    exact ⟨registered_initialState cfg channel,
      served_initial cfg.channels channel, covered_initialState cfg channel⟩
  exact ⟨hinvariant.2.1.yields, hinvariant.2.2.not_stuck hinvariant.1⟩

/-! ## Schedules with two channels and one other thread -/

section Schedules

def twoChannels : Config (Fin 2) (Fin 1) (Fin 1) where
  channels := [0, 1]
  gate := fun _ => none

/-- Two open channels without values, before anybody waits. -/
def openChannels : State (Fin 2) ℕ (Fin 1) (Fin 1) (Fin 1) :=
  initialState _ _ _ _ fun _ => ⟨[], false⟩

/-- A schedule for two channels. -/
abbrev Schedule := List (Action (Fin 2) ℕ (Fin 1) (Fin 1) (Fin 1))

/-- `suspend_impl` pushes node `i` into an empty list. -/
def pushes (i : Fin 2) :
    List (Action (Fin 2) ℕ (Fin 1) (Fin 1) (Fin 1)) :=
  [.callAdd i i, .list i (.addLoad none (.inl i)),
    .list i (.addLink none (.inl i) none),
    .list i (.addCas none (.inl i) none)]

/-- The coroutine finds nothing and suspends itself. -/
def suspends : List (Action (Fin 2) ℕ (Fin 1) (Fin 1) (Fin 1)) :=
  ([.step .coAwait, .step (.readyReceive 0 0 none),
    .step (.readyReceive 1 1 none), .step (.readyFalse 2)] : Schedule) ++
  (pushes 0 ++ (pushes 1 ++
    ([.step (.added 2), .step (.recheck 0 0 none),
      .step (.storeRecheck 0 none), .step (.notFound 0),
      .step (.recheck 1 1 none), .step (.storeRecheck 1 none),
      .step (.notFound 1), .step (.rechecked 2 false)] : Schedule)))

/-- A value is sent to the second channel, and the coroutine receives it. -/
def sendsToSecond : List (Action (Fin 2) ℕ (Fin 1) (Fin 1) (Fin 1)) :=
  suspends ++
    ([.send 0 1 7, .callWakeOne 0 1, .list 1 (.wakeLoad (some 0)),
      .list 1 (.wakeNext (some 0) (.inl 1)),
      .list 1 (.wakeCas (some 0) (.inl 1) none),
      .list 1 (.schedule (some 0) (.inl 1) none), .returned 0 1,
      .step .resume, .step .hasNoResult, .step (.receive 0 0 none),
      .step (.storeReceived 0 none), .step (.checkEmpty (some 0)),
      .step (.receive 1 1 (some 7)), .step (.storeReceived 1 (some 7)),
      .step (.checkFound (some 1)), .step (.moveOut (some 1))] : Schedule)

theorem neverFails_sendsToSecond :
    ((system twoChannels ℕ (Fin 1)).after openChannels
      sendsToSecond).NeverFails twoChannels :=
  neverFails twoChannels _
    (TransitionSystem.Executes.reachableWhere (.init ⟨_, rfl⟩) (by decide))

/-- The first channel is closed, and the coroutine finds nothing. -/
def closesFirst : List (Action (Fin 2) ℕ (Fin 1) (Fin 1) (Fin 1)) :=
  suspends ++
    ([.close 0 0, .callWakeAll 0 0, .list 0 (.exchange (some 0)),
      .list 0 (.walkNext (some 0) (.inl 0)),
      .list 0 (.schedule (some 0) (.inl 0) none), .returned 0 0,
      .step .resume, .step .hasNoResult, .step (.receive 0 0 none),
      .step (.storeReceived 0 none), .step (.checkEmpty (some 0)),
      .step (.receive 1 1 none), .step (.storeReceived 1 none),
      .step (.checkEmpty (some 1)), .step (.giveUp 2 false)] : Schedule)

/-- Both channels are closed before the coroutine suspends itself. -/
def closesBefore : List (Action (Fin 2) ℕ (Fin 1) (Fin 1) (Fin 1)) :=
  ([.close 0 0, .callWakeAll 0 0, .list 0 (.exchange (some 0)), .returned 0 0,
    .close 0 1, .callWakeAll 0 1, .list 1 (.exchange (some 0)),
    .returned 0 1] : Schedule) ++ suspends

/-- A select throws although its second channel is open, and one whose channels
are closed and drained stays suspended. -/
theorem not_forall_neverFails :
    (¬∀ s, (system twoChannels ℕ (Fin 1)).Reachable s →
      s.Yields twoChannels) ∧
    ¬∀ s, (system twoChannels ℕ (Fin 1)).Reachable s →
      ¬s.Stuck twoChannels := by
  refine ⟨fun hall => ?_, fun hall => ?_⟩
  · have hyields := hall _ (TransitionSystem.Executes.reachable
      (s := openChannels) (l := closesFirst) (.init ⟨_, rfl⟩) (by decide))
    rcases hyields .noChannelHasData (by decide) with ⟨i, v, hout⟩ | hended
    · exact nomatch hout
    · exact absurd (hended 1 (by decide)) (by decide)
  · refine hall _ (TransitionSystem.Executes.reachable (s := openChannels)
      (l := closesBefore) (.init ⟨_, rfl⟩) (by decide)) ?_
    decide

end Schedules

end Select
end Ethreads
