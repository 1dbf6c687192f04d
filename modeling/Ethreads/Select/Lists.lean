import Ethreads.AsyncPrimitive.Memory
import Ethreads.ReceiveAwaiter.Delivery
import Ethreads.Select.Model

/-!
# The nodes of a select

While the lists lose and duplicate no node, node `i` of a select is outside
until `suspend_impl` pushes it into the list of channel `i`, and from then on
it is in that list or in the hands of a waking thread until `gate_` is won.
So the steps of the lists that concern the select are steps of its wait.
-/

namespace Ethreads
namespace Select

open ReceiveAwaiter (Channel Wait)
open AsyncPrimitive (Apart AddsApart)

variable {ι α γ ν τ : Type*}

/-- Nodes of other awaiters are added only when they are in no list, and
`wake_one` swings the head of a list only to the current successor. -/
def KeepsLists (s : State ι α γ ν τ) : Action ι α γ ν τ → Prop
  | .add _ _ n => ∀ c, (s.lists c).place (.inr n) = .outside
  | .list c a => AsyncPrimitive.SwingsToNext (s.view c) a
  | _ => True

/-- Node `i` has been pushed. -/
def Pushed (x : Wait α) (i : ℕ) : Prop :=
  x.registered = true ∧ ∀ k, x.suspend = .addNode k → i < k

structure Registered (cfg : Config ι γ ν) (s : State ι α γ ν τ) : Prop where
  lists : Apart s.lists s.next
  inside : ∀ c t, (s.lists c).pc (some t) ≠ .idle →
    (s.pc t).inside = some c
  registers : ∀ c, (s.lists c).pc none ≠ .idle →
    ∃ i, s.wait.suspend = .addNode i ∧ cfg.channels[i]? = some c ∧
      ((s.lists c).pc none).adding = [.inl i]
  others : ∀ c t i, .inl i ∉ ((s.lists c).pc (some t)).adding
  fresh : ∀ i, ¬Pushed s.wait i → ∀ c,
    (s.lists c).place (.inl i) = .outside ∨
      (s.lists c).place (.inl i) = .adding none
  pushed : ∀ i c, cfg.channels[i]? = some c → Pushed s.wait i →
    s.fired none = true ∨ (s.lists c).place (.inl i) = .listed ∨
      ∃ t, (s.lists c).place (.inl i) = .taken t
  begun : ∀ k, s.wait.suspend = .addNode k → k = 0 ∨ s.wait.registered = true
  gate : s.fired none = s.wait.scheduled
  unregistered : s.wait.Unregistered
  early : s.wait.Early

theorem registered_initialState (cfg : Config ι γ ν)
    (channel : ι → Channel α) :
    Registered cfg (initialState ι γ ν τ channel) where
  lists := AsyncPrimitive.apart_initialState
  inside _ _ h := absurd rfl h
  registers _ h := absurd rfl h
  others _ _ _ := List.not_mem_nil
  fresh _ _ _ := .inl rfl
  pushed _ _ _ h := nomatch h.1
  begun _ h := nomatch h
  gate := rfl
  unregistered := Wait.unregistered_initial
  early := Wait.early_initial

/-! ## Steps of the awaiter -/

section Wait

variable {cs : List ι} {channel : ι → Channel α} {x : Wait α}
  {b : ReceiveAwaiter.Step ι α}

/-- A thread that leaves `ready_impl` has pushed nothing. -/
theorem not_pushed_of_readyFalse (h : x.Unregistered) {k : ℕ}
    (hb : x.Enabled (.select cs) channel (.readyFalse k)) (i : ℕ) :
    ¬Pushed x i := by
  have hready : x.IsReady := by simp [Wait.IsReady, hb.1]
  intro hi
  cases (h hready).1.symm.trans hi.1

theorem registered_inner (hin : isInner b = true) :
    (x.next (.select cs) b).registered = x.registered := by
  cases b with
  | addTimer | addNode | exchange | fire => cases hin
  | readyReceive k c temp => cases temp <;> rfl
  | _ => rfl

theorem suspend_inner {i : ℕ} (hin : isInner b = true)
    (hb : x.Enabled (.select cs) channel b) (hi : i < cs.length)
    (hs : x.suspend = .addNode i) :
    (x.next (.select cs) b).suspend = .addNode i := by
  cases b with
  | addTimer | addNode | exchange | fire => cases hin
  | added k =>
      obtain rfl : i = k :=
        ReceiveAwaiter.SuspendPc.addNode.inj (hs.symm.trans hb.1)
      exact absurd hi (List.getElem?_eq_none_iff.mp hb.2).not_gt
  | coAwait | storeRecheck k temp | storeIndex k =>
      exact nomatch hs.symm.trans hb
  | readyReceive k c temp | readyTrue k | readyFalse k | recheck k c temp
  | found k | notFound k | rechecked k closed =>
      exact nomatch hs.symm.trans hb.1
  | _ => exact hs

theorem pushed_inner {i : ℕ} (h : x.Unregistered) (hin : isInner b = true)
    (hb : x.Enabled (.select cs) channel b) (hi : Pushed x i) :
    Pushed (x.next (.select cs) b) i := by
  refine ⟨(registered_inner hin).trans hi.1, fun k hk => ?_⟩
  cases b with
  | addTimer | addNode | exchange | fire => cases hin
  | readyFalse k => exact absurd hi (not_pushed_of_readyFalse h hb i)
  | readyReceive k c temp => cases temp <;> exact nomatch hk
  | rechecked k closed => cases closed <;> exact nomatch hk
  | coAwait | readyTrue | added | recheck | storeRecheck | found | notFound
  | storeIndex => exact nomatch hk
  | _ => exact hi.2 k hk

theorem pushed_of_inner {i : ℕ} (hin : isInner b = true)
    (hb : x.Enabled (.select cs) channel b) (hi : i < cs.length)
    (hpushed : Pushed (x.next (.select cs) b) i) : Pushed x i := by
  refine ⟨(registered_inner hin).symm.trans hpushed.1, fun k hk => ?_⟩
  by_contra hki
  have hkept := suspend_inner hin hb (by omega) hk
  exact hki (hpushed.2 k hkept)

end Wait

/-! ## Reading the invariant -/

section Reading

variable {cfg : Config ι γ ν} {s : State ι α γ ν τ} {c : ι}
  {a : AsyncPrimitive.Action (Option τ) (ℕ ⊕ ν) (Option γ)}

theorem Registered.owned (h : Registered cfg s) (c : ι) :
    AsyncPrimitive.Owned (s.view c) :=
  (h.lists.owned c).congr_fired s.fired

theorem Registered.idle (h : Registered cfg s) {t : τ}
    (ht : (s.pc t).inside = none) (c : ι) :
    (s.lists c).pc (some t) = .idle := by
  by_contra hpc
  exact nomatch (h.inside c t hpc).symm.trans ht

theorem addsApart_of_runner (hrun : a.runner.isSome = true)
    (hswings : AsyncPrimitive.SwingsToNext (s.view c) a) :
    AddsApart s.lists (s.view c) a := by
  cases a with
  | callAdd t n => cases hrun
  | wakeCas t n o => exact hswings
  | _ => trivial

theorem agent_of_runner {u : Option τ} (hu : a.runner = some u) :
    a.agent = some u := by
  cases a <;> first | exact hu | exact nomatch hu

/-- What a step of a list inside one of its functions means for the select. -/
theorem waitAfter_cases (h : Registered cfg s)
    (ha : s.ListEnabled cfg c a) :
    s.waitAfter cfg c a = s.wait ∨
      (∃ i o, a = .addCas none (.inl i) o ∧
        s.wait.Enabled cfg.await s.channel (.addNode i c) ∧
        s.waitAfter cfg c a = s.wait.next cfg.await (.addNode i c)) ∨
      ∃ u i r, a = .schedule u (.inl i) r ∧
        s.wait.Enabled cfg.await s.channel .fire ∧
        s.waitAfter cfg c a = s.wait.next cfg.await .fire := by
  cases a with
  | addCas u n o =>
      cases u with
      | some t => exact .inl rfl
      | none =>
          have hpc : (s.lists c).pc none = .addCas n o := ha.1
          obtain ⟨i, hs, hc, hadding⟩ := h.registers c (by rw [hpc]; nofun)
          rw [hpc] at hadding
          cases List.singleton_inj.mp hadding
          exact .inr (.inl ⟨i, o, rfl, ⟨hs, hc⟩, rfl⟩)
  | schedule u n r =>
      cases n with
      | inr n => exact .inl rfl
      | inl i =>
          have hplace := (h.owned c).place_of_deliver ha.1
          have hunfired : s.fired none = false := by
            simpa [State.view, Config.nodeGate] using ha.2
          have hpushed : Pushed s.wait i := by
            by_contra hnot
            rcases h.fresh i hnot c with hout | hadding
            · exact nomatch hout.symm.trans hplace
            · exact nomatch hadding.symm.trans hplace
          exact .inr (.inr ⟨u, i, r, rfl, ⟨hpushed.1,
            h.gate.symm.trans hunfired⟩, rfl⟩)
  | _ => exact .inl rfl

theorem pushed_waitAfter (h : Registered cfg s) (ha : s.ListEnabled cfg c a)
    {i : ℕ} (hi : Pushed s.wait i) : Pushed (s.waitAfter cfg c a) i := by
  rcases waitAfter_cases h ha with
    hw | ⟨j, o, -, ⟨hs, -⟩, hw⟩ | ⟨u, j, r, -, -, hw⟩
  · rw [hw]
    exact hi
  · rw [hw]
    refine ⟨rfl, fun k hk => ?_⟩
    cases hk
    exact Nat.lt_succ_of_lt (hi.2 j hs)
  · rw [hw]
    exact hi

theorem suspend_waitAfter (h : Registered cfg s)
    (ha : s.ListEnabled cfg c a) (hadd : ∀ n o, a ≠ .addCas none n o) :
    (s.waitAfter cfg c a).suspend = s.wait.suspend := by
  rcases waitAfter_cases h ha with
    hw | ⟨j, o, rfl, -, -⟩ | ⟨u, j, r, -, -, hw⟩
  · rw [hw]
  · exact absurd rfl (hadd _ o)
  · rw [hw]
    rfl

/-- A node is pushed by the last step of `add_waiter`. -/
theorem addCas_of_pushed (h : Registered cfg s) (ha : s.ListEnabled cfg c a)
    {i : ℕ} (hold : ¬Pushed s.wait i)
    (hnew : Pushed (s.waitAfter cfg c a) i) :
    cfg.channels[i]? = some c ∧ ∃ o, a = .addCas none (.inl i) o := by
  rcases waitAfter_cases h ha with
    hw | ⟨j, o, rfl, ⟨hs, hc⟩, hw⟩ | ⟨u, j, r, -, -, hw⟩
  · rw [hw] at hnew
    exact absurd hnew hold
  · rw [hw] at hnew
    have hij : i < j + 1 := hnew.2 (j + 1) rfl
    have hji : j = i := by
      by_contra hne
      refine hold ⟨(h.begun j hs).resolve_left (by omega), fun k hk => ?_⟩
      cases hs.symm.trans hk
      omega
    subst hji
    exact ⟨hc, o, rfl⟩
  · rw [hw] at hnew
    exact absurd hnew hold

theorem begun_list (h : Registered cfg s) (ha : s.ListEnabled cfg c a)
    {k : ℕ} (hk : (s.waitAfter cfg c a).suspend = .addNode k) :
    k = 0 ∨ (s.waitAfter cfg c a).registered = true := by
  rcases waitAfter_cases h ha with
    hw | ⟨i, o, -, -, hw⟩ | ⟨u, i, r, -, -, hw⟩
  · rw [hw] at hk ⊢
    exact h.begun k hk
  · rw [hw]
    exact .inr rfl
  · rw [hw] at hk ⊢
    exact h.begun k hk

end Reading

/-! ## Steps of the lists -/

section Lists

variable [DecidableEq ι] [DecidableEq γ] [DecidableEq ν] [DecidableEq τ]
  {cfg : Config ι γ ν} {s : State ι α γ ν τ} {c d : ι}
  {a : AsyncPrimitive.Action (Option τ) (ℕ ⊕ ν) (Option γ)}

@[simp] theorem listNext_self :
    (s.listNext cfg c a).lists c =
      AsyncPrimitive.next cfg.nodeGate (s.view c) a :=
  Function.update_self ..

theorem listNext_of_ne (hd : d ≠ c) :
    (s.listNext cfg c a).lists d = s.lists d :=
  Function.update_of_ne hd ..

/-- Threads that do not make the step stay where they are. -/
theorem pc_listNext {u : Option τ} (h : d = c → a.agent ≠ some u) :
    ((s.listNext cfg c a).lists d).pc u = (s.lists d).pc u := by
  by_cases hd : d = c
  · subst hd
    rw [listNext_self]
    exact AsyncPrimitive.pc_next_of_ne (h rfl)
  · rw [listNext_of_ne hd]

theorem Registered.lists_step (h : Registered cfg s)
    (ha : s.ListEnabled cfg c a)
    (hadds : AddsApart s.lists (s.view c) a) :
    Apart (s.listNext cfg c a).lists (s.listNext cfg c a).next :=
  h.lists.step ha hadds

theorem place_listNext_of_ne (hd : d ≠ c) (n : ℕ ⊕ ν) :
    ((s.listNext cfg c a).lists d).place n = (s.lists d).place n := by
  rw [listNext_of_ne hd]

/-- How a node of the select is moved inside one of the functions. -/
theorem place_list_cases (h : Registered cfg s) {u : Option τ}
    (hrun : a.runner = some u) (ha : s.ListEnabled cfg c a) (d : ι) (i : ℕ) :
    ((s.listNext cfg c a).lists d).place (.inl i) =
        (s.lists d).place (.inl i) ∨
      (d = c ∧ u = none ∧ (s.lists d).place (.inl i) = .adding none ∧
        (∃ o, a = .addCas none (.inl i) o) ∧
        ((s.listNext cfg c a).lists d).place (.inl i) = .listed) ∨
      ((s.lists d).place (.inl i) = .listed ∧
        ((s.listNext cfg c a).lists d).place (.inl i) = .taken u) ∨
      (s.lists d).place (.inl i) = .taken u ∧
        (s.listNext cfg c a).fired none = true ∧
        (((s.listNext cfg c a).lists d).place (.inl i) = .scheduled ∨
          ((s.listNext cfg c a).lists d).place (.inl i) = .outside) := by
  by_cases hd : d = c
  · subst hd
    rw [listNext_self]
    rcases AsyncPrimitive.place_next_cases (h.owned d) ha hrun (.inl i) with
      hsame | ⟨hold, ⟨o, rfl⟩, hnew⟩ | ⟨hold, hnew⟩ |
        ⟨hold, ⟨⟨r, rfl⟩, hnew⟩ | ⟨⟨r, g, rfl⟩, hnew⟩⟩
    · exact .inl hsame
    · cases u with
      | none => exact .inr (.inl ⟨rfl, rfl, hold, ⟨o, rfl⟩, hnew⟩)
      | some t =>
          refine absurd ?_ (h.others d t i)
          rw [show (s.lists d).pc (some t) = .addCas (.inl i) o from ha.1]
          exact List.mem_singleton_self _
    · exact .inr (.inr (.inl ⟨hold, hnew⟩))
    · have hfired : (s.listNext cfg d (.schedule u (.inl i) r)).fired none =
          true := by
        change Function.update s.fired none true none = true
        exact Function.update_self ..
      exact .inr (.inr (.inr ⟨hold, hfired, .inl hnew⟩))
    · obtain ⟨-, hgate, hfired⟩ := ha
      cases hgate
      exact .inr (.inr (.inr ⟨hold, hfired, .inr hnew⟩))
  · exact .inl (place_listNext_of_ne hd _)

/-- A gate that was won stays so. -/
theorem fired_listNext (hfired : s.fired none = true) :
    (s.listNext cfg c a).fired none = true := by
  have hupdate : ∀ g : Option γ, Function.update s.fired g true none = true :=
    fun g => by
      by_cases hg : g = none
      · rw [hg, Function.update_self]
      · rwa [Function.update_of_ne (Ne.symm hg)]
  cases a with
  | fire g => exact hupdate g
  | schedule u n r =>
      change AsyncPrimitive.State.firedBy _ (cfg.nodeGate n) none = true
      cases cfg.nodeGate n with
      | none => exact hfired
      | some g => exact hupdate g
  | _ => exact hfired

/-- The gate is won by nobody but the threads that schedule the select. -/
theorem fired_of_listNext (hrun : a.runner.isSome = true)
    (hfired : (s.listNext cfg c a).fired none = true) :
    s.fired none = true ∨ ∃ u i r, a = .schedule u (.inl i) r := by
  cases a with
  | schedule u n r =>
      cases n with
      | inl i => exact .inr ⟨u, i, r, rfl⟩
      | inr n =>
          left
          have hfired' : AsyncPrimitive.State.firedBy (s.view c)
            ((cfg.gate n).map some) none = true := hfired
          cases hgate : cfg.gate n with
          | none =>
              rw [hgate] at hfired'
              exact hfired'
          | some g =>
              rw [hgate] at hfired'
              exact hfired'
  | fire g => cases hrun
  | _ => exact .inl hfired

theorem pc_list_of_ne {u v : Option τ} (hu : a.runner = some u)
    (hne : ¬(d = c ∧ u = v)) :
    ((s.listNext cfg c a).lists d).pc v = (s.lists d).pc v :=
  pc_listNext fun hd hv =>
    hne ⟨hd, Option.some.inj ((agent_of_runner hu).symm.trans hv)⟩

theorem pc_ne_idle_of_list {u v : Option τ} (hu : a.runner = some u)
    (ha : s.ListEnabled cfg c a)
    (hpc : ((s.listNext cfg c a).lists d).pc v ≠ .idle) :
    (s.lists d).pc v ≠ .idle := by
  intro hidle
  by_cases hself : d = c ∧ u = v
  · obtain ⟨rfl, rfl⟩ := hself
    exact AsyncPrimitive.pc_ne_idle_of_runner (s := s.view d) hu ha hidle
  · exact hpc ((pc_list_of_ne hu hself).trans hidle)

theorem registers_list (h : Registered cfg s) {u : Option τ}
    (hu : a.runner = some u) (ha : s.ListEnabled cfg c a)
    (hpc : ((s.listNext cfg c a).lists d).pc none ≠ .idle) :
    ∃ i, (s.waitAfter cfg c a).suspend = .addNode i ∧
      cfg.channels[i]? = some d ∧
        (((s.listNext cfg c a).lists d).pc none).adding = [.inl i] := by
  obtain ⟨i, hs, hd, hadding⟩ :=
    h.registers d (pc_ne_idle_of_list hu ha hpc)
  by_cases hself : d = c ∧ u = none
  · obtain ⟨rfl, rfl⟩ := hself
    rw [listNext_self] at hpc ⊢
    rcases AsyncPrimitive.adding_next_cases ha hu hadding with
      ⟨hsame, hadd⟩ | ⟨hidle, -⟩
    · exact ⟨i, (suspend_waitAfter h ha hadd).trans hs, hd, hsame⟩
    · exact absurd hidle hpc
  · rw [pc_list_of_ne hu hself]
    refine ⟨i, (suspend_waitAfter h ha fun n o hadd => hself ?_).trans hs,
      hd, hadding⟩
    subst hadd
    cases hu
    have hadds : (s.lists c).pc none = .addCas n o := ha.1
    obtain ⟨j, hs', hc, -⟩ := h.registers c (by rw [hadds]; nofun)
    cases hs.symm.trans hs'
    exact ⟨Option.some.inj (hd.symm.trans hc), rfl⟩

theorem others_list (h : Registered cfg s) {u : Option τ}
    (hu : a.runner = some u) (ha : s.ListEnabled cfg c a) (t : τ) (i : ℕ) :
    .inl i ∉ (((s.listNext cfg c a).lists d).pc (some t)).adding := by
  intro hmem
  refine h.others d t i ?_
  by_cases hself : d = c ∧ u = some t
  · obtain ⟨rfl, rfl⟩ := hself
    rw [listNext_self] at hmem
    exact AsyncPrimitive.adding_next ha hu hmem
  · rwa [pc_list_of_ne hu hself] at hmem

theorem fresh_list (h : Registered cfg s) {u : Option τ}
    (hu : a.runner = some u) (ha : s.ListEnabled cfg c a) {i : ℕ}
    (hnot : ¬Pushed (s.waitAfter cfg c a) i) :
    ((s.listNext cfg c a).lists d).place (.inl i) = .outside ∨
      ((s.listNext cfg c a).lists d).place (.inl i) = .adding none := by
  have hfresh := h.fresh i (fun hi => hnot (pushed_waitAfter h ha hi)) d
  rcases place_list_cases h hu ha d i with
    hsame | ⟨rfl, rfl, -, ⟨o, rfl⟩, -⟩ | ⟨hlisted, -⟩ | ⟨htaken, -⟩
  · rwa [← hsame] at hfresh
  · refine absurd ⟨rfl, fun k hk => ?_⟩ hnot
    cases hk
    exact Nat.lt_succ_self i
  · rw [hlisted] at hfresh
    rcases hfresh with hfresh | hfresh <;> exact nomatch hfresh
  · rw [htaken] at hfresh
    rcases hfresh with hfresh | hfresh <;> exact nomatch hfresh

theorem pushed_list (h : Registered cfg s) {u : Option τ}
    (hu : a.runner = some u) (ha : s.ListEnabled cfg c a) {i : ℕ}
    (hd : cfg.channels[i]? = some d)
    (hpushed : Pushed (s.waitAfter cfg c a) i) :
    (s.listNext cfg c a).fired none = true ∨
      ((s.listNext cfg c a).lists d).place (.inl i) = .listed ∨
        ∃ t, ((s.listNext cfg c a).lists d).place (.inl i) = .taken t := by
  by_cases hold : Pushed s.wait i
  · rcases h.pushed i d hd hold with hfired | hplace
    · exact .inl (fired_listNext hfired)
    · rcases place_list_cases h hu ha d i with
        hsame | ⟨-, -, hadding, -⟩ | ⟨-, hnew⟩ | ⟨-, hfired, -⟩
      · exact .inr (by rwa [← hsame] at hplace)
      · rw [hadding] at hplace
        rcases hplace with hplace | ⟨t, hplace⟩ <;> exact nomatch hplace
      · exact .inr (.inr ⟨u, hnew⟩)
      · exact .inl hfired
  · obtain ⟨hc, o, rfl⟩ := addCas_of_pushed h ha hold hpushed
    cases hd.symm.trans hc
    refine .inr (.inl ?_)
    rw [listNext_self]
    exact Function.update_self ..

theorem gate_list (h : Registered cfg s) (hrun : a.runner.isSome = true)
    (ha : s.ListEnabled cfg c a) :
    (s.listNext cfg c a).fired none = (s.waitAfter cfg c a).scheduled := by
  by_cases hschedule : ∃ u i r, a = .schedule u (.inl i) r
  · obtain ⟨u, i, r, rfl⟩ := hschedule
    change Function.update s.fired none true none = true
    exact Function.update_self ..
  · have hsame : (s.listNext cfg c a).fired none = s.fired none := by
      rw [Bool.eq_iff_iff]
      exact ⟨fun hfired => (fired_of_listNext hrun hfired).resolve_right
        hschedule, fired_listNext⟩
    rw [hsame, h.gate]
    rcases waitAfter_cases h ha with
      hw | ⟨i, o, -, -, hw⟩ | ⟨u, i, r, heq, -⟩
    · rw [hw]
    · rw [hw]
      rfl
    · exact absurd ⟨u, i, r, heq⟩ hschedule

theorem registered_list (h : Registered cfg s) (hrun : a.runner.isSome = true)
    (ha : s.ListEnabled cfg c a)
    (hswings : AsyncPrimitive.SwingsToNext (s.view c) a) :
    Registered cfg
      { s.listNext cfg c a with wait := s.waitAfter cfg c a } := by
  obtain ⟨u, hu⟩ := Option.isSome_iff_exists.mp hrun
  have hwait : (s.waitAfter cfg c a).Unregistered ∧
      (s.waitAfter cfg c a).Early := by
    rcases waitAfter_cases h ha with
      hw | ⟨i, o, -, hb, hw⟩ | ⟨v, i, r, -, hb, hw⟩
    · rw [hw]
      exact ⟨h.unregistered, h.early⟩
    · rw [hw]
      exact ⟨Wait.unregistered_next h.unregistered hb,
        Wait.early_next h.unregistered h.early hb⟩
    · rw [hw]
      exact ⟨Wait.unregistered_next h.unregistered hb,
        Wait.early_next h.unregistered h.early hb⟩
  exact
    { lists := h.lists_step ha (addsApart_of_runner hrun hswings)
      inside d t hpc := h.inside d t (pc_ne_idle_of_list hu ha hpc)
      registers _ hpc := registers_list h hu ha hpc
      others _ t i := others_list h hu ha t i
      fresh _ hnot _ := fresh_list h hu ha hnot
      pushed _ _ hd hpushed := pushed_list h hu ha hd hpushed
      begun _ hk := begun_list h ha hk
      gate := gate_list h hrun ha
      unregistered := hwait.1
      early := hwait.2 }

theorem registered_call (h : Registered cfg s) {t : τ} {q : Pc ι}
    (ha : s.ListEnabled cfg c a) (hadds : AddsApart s.lists (s.view c) a)
    (ht : (s.pc t).inside = none) (hq : q.inside = some c)
    (hagent : a.agent = some (some t))
    (hfired : (s.listNext cfg c a).fired = s.fired)
    (hplace : ∀ i, (AsyncPrimitive.next cfg.nodeGate (s.view c) a).place
      (.inl i) = (s.lists c).place (.inl i))
    (hadding : ∀ i, .inl i ∉
      ((AsyncPrimitive.next cfg.nodeGate (s.view c) a).pc (some t)).adding) :
    Registered cfg ((s.listNext cfg c a).goto t q) := by
  have hidle := h.idle ht
  have hother : ∀ {d u}, u ≠ some t →
      ((s.listNext cfg c a).lists d).pc u = (s.lists d).pc u :=
    fun hu => pc_listNext fun _ hu' =>
      hu (Option.some.inj (hu'.symm.trans hagent))
  have hsame : ∀ d i, ((s.listNext cfg c a).lists d).place (.inl i) =
      (s.lists d).place (.inl i) := by
    intro d i
    by_cases hd : d = c
    · rw [hd, listNext_self]
      exact hplace i
    · rw [listNext_of_ne hd]
  constructor
  · exact h.lists_step ha hadds
  · intro d u hpc
    change ((s.listNext cfg c a).lists d).pc (some u) ≠ .idle at hpc
    change (Function.update s.pc t q u).inside = some d
    by_cases hu : u = t
    · subst hu
      rw [Function.update_self, hq]
      by_contra hd
      rw [listNext_of_ne fun hdc => hd (congrArg some hdc.symm)] at hpc
      exact hpc (hidle d)
    · rw [Function.update_of_ne hu]
      rw [hother fun heq => hu (Option.some.inj heq)] at hpc
      exact h.inside d u hpc
  · intro d hpc
    change ((s.listNext cfg c a).lists d).pc none ≠ .idle at hpc
    change ∃ i, _ ∧ _ ∧
      (((s.listNext cfg c a).lists d).pc none).adding = [.inl i]
    rw [hother (u := none) nofun] at hpc ⊢
    exact h.registers d hpc
  · intro d u i
    change .inl i ∉ (((s.listNext cfg c a).lists d).pc (some u)).adding
    by_cases hu : u = t
    · subst hu
      by_cases hd : d = c
      · rw [hd, listNext_self]
        exact hadding i
      · rw [listNext_of_ne hd]
        exact h.others d u i
    · rw [hother fun heq => hu (Option.some.inj heq)]
      exact h.others d u i
  · intro i hnot d
    have hfresh := h.fresh i hnot d
    rwa [← hsame d i] at hfresh
  · intro i d hd hpushed
    have hnode := h.pushed i d hd hpushed
    rwa [← hsame d i, ← hfired] at hnode
  · exact h.begun
  · exact (congrFun hfired none).trans h.gate
  · exact h.unregistered
  · exact h.early

theorem registered_callAdd (h : Registered cfg s) {i : ℕ}
    (hs : s.wait.suspend = .addNode i) (hc : cfg.channels[i]? = some c)
    (ha : s.ListEnabled cfg c (.callAdd none (.inl i))) :
    Registered cfg (s.listNext cfg c (.callAdd none (.inl i))) := by
  have hnot : ¬Pushed s.wait i := fun hi => absurd (hi.2 i hs) (by omega)
  have hidle : ∀ d, (s.lists d).pc none = .idle := by
    intro d
    by_contra hpc
    obtain ⟨j, hs', hd, -⟩ := h.registers d hpc
    cases hs.symm.trans hs'
    cases hc.symm.trans hd
    exact hpc ha
  have hout : ∀ d, (s.lists d).place (.inl i) = .outside := by
    intro d
    refine (h.fresh i hnot d).resolve_right fun hplace => ?_
    have hmem := (((h.owned d).owns none).adding.2 _).mpr hplace
    rw [show (s.view d).pc none = .idle from hidle d] at hmem
    cases hmem
  have hplace : ∀ d j, ((s.listNext cfg c (.callAdd none (.inl i))).lists
      d).place (.inl j) = (s.lists d).place (.inl j) ∨ j = i ∧
        ((s.listNext cfg c (.callAdd none (.inl i))).lists d).place
          (.inl j) = .adding none := by
    intro d j
    by_cases hd : d = c
    · rw [hd, listNext_self]
      by_cases hj : j = i
      · subst hj
        exact .inr ⟨rfl, Function.update_self ..⟩
      · refine .inl (Function.update_of_ne (fun heq => hj ?_) ..)
        exact Sum.inl.inj heq
    · rw [listNext_of_ne hd]
      exact .inl rfl
  have hother : ∀ {d t}, ((s.listNext cfg c (.callAdd none (.inl i))).lists
      d).pc (some t) = (s.lists d).pc (some t) :=
    pc_listNext fun _ => nofun
  constructor
  · exact h.lists_step ha hout
  · intro d t hpc
    rw [hother] at hpc
    exact h.inside d t hpc
  · intro d hpc
    refine ⟨i, hs, ?_⟩
    by_cases hd : d = c
    · rw [hd, listNext_self]
      refine ⟨hc, ?_⟩
      change (Function.update (s.lists c).pc none (.addLoad (.inl i))
        none).adding = [.inl i]
      rw [Function.update_self]
      rfl
    · rw [listNext_of_ne hd] at hpc
      exact absurd (hidle d) hpc
  · intro d t j
    rw [hother]
    exact h.others d t j
  · intro j hj d
    rcases hplace d j with hsame | ⟨-, hnew⟩
    · rw [hsame]
      exact h.fresh j hj d
    · exact .inr hnew
  · intro j d hd hj
    rcases hplace d j with hsame | ⟨rfl, -⟩
    · rw [hsame]
      exact h.pushed j d hd hj
    · exact absurd hj hnot
  · exact h.begun
  · exact h.gate
  · exact h.unregistered
  · exact h.early

theorem registered_resume (h : Registered cfg s) {n : ν}
    (ha : s.ListEnabled cfg c (.resume (.inr n))) :
    Registered cfg (s.listNext cfg c (.resume (.inr n))) := by
  have hpc : ∀ {d u}, ((s.listNext cfg c (.resume (.inr n))).lists d).pc u =
      (s.lists d).pc u := pc_listNext fun _ => nofun
  have hplace : ∀ d i, ((s.listNext cfg c (.resume (.inr n))).lists d).place
      (.inl i) = (s.lists d).place (.inl i) := by
    intro d i
    by_cases hd : d = c
    · subst hd
      rw [listNext_self]
      change Function.update (s.lists d).place (.inr n) .outside (.inl i) = _
      exact Function.update_of_ne Sum.inl_ne_inr ..
    · rw [listNext_of_ne hd]
  constructor
  · exact h.lists_step ha trivial
  · intro d t hd
    rw [hpc] at hd
    exact h.inside d t hd
  · intro d hd
    rw [hpc] at hd ⊢
    exact h.registers d hd
  · intro d t i
    rw [hpc]
    exact h.others d t i
  · intro i hi d
    rw [hplace]
    exact h.fresh i hi d
  · intro i d hd hi
    rw [hplace]
    exact h.pushed i d hd hi
  · exact h.begun
  · exact h.gate
  · exact h.unregistered
  · exact h.early

/-! ## Steps outside the lists -/

omit [DecidableEq ι] [DecidableEq γ] [DecidableEq ν] in
theorem Registered.goto (h : Registered cfg s) (channel : ι → Channel α)
    {t : τ} {q : Pc ι}
    (ht : ∀ c, (s.lists c).pc (some t) = .idle) :
    Registered cfg
      { s with channel := channel, pc := Function.update s.pc t q } where
  lists := h.lists
  inside d u hpc := by
    by_cases hu : u = t
    · subst hu
      exact absurd (ht d) hpc
    · exact (congrArg _ (Function.update_of_ne hu ..)).trans
        (h.inside d u hpc)
  registers := h.registers
  others := h.others
  fresh := h.fresh
  pushed := h.pushed
  begun := h.begun
  gate := h.gate
  unregistered := h.unregistered
  early := h.early

omit [DecidableEq ι] [DecidableEq ν] [DecidableEq τ] in
theorem registered_step (h : Registered cfg s)
    {b : ReceiveAwaiter.Step ι α} {channel : ι → Channel α}
    (hin : isInner b = true)
    (hb : s.wait.Enabled cfg.await s.channel b) :
    Registered cfg
      { s with
        channel := channel
        wait := s.wait.next cfg.await b
        fired := firedAfter s.fired b } := by
  constructor
  · exact h.lists
  · exact h.inside
  · intro c hpc
    obtain ⟨i, hs, hc, hadding⟩ := h.registers c hpc
    obtain ⟨hi, -⟩ := List.getElem?_eq_some_iff.mp hc
    exact ⟨i, suspend_inner hin hb hi hs, hc, hadding⟩
  · exact h.others
  · exact fun i hi => h.fresh i fun hold =>
      hi (pushed_inner h.unregistered hin hb hold)
  · intro i c hc hi
    obtain ⟨hlt, -⟩ := List.getElem?_eq_some_iff.mp hc
    have hold := pushed_of_inner hin hb hlt hi
    cases b with
    | readyFalse k =>
        exact absurd hold (not_pushed_of_readyFalse h.unregistered hb i)
    | _ => exact h.pushed i c hc hold
  · intro k hk
    rw [show (s.wait.next cfg.await b).registered = _ from
      registered_inner hin]
    cases b with
    | addTimer | addNode | exchange | fire => cases hin
    | readyFalse j =>
        cases hk
        exact .inl rfl
    | readyReceive j c temp => cases temp <;> exact nomatch hk
    | rechecked j closed => cases closed <;> exact nomatch hk
    | coAwait | readyTrue | added | recheck | storeRecheck | found | notFound
    | storeIndex => exact nomatch hk
    | _ => exact h.begun k hk
  · cases b with
    | addTimer | addNode | exchange | fire => cases hin
    | readyFalse j =>
        change Function.update s.fired none false none = false
        exact Function.update_self ..
    | readyReceive j c temp => cases temp <;> exact h.gate
    | _ => exact h.gate
  · exact Wait.unregistered_next h.unregistered hb
  · exact Wait.early_next h.unregistered h.early hb

omit [DecidableEq ι] [DecidableEq ν] [DecidableEq τ] in
theorem registered_exchange (h : Registered cfg s)
    (hs : s.wait.suspend = .exchange) :
    Registered cfg
      { s with
        wait := s.wait.next cfg.await .exchange
        fired := Function.update s.fired none true } where
  lists := h.lists
  inside := h.inside
  registers c hpc := by
    obtain ⟨i, hs', -⟩ := h.registers c hpc
    exact nomatch hs.symm.trans hs'
  others := h.others
  fresh i hi := h.fresh i fun hold => hi ⟨hold.1, nofun⟩
  pushed _ _ _ _ :=
    .inl (Function.update_self (none : Option γ) true s.fired)
  begun _ hk := nomatch hk
  gate := Function.update_self (none : Option γ) true s.fired
  unregistered := Wait.unregistered_next h.unregistered
    (show s.wait.Enabled cfg.await s.channel .exchange from hs)
  early := Wait.early_next h.unregistered h.early
    (show s.wait.Enabled cfg.await s.channel .exchange from hs)

/-! ## The invariant -/

theorem registered_next {a : Action ι α γ ν τ} (h : Registered cfg s)
    (ha : Enabled cfg s a) (hkeeps : KeepsLists s a) :
    Registered cfg (next cfg s a) := by
  have hidle : ∀ {t}, s.pc t = .idle → ∀ c, (s.lists c).pc (some t) = .idle :=
    fun ht => h.idle (by rw [ht]; rfl)
  cases a with
  | step b => exact registered_step h ha.1 ha.2
  | callAdd i c => exact registered_callAdd h ha.1 ha.2.1 ha.2.2
  | exchangeWon => exact registered_exchange h ha.1
  | exchangeLost =>
      have hscheduled : s.wait.scheduled = true := h.gate.symm.trans ha.2
      have hnext := registered_exchange h ha.1
      rw [← ha.2, Function.update_eq_self] at hnext
      change Registered cfg
        { s with wait := { s.wait with suspend := .finished } }
      have hsame : s.wait.next cfg.await .exchange =
          { s.wait with suspend := .finished } := by
        rw [Wait.next, ← hscheduled]
      rwa [hsame] at hnext
  | send t c v => exact h.goto _ (hidle ha.1)
  | close t c => exact h.goto _ (hidle ha)
  | trySend t c v =>
      have hsame := h.goto (next cfg s (.trySend t c v)).channel (q := s.pc t)
        (hidle ha.1)
      rwa [Function.update_eq_self] at hsame
  | receive t c =>
      have hsame := h.goto (next cfg s (.receive t c)).channel (q := s.pc t)
        (hidle ha.1)
      rwa [Function.update_eq_self] at hsame
  | callWakeOne t c =>
      refine registered_call h ha.2 trivial (by rw [ha.1]; rfl) rfl rfl rfl
        (fun _ => rfl) fun i => ?_
      simp [AsyncPrimitive.next, AsyncPrimitive.State.goto,
        AsyncPrimitive.Pc.adding]
  | callWakeAll t c =>
      refine registered_call h ha.2 trivial (by rw [ha.1]; rfl) rfl rfl rfl
        (fun _ => rfl) fun i => ?_
      simp [AsyncPrimitive.next, AsyncPrimitive.State.goto,
        AsyncPrimitive.Pc.adding]
  | add t c n =>
      refine registered_call h ha.2 hkeeps (by rw [ha.1]; rfl) rfl rfl rfl
        (fun i => ?_) fun i => ?_
      · change Function.update (s.lists c).place (.inr n)
          (.adding (some t)) (.inl i) = _
        exact Function.update_of_ne Sum.inl_ne_inr ..
      · simp [AsyncPrimitive.next, AsyncPrimitive.State.goto,
          AsyncPrimitive.State.move, AsyncPrimitive.Pc.adding]
  | list c a => exact registered_list h ha.1 ha.2 hkeeps
  | returned t c =>
      refine h.goto s.channel fun d => ?_
      by_contra hpc
      cases (h.inside d t hpc).symm.trans ha.1
      exact hpc ha.2
  | fire g =>
      have hsame : Function.update s.fired (some g) true none =
          s.fired none :=
        Function.update_of_ne (Option.some_ne_none g).symm ..
      exact
        { h with
          pushed := fun i c hc hi => by
            have hnode := h.pushed i c hc hi
            rwa [← hsame] at hnode
          gate := hsame.trans h.gate }
  | resume c n => exact registered_resume h ha

theorem registered_reachable
    (hs : (system cfg α τ).ReachableWhere KeepsLists s) :
    Registered cfg s := by
  refine hs.invariant (Registered cfg) ?_ fun s a h ha hkeeps =>
    registered_next h ha hkeeps
  rintro s ⟨channel, rfl⟩
  exact registered_initialState cfg channel

end Lists

end Select
end Ethreads
