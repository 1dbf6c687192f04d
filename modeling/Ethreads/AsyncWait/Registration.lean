import Ethreads.AsyncPrimitive.Waking
import Ethreads.AsyncWait.Model

/-!
# Which coroutines are on their way through the waiter list

Every step is the step of one agent and at most one step of the waiter list.
The nodes on their way are those of coroutines that are being suspended or are
suspended; a primitive that never calls `wake_one` has each of them in exactly
one place.
-/

namespace Ethreads
namespace AsyncWait

variable {τ σ ε κ : Type*}

/-! ## What a step does -/

def Action.agent : Action τ ε κ → τ
  | operate t _ | testAgain t _ | callWait t _ _ | waitOver t _ _
  | expire t _ | coAwait t _ | readyTrue t _ | readyFalse t _ | list t _
  | recheck t | resume t _ _ => t

def State.listPart (P : Primitive σ ε κ) (s : State τ σ κ) :
    Action τ ε κ → Option (AsyncPrimitive.Action τ τ Empty)
  | .operate t e => (P.after e s.shared).call t
  | .testAgain t k => if P.Over k s.shared then some (.callWakeAll t) else none
  | .readyFalse t _ => some (.callAdd t t)
  | .list _ a => some a
  | .resume t _ _ => some (.resume t)
  | _ => none

/-- What the coroutine of an agent in `suspend_impl` waits for. -/
def Pc.awaits : Pc κ → Option κ
  | adding k | suspended k _ => some k
  | _ => none

theorem awaits_afterList (p : Pc κ) : p.afterList.awaits = p.awaits := by
  cases p <;> rfl

theorem awaits_of_afterRecheck {p : Pc κ} {k : κ}
    (h : p.afterRecheck.awaits = some k) : p.awaits = some k := by
  cases p with
  | suspended j r => exact h
  | _ => cases h

variable [DecidableEq τ] {P : Primitive σ ε κ} {s : State τ σ κ}
  {a : Action τ ε κ}

/-- Where the agent that takes a step goes on. -/
def State.pcAfter (P : Primitive σ ε κ) (s : State τ σ κ) :
    Action τ ε κ → Pc κ
  | .operate _ e => (P.after e s.shared).pc
  | .testAgain _ k => if P.Over k s.shared then .waking else .idle
  | .callWait _ k timed => .waiting k timed
  | .waitOver _ _ _ | .expire _ _ | .readyTrue _ _ => .idle
  | .coAwait _ k => .ready k
  | .readyFalse _ k => .adding k
  | .list t a =>
      if (s.listNext (some a)).pc t = .idle then (s.pc t).afterList
      else s.pc t
  | .recheck t => (s.pc t).afterRecheck
  | .resume _ _ r => .afterResume r

theorem next_pc :
    (next P s a).pc = Function.update s.pc a.agent (s.pcAfter P a) := by
  cases a with
  | testAgain t k =>
      by_cases ho : P.Over k s.shared <;>
        simp [next, State.pcAfter, ho, State.goto, Action.agent]
  | _ => rfl

theorem next_pc_self : (next P s a).pc a.agent = s.pcAfter P a := by
  rw [next_pc]
  exact Function.update_self ..

theorem next_pc_of_ne {u : τ} (hu : u ≠ a.agent) :
    (next P s a).pc u = s.pc u := by
  rw [next_pc]
  exact Function.update_of_ne hu ..

theorem awaits_next {t : τ} {k : κ}
    (hk : ((next P s a).pc t).awaits = some k) :
    (s.pc t).awaits = some k ∨ a = .readyFalse t k := by
  by_cases hta : t = a.agent
  · subst hta
    rw [next_pc_self] at hk
    cases a with
    | operate t e =>
        simp only [State.pcAfter] at hk
        cases hafter : P.after e s.shared <;> rw [hafter] at hk <;> cases hk
    | testAgain t j =>
        simp only [State.pcAfter] at hk
        split at hk <;> cases hk
    | readyFalse t j => cases hk; exact .inr rfl
    | list t b =>
        left
        simp only [State.pcAfter] at hk
        split at hk
        · rwa [awaits_afterList] at hk
        · exact hk
    | recheck t => exact .inl (awaits_of_afterRecheck hk)
    | resume t j r => cases r <;> cases hk
    | _ => cases hk
  · rw [next_pc_of_ne hta] at hk
    exact .inl hk

theorem next_list : (next P s a).list = s.listNext (s.listPart P a) := by
  cases a with
  | testAgain t k =>
      by_cases ho : P.Over k s.shared
      · simp [next, State.listPart, ho]
      · simp [next, State.listPart, ho]
        rfl
  | _ => rfl

omit [DecidableEq τ] in
theorem enabled_listPart (ha : Enabled P s a)
    {b : AsyncPrimitive.Action τ τ Empty} (hb : s.listPart P a = some b) :
    AsyncPrimitive.Enabled AsyncPrimitive.ungated s.list b := by
  cases a with
  | operate t e =>
      have hcall : (P.after e s.shared).call t = some b := hb
      cases hafter : P.after e s.shared <;> rw [hafter] at hcall <;>
        cases hcall <;> exact ha.2
  | testAgain t k =>
      simp only [State.listPart] at hb
      split at hb
      · cases hb
        exact ha.2
      · cases hb
  | readyFalse t k => cases hb; exact ha.2.2
  | list t a => cases hb; exact ha.2
  | resume t k r => cases hb; exact ha.2
  | _ => cases hb

theorem listPart_cases {b : AsyncPrimitive.Action τ τ Empty}
    (hb : s.listPart P a = some b) :
    ((∃ e, P.after e s.shared = .wakeOne) ∧ b = .callWakeOne a.agent ∨
        b = .callWakeAll a.agent) ∧ s.pcAfter P a = .waking ∨
      (∃ k, a = .readyFalse a.agent k ∧ b = .callAdd a.agent a.agent) ∨
      (∃ k r, a = .resume a.agent k r ∧ b = .resume a.agent) ∨
      a = .list a.agent b := by
  cases a with
  | operate t e =>
      have hcall : (P.after e s.shared).call t = some b := hb
      cases hafter : P.after e s.shared <;> rw [hafter] at hcall <;>
        cases hcall
      · exact .inl ⟨.inl ⟨⟨e, hafter⟩, rfl⟩, by simp [State.pcAfter, hafter,
          After.pc]⟩
      · exact .inl ⟨.inr rfl, by simp [State.pcAfter, hafter, After.pc]⟩
  | testAgain t k =>
      simp only [State.listPart] at hb
      split at hb
      · rename_i hover
        cases hb
        exact .inl ⟨.inr rfl, if_pos hover⟩
      · cases hb
  | readyFalse t k => cases hb; exact .inr (.inl ⟨k, rfl, rfl⟩)
  | list t b' => cases hb; exact .inr (.inr (.inr rfl))
  | resume t k r => cases hb; exact .inr (.inr (.inl ⟨k, r, rfl, rfl⟩))
  | _ => cases hb

theorem next_list_pc_of_ne (ha : Enabled P s a) {u : τ} (hu : u ≠ a.agent) :
    (next P s a).list.pc u = s.list.pc u := by
  rw [next_list]
  cases hb : s.listPart P a with
  | none => rfl
  | some b =>
      rcases listPart_cases hb with ⟨⟨-, rfl⟩ | rfl, -⟩ | ⟨k, -, rfl⟩ |
        ⟨k, r, -, rfl⟩ | hlist
      · exact Function.update_of_ne hu ..
      · exact Function.update_of_ne hu ..
      · exact Function.update_of_ne hu ..
      · rfl
      · rw [hlist] at ha
        have hpc : ∃ q, (AsyncPrimitive.next AsyncPrimitive.ungated s.list
            b).pc = Function.update s.list.pc a.agent q :=
          AsyncPrimitive.exists_pc_next_of_runner _ ha.1
        obtain ⟨q, hq⟩ := hpc
        exact (congrFun hq u).trans (Function.update_of_ne hu ..)

/-! ## The nodes on their way -/

/-- The program points inside a function of the waiter list. -/
def Pc.inList : Pc κ → Bool
  | adding _ | waking => true
  | _ => false

/-- The program points of a coroutine whose node is on its way. -/
def Pc.onWay : Pc κ → Bool
  | adding _ | suspended _ _ => true
  | _ => false

/-- A coroutine whose node is on its way waits for something. -/
theorem onWay_iff {p : Pc κ} : p.onWay = true ↔ ∃ k, p.awaits = some k := by
  cases p <;> simp [Pc.onWay, Pc.awaits]

/-- No operation wakes a single coroutine. -/
def Primitive.WakesAll (P : Primitive σ ε κ) : Prop :=
  ∀ e x, P.after e x ≠ .wakeOne

omit [DecidableEq τ] in
/-- The nodes on their way are those of coroutines that wait, each of them in
exactly one place. -/
structure Registered (s : State τ σ κ) : Prop where
  owned : AsyncPrimitive.Owned s.list
  onWay : ∀ t, s.list.place t ≠ .outside ↔ (s.pc t).onWay = true
  adding : ∀ t k, s.pc t = .adding k → s.list.place t = .adding t
  aligned : ∀ t, (s.pc t).inList = false → s.list.pc t = .idle
  self : ∀ t, (s.list.pc t).adding ⊆ [t]
  wakesAll : ∀ t, (s.list.pc t).wakesOne = false

omit [DecidableEq τ] in
theorem registered_initialState (x : σ) :
    Registered (initialState τ κ x) where
  owned := AsyncPrimitive.owned_initialState
  onWay _ := iff_of_false (fun h => h rfl) Bool.false_ne_true
  adding := nofun
  aligned _ _ := rfl
  self _ := List.nil_subset _
  wakesAll _ := rfl

omit [DecidableEq τ] in
theorem Registered.place_eq_outside (h : Registered s) {t : τ}
    (hpc : (s.pc t).onWay = false) : s.list.place t = .outside := by
  by_contra hplace
  have honWay := (h.onWay t).mp hplace
  rw [hpc] at honWay
  cases honWay

omit [DecidableEq τ] in
/-- Only an agent inside a function of the list makes steps of the list. -/
theorem Registered.inList_of_runner (h : Registered s) {t : τ}
    {b : AsyncPrimitive.Action τ τ Empty} (hb : b.runner = some t)
    (ha : AsyncPrimitive.Enabled AsyncPrimitive.ungated s.list b) :
    (s.pc t).inList = true := by
  by_contra hout
  exact AsyncPrimitive.pc_ne_idle_of_runner hb ha
    (h.aligned t (Bool.eq_false_iff.mpr hout))

theorem owned_next (h : Registered s) (ha : Enabled P s a) :
    AsyncPrimitive.Owned (next P s a).list := by
  rw [next_list]
  cases hb : s.listPart P a with
  | none => exact h.owned
  | some b =>
      have hen := enabled_listPart ha hb
      refine AsyncPrimitive.owned_next h.owned hen ?_ ?_
      · rcases listPart_cases hb with ⟨⟨-, rfl⟩ | rfl, -⟩ | ⟨k, hready, rfl⟩ |
          ⟨k, r, -, rfl⟩ | hlist
        · trivial
        · trivial
        · rw [hready] at ha
          exact h.place_eq_outside (by rw [ha.1]; rfl)
        · trivial
        · rw [hlist] at ha
          cases b with
          | callAdd t n => cases ha.1
          | _ => trivial
      · cases b with
        | wakeCas t n o =>
            have hone := h.wakesAll t
            rw [hen.1] at hone
            cases hone
        | _ => trivial

theorem listed_next (ha : Enabled P s a) {t : τ}
    (ht : (next P s a).list.place t = .listed) :
    s.list.place t = .listed ∨ ∃ u o, a = .list u (.addCas u t o) := by
  rw [next_list] at ht
  cases hb : s.listPart P a with
  | none =>
      rw [hb] at ht
      exact .inl ht
  | some b =>
      rw [hb] at ht
      rcases AsyncPrimitive.listed_next ht with hlisted | ⟨u, o, rfl⟩
      · exact .inl hlisted
      · rcases listPart_cases hb with ⟨⟨-, hcall⟩ | hcall, -⟩ |
          ⟨k, -, hcall⟩ | ⟨k, r, -, hcall⟩ | hlist
        · cases hcall
        · cases hcall
        · cases hcall
        · cases hcall
        · have hrun := hlist ▸ ha
          obtain rfl : u = a.agent := Option.some.inj hrun.1
          exact .inr ⟨_, o, hlist⟩

omit [DecidableEq τ] in
theorem Registered.eq_of_addCas (h : Registered s) {u n : τ} {o : Option τ}
    (ha : AsyncPrimitive.Enabled AsyncPrimitive.ungated s.list
      (.addCas u n o)) : n = u := by
  have hself := h.self u
  rw [ha.1] at hself
  simpa [AsyncPrimitive.Pc.adding] using hself

/-- A step takes in from outside at most the node of its own agent. -/
theorem place_next (h : Registered s) (ha : Enabled P s a) {t : τ}
    (ht : (next P s a).list.place t ≠ .outside) :
    s.list.place t ≠ .outside ∨ ∃ k, a = .readyFalse t k := by
  rw [next_list] at ht
  cases hb : s.listPart P a with
  | none =>
      rw [hb] at ht
      exact .inl ht
  | some b =>
      rw [hb] at ht
      rcases listPart_cases hb with ⟨⟨-, rfl⟩ | rfl, -⟩ | ⟨k, hready, rfl⟩ |
        ⟨k, r, -, rfl⟩ | hlist
      · exact .inl ht
      · exact .inl ht
      · by_cases hta : t = a.agent
        · exact .inr ⟨k, hta ▸ hready⟩
        · refine .inl fun hout => ht ?_
          exact (Function.update_of_ne hta ..).trans hout
      · by_cases hta : t = a.agent
        · refine absurd ?_ ht
          rw [hta]
          exact Function.update_self ..
        · refine .inl fun hout => ht ?_
          exact (Function.update_of_ne hta ..).trans hout
      · rw [hlist] at ha
        refine .inl fun hout => ht ?_
        exact (AsyncPrimitive.place_eq_outside_iff h.owned ha.2 ha.1 t).mpr
          hout

/-- A coroutine whose node has been on its way goes on waiting, unless it is
resumed. -/
theorem onWay_next (h : Registered s) (ha : Enabled P s a) (t : τ)
    (ht : (next P s a).list.place t ≠ .outside) :
    ((next P s a).pc t).onWay = true := by
  by_cases hta : t = a.agent
  · subst hta
    have hold : ∀ {p : Pc κ}, s.pc a.agent = p → p.onWay = false →
        (∀ k, a ≠ .readyFalse a.agent k) →
          ((next P s a).pc a.agent).onWay = true := by
      intro p hp hpc hne
      rcases place_next h ha ht with hplace | ⟨k, hk⟩
      · exact absurd (h.place_eq_outside (by rw [hp]; exact hpc)) hplace
      · exact absurd hk (hne k)
    cases a with
    | operate t e => exact hold ha.1 rfl nofun
    | testAgain t k => exact hold ha.1 rfl nofun
    | callWait t k timed => exact hold ha rfl nofun
    | waitOver t k timed => exact hold ha.1 rfl nofun
    | expire t k => exact hold ha.1 rfl nofun
    | coAwait t k => exact hold ha rfl nofun
    | readyTrue t k => exact hold ha.1 rfl nofun
    | readyFalse t k =>
        rw [next_pc_self]
        rfl
    | list t b =>
        have hin := h.inList_of_runner ha.1 ha.2
        cases hpc : s.pc t with
        | adding k =>
            rw [next_pc_self, State.pcAfter, hpc]
            split <;> rfl
        | waking => exact hold hpc rfl nofun
        | _ => rw [hpc] at hin; cases hin
    | recheck t =>
        cases hpc : s.pc t with
        | suspended k r =>
            rw [next_pc_self, State.pcAfter, hpc]
            rfl
        | resumed => exact hold hpc rfl nofun
        | _ =>
            have hr : (s.pc t).rechecks = true := ha
            rw [hpc] at hr
            cases hr
    | resume t k r =>
        refine absurd ?_ ht
        exact Function.update_self ..
  · rw [next_pc_of_ne hta]
    rcases place_next h ha ht with hplace | ⟨k, rfl⟩
    · exact (h.onWay t).mp hplace
    · exact absurd rfl hta

/-- Only the resumption of a coroutine takes its node outside. -/
theorem outside_next (h : Registered s) (ha : Enabled P s a) {t : τ}
    (ht : (next P s a).list.place t = .outside) :
    s.list.place t = .outside ∨ ∃ k r, a = .resume t k r := by
  rw [next_list] at ht
  cases hb : s.listPart P a with
  | none =>
      rw [hb] at ht
      exact .inl ht
  | some b =>
      rw [hb] at ht
      rcases listPart_cases hb with ⟨⟨-, rfl⟩ | rfl, -⟩ | ⟨k, -, rfl⟩ |
        ⟨k, r, hresume, rfl⟩ | hlist
      · exact .inl ht
      · exact .inl ht
      · by_cases hta : t = a.agent
        · rw [hta] at ht
          cases (Function.update_self ..).symm.trans ht
        · exact .inl ((Function.update_of_ne hta ..).symm.trans ht)
      · by_cases hta : t = a.agent
        · exact .inr ⟨k, r, hta ▸ hresume⟩
        · exact .inl ((Function.update_of_ne hta ..).symm.trans ht)
      · rw [hlist] at ha
        exact .inl
          ((AsyncPrimitive.place_eq_outside_iff h.owned ha.2 ha.1 t).mp ht)

/-- A coroutine that waits has its node on its way. -/
theorem place_ne_outside_next (h : Registered s) (ha : Enabled P s a) (t : τ)
    (ht : ((next P s a).pc t).onWay = true) :
    (next P s a).list.place t ≠ .outside := by
  intro hout
  obtain ⟨k, hk⟩ := onWay_iff.mp ht
  rcases outside_next h ha hout with hbefore | ⟨j, r, rfl⟩
  · rcases awaits_next hk with hold | rfl
    · exact (h.onWay t).mpr (onWay_iff.mpr ⟨k, hold⟩) hbefore
    · cases (Function.update_self ..).symm.trans hout
  · have hpc : (next P s (.resume t j r)).pc t = .afterResume r :=
      next_pc_self (a := .resume t j r)
    rw [hpc] at hk
    cases r <;> cases hk

theorem adding_next (h : Registered s) (ha : Enabled P s a) (t : τ) (k : κ)
    (ht : (next P s a).pc t = .adding k) :
    (next P s a).list.place t = .adding t := by
  by_cases hta : t = a.agent
  · subst hta
    rw [next_pc_self] at ht
    cases a with
    | operate t e =>
        simp only [State.pcAfter] at ht
        cases hafter : P.after e s.shared <;> rw [hafter] at ht <;> cases ht
    | testAgain t j =>
        simp only [State.pcAfter] at ht
        split at ht <;> cases ht
    | readyFalse t j => exact Function.update_self ..
    | list t b =>
        simp only [State.pcAfter] at ht
        split at ht
        · cases hpc : s.pc t <;> rw [hpc] at ht <;> cases ht
        · rename_i hbusy
          rcases AsyncPrimitive.place_next_of_adding h.owned ha.2 ha.1
            (h.adding t k ht) with hplace | ⟨o, rfl⟩
          · exact hplace
          · exact absurd (Function.update_self ..) hbusy
    | recheck t =>
        simp only [State.pcAfter] at ht
        cases hpc : s.pc t <;> rw [hpc] at ht <;> cases ht
    | resume t j r => cases r <;> cases ht
    | _ => cases ht
  · rw [next_pc_of_ne hta] at ht
    have hold := h.adding t k ht
    rw [next_list]
    cases hb : s.listPart P a with
    | none => exact hold
    | some b =>
        rcases listPart_cases hb with ⟨⟨-, rfl⟩ | rfl, -⟩ | ⟨j, -, rfl⟩ |
          ⟨j, r, -, rfl⟩ | hlist
        · exact hold
        · exact hold
        · exact (Function.update_of_ne hta ..).trans hold
        · exact (Function.update_of_ne hta ..).trans hold
        · rw [hlist] at ha
          rcases AsyncPrimitive.place_next_of_adding h.owned ha.2 ha.1 hold
            with hplace | ⟨o, rfl⟩
          · exact hplace
          · exact absurd (Option.some.inj ha.1) hta

theorem self_next (h : Registered s) (ha : Enabled P s a) (t : τ) :
    ((next P s a).list.pc t).adding ⊆ [t] := by
  by_cases hta : t = a.agent
  · subst hta
    rw [next_list]
    cases hb : s.listPart P a with
    | none => exact h.self _
    | some b =>
        rcases listPart_cases hb with ⟨⟨-, rfl⟩ | rfl, -⟩ | ⟨k, -, rfl⟩ |
          ⟨k, r, -, rfl⟩ | hlist
        · simp [State.listNext, AsyncPrimitive.next,
            AsyncPrimitive.State.goto, AsyncPrimitive.Pc.adding]
        · simp [State.listNext, AsyncPrimitive.next,
            AsyncPrimitive.State.goto, AsyncPrimitive.Pc.adding]
        · simp [State.listNext, AsyncPrimitive.next,
            AsyncPrimitive.State.goto, AsyncPrimitive.State.move,
            AsyncPrimitive.Pc.adding]
        · exact h.self _
        · rw [hlist] at ha
          exact List.Subset.trans (AsyncPrimitive.adding_next ha.2 ha.1)
            (h.self _)
  · rw [next_list_pc_of_ne ha hta]
    exact h.self t

theorem wakesAll_next (hP : P.WakesAll) (h : Registered s)
    (ha : Enabled P s a) (t : τ) :
    ((next P s a).list.pc t).wakesOne = false := by
  by_cases hta : t = a.agent
  · subst hta
    rw [next_list]
    cases hb : s.listPart P a with
    | none => exact h.wakesAll _
    | some b =>
        rcases listPart_cases hb with ⟨⟨⟨e, hone⟩, -⟩ | rfl, -⟩ | ⟨k, -, rfl⟩ |
          ⟨k, r, -, rfl⟩ | hlist
        · exact absurd hone (hP e s.shared)
        · simp [State.listNext, AsyncPrimitive.next,
            AsyncPrimitive.State.goto, AsyncPrimitive.Pc.wakesOne]
        · simp [State.listNext, AsyncPrimitive.next,
            AsyncPrimitive.State.goto, AsyncPrimitive.State.move,
            AsyncPrimitive.Pc.wakesOne]
        · exact h.wakesAll _
        · rw [hlist] at ha
          exact AsyncPrimitive.wakesOne_next ha.2 ha.1 (h.wakesAll _)
  · rw [next_list_pc_of_ne ha hta]
    exact h.wakesAll t

omit [DecidableEq τ] in
theorem Registered.list_idle (h : Registered s) (ha : Enabled P s a)
    (hne : ∀ b, a ≠ .list a.agent b) : s.list.pc a.agent = .idle := by
  have hidle : ∀ {t p}, s.pc t = p → p.inList = false →
      s.list.pc t = .idle := by
    rintro t _ rfl hp
    exact h.aligned t hp
  cases a with
  | operate t e => exact ha.2
  | testAgain t k => exact ha.2
  | readyFalse t k => exact ha.2.2
  | list t b => exact absurd rfl (hne b)
  | callWait t k timed => exact hidle ha rfl
  | coAwait t k => exact hidle ha rfl
  | waitOver t k timed => exact hidle ha.1 rfl
  | expire t k => exact hidle ha.1 rfl
  | readyTrue t k => exact hidle ha.1 rfl
  | resume t k r => exact hidle ha.1 rfl
  | recheck t =>
      have hr : (s.pc t).rechecks = true := ha
      cases hpc : s.pc t with
      | suspended k r => exact hidle hpc rfl
      | resumed => exact hidle hpc rfl
      | _ => rw [hpc] at hr; cases hr

omit [DecidableEq τ] in
theorem Registered.eq_testAgain (h : Registered s) (ha : Enabled P s a)
    {k : κ} (hpc : s.pc a.agent = .test k) : a = .testAgain a.agent k := by
  cases a with
  | testAgain t j => cases hpc.symm.trans ha.1; rfl
  | callWait t j timed | coAwait t j => cases hpc.symm.trans ha
  | list t b =>
      have hin := h.inList_of_runner ha.1 ha.2
      rw [show s.pc t = .test k from hpc] at hin
      cases hin
  | recheck t =>
      have hr : (s.pc t).rechecks = true := ha
      rw [show s.pc t = .test k from hpc] at hr
      cases hr
  | _ => cases hpc.symm.trans ha.1

theorem aligned_next (h : Registered s) (ha : Enabled P s a) (t : τ)
    (ht : ((next P s a).pc t).inList = false) :
    (next P s a).list.pc t = .idle := by
  by_cases hta : t = a.agent
  · subst hta
    rw [next_pc_self] at ht
    by_cases hlist : ∃ t b, a = .list t b
    · obtain ⟨t, b, rfl⟩ := hlist
      by_contra hne
      have hpc : s.pcAfter P (.list t b) = s.pc t := if_neg hne
      rw [hpc, h.inList_of_runner ha.1 ha.2] at ht
      cases ht
    · have hidle := h.list_idle ha fun b hb => hlist ⟨_, b, hb⟩
      rw [next_list]
      cases hb : s.listPart P a with
      | none => exact hidle
      | some b =>
          rcases listPart_cases hb with ⟨-, hpc⟩ | ⟨k, hready, -⟩ |
            ⟨k, r, -, rfl⟩ | hab
          · rw [hpc] at ht
            cases ht
          · rw [hready] at ht
            cases ht
          · exact hidle
          · exact absurd ⟨_, b, hab⟩ hlist
  · rw [next_pc_of_ne hta] at ht
    rw [next_list_pc_of_ne ha hta]
    exact h.aligned t ht

theorem registered_next (hP : P.WakesAll) (h : Registered s)
    (ha : Enabled P s a) : Registered (next P s a) :=
  ⟨owned_next h ha, fun t => ⟨onWay_next h ha t, place_ne_outside_next h ha t⟩,
    adding_next h ha, aligned_next h ha, self_next h ha, wakesAll_next hP h ha⟩

theorem registered_reachable (hP : P.WakesAll) {x : σ}
    (hs : (system P x τ).Reachable s) : Registered s := by
  refine hs.invariant Registered ?_ fun s a h ha => registered_next hP h ha
  rintro s rfl
  exact registered_initialState x

end AsyncWait
end Ethreads
