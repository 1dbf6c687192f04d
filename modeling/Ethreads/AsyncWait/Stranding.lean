import Ethreads.AsyncWait.Registration

/-!
# Coroutines whose wait is over are woken

For primitives whose operations wake all coroutines or none.  A coroutine in
the list whose wait is over is covered by an agent that is about to call
`wake_all`.  The cover is kept in runs in which an operation that ends a wait
announces itself, and a node is pushed only while its wait goes on or somebody
is still about to wake all.
-/

namespace Ethreads
namespace AsyncWait

variable {τ σ ε κ : Type*}

/-- Which waits an operation may end, and what does not happen to a wait that
is over: `Issued k x` says that a test for `k` may be under way in the state
`x`. -/
structure Protocol (P : Primitive σ ε κ) where
  Issued : κ → σ → Prop
  ends : ε → σ → Bool
  wakesAll : P.WakesAll
  issued_test : ∀ e x k, P.after e x = .test k → Issued k (P.apply e x)
  issued_apply : ∀ e x k, Issued k x → Issued k (P.apply e x)
  issued_pass : ∀ j x y k, P.pass j x = some y → Issued k x → Issued k y
  over_apply : ∀ e x k, Issued k x → P.Over k x → P.Over k (P.apply e x)
  over_pass : ∀ j x y k, P.pass j x = some y → (P.Over k y ↔ P.Over k x)
  over_of_not_ends : ∀ e x k, ends e x = false → P.Over k (P.apply e x) →
    P.Over k x

/-- The agent is at a test for a wait that is over. -/
def Pc.Tests (P : Primitive σ ε κ) (x : σ) : Pc κ → Prop
  | test k => P.Over k x
  | _ => False

theorem Pc.Tests.exists {P : Primitive σ ε κ} {x : σ} {p : Pc κ}
    (h : p.Tests P x) : ∃ k, p = .test k ∧ P.Over k x := by
  cases p with
  | test k => exact ⟨k, rfl, h⟩
  | _ => cases h

/-- The operation calls `wake_all`, unless the wait that it tests for goes on
again. -/
def After.Announces (P : Primitive σ ε κ) (x : σ) : After κ → Prop
  | wakeAll => True
  | test k => P.Over k x
  | _ => False

instance (P : Primitive σ ε κ) (x : σ) (p : Pc κ) :
    Decidable (p.Tests P x) := by
  cases p <;> dsimp only [Pc.Tests] <;> infer_instance

instance (P : Primitive σ ε κ) (x : σ) (p : After κ) :
    Decidable (p.Announces P x) := by
  cases p <;> dsimp only [After.Announces] <;> infer_instance

/-- Some agent is about to take all coroutines out of the list. -/
def WakePending (P : Primitive σ ε κ) (s : State τ σ κ) : Prop :=
  ∃ u, s.list.pc u = .exchange ∨ (s.pc u).Tests P s.shared

instance [Fintype τ] [DecidableEq τ] (P : Primitive σ ε κ)
    (s : State τ σ κ) : Decidable (WakePending P s) :=
  inferInstanceAs (Decidable (∃ _, _ ∨ _))

def Pc.GoesOn (P : Primitive σ ε κ) (x : σ) : Pc κ → Prop
  | adding k => ¬P.Over k x
  | _ => True

instance (P : Primitive σ ε κ) (x : σ) (p : Pc κ) :
    Decidable (p.GoesOn P x) := by
  cases p <;> dsimp only [Pc.GoesOn] <;> infer_instance

/-- An operation that may end a wait announces itself, or nobody is in the
list, or somebody else is about to wake all; and a node is pushed while its
wait goes on or somebody is about to wake all. -/
def Timely {P : Primitive σ ε κ} (R : Protocol P) (s : State τ σ κ) :
    Action τ ε κ → Prop
  | .operate _ e =>
      R.ends e s.shared = true →
        (P.after e s.shared).Announces P (P.apply e s.shared) ∨
          s.list.waiters = none ∨
            WakePending P { s with shared := P.apply e s.shared }
  | .list t (.addCas _ _ _) =>
      (s.pc t).GoesOn P s.shared ∨ WakePending P s
  | _ => True

instance [Fintype τ] [DecidableEq τ] {P : Primitive σ ε κ} (R : Protocol P)
    (s : State τ σ κ) (a : Action τ ε κ) : Decidable (Timely R s a) := by
  induction a using Action.casesOn with
  | operate t e => dsimp only [Timely]; infer_instance
  | list t b =>
      induction b using AsyncPrimitive.Action.casesOn <;>
        dsimp only [Timely] <;> infer_instance
  | _ => exact inferInstanceAs (Decidable True)

/-! ## What a quiescent state says -/

def State.InWaiters (s : State τ σ κ) (t : τ) : Prop :=
  ∃ ns, Linked s.list.next s.list.waiters ns ∧ t ∈ ns

/-- The program points at which an agent runs nothing, or only blocks. -/
def Pc.atRest : Pc κ → Bool
  | idle | waiting _ _ | suspended _ true => true
  | _ => false

/-- No operation is in progress other than blocked waits, and every scheduled
coroutine has been resumed. -/
def State.Quiescent (s : State τ σ κ) : Prop :=
  (∀ t, (s.pc t).atRest = true) ∧ s.list.scheduled = []

instance [Fintype τ] [DecidableEq τ] (s : State τ σ κ) :
    Decidable s.Quiescent :=
  inferInstanceAs (Decidable (_ ∧ _))

/-- No coroutine whose wait is over is left in the list. -/
def StrandsNobody (P : Primitive σ ε κ) (s : State τ σ κ) : Prop :=
  s.Quiescent → ∀ t k r, s.pc t = .suspended k r → s.InWaiters t →
    ¬P.Over k s.shared

section Steps

variable [DecidableEq τ] {P : Primitive σ ε κ} {R : Protocol P}
  {s : State τ σ κ} {a : Action τ ε κ}

/-! ## What a step does to the primitive -/

/-- How a step changes the primitive. -/
theorem shared_cases (ha : Enabled P s a) :
    (next P s a).shared = s.shared ∨
      (∃ k, P.pass k s.shared = some (next P s a).shared) ∨
      ∃ e, a = .operate a.agent e ∧
        (next P s a).shared = P.apply e s.shared := by
  have hpass : ∀ k, P.Over k s.shared →
      P.pass k s.shared = some ((P.pass k s.shared).getD s.shared) := by
    intro k hover
    obtain ⟨y, hy⟩ := Option.isSome_iff_exists.mp hover
    rw [hy]
    rfl
  cases a with
  | operate t e => exact .inr (.inr ⟨e, rfl, rfl⟩)
  | waitOver t k timed => exact .inr (.inl ⟨k, hpass k ha.2⟩)
  | readyTrue t k => exact .inr (.inl ⟨k, hpass k ha.2⟩)
  | testAgain t k =>
      dsimp only [next]
      split <;> exact .inl rfl
  | _ => exact .inl rfl

/-- A wait that is over remains so, if a test for it may be under way. -/
theorem Protocol.over_next (R : Protocol P) (ha : Enabled P s a) {k : κ}
    (hk : R.Issued k s.shared) (hover : P.Over k s.shared) :
    P.Over k (next P s a).shared := by
  rcases shared_cases ha with heq | ⟨j, hj⟩ | ⟨e, -, heq⟩
  · rw [heq]
    exact hover
  · exact (R.over_pass _ _ _ _ hj).mpr hover
  · rw [heq]
    exact R.over_apply _ _ _ hk hover

theorem Protocol.issued_next (R : Protocol P) (ha : Enabled P s a) {k : κ}
    (hk : R.Issued k s.shared) : R.Issued k (next P s a).shared := by
  rcases shared_cases ha with heq | ⟨j, hj⟩ | ⟨e, -, heq⟩
  · rw [heq]
    exact hk
  · exact R.issued_pass _ _ _ _ hj hk
  · rw [heq]
    exact R.issued_apply _ _ _ hk

/-! ## The cover -/

/-- The tests under way are for waits whose end is final. -/
def TestsIssued (R : Protocol P) (s : State τ σ κ) : Prop :=
  ∀ t k, s.pc t = .test k → R.Issued k s.shared

/-- A coroutine in the list whose wait is over is covered by an agent that is
about to call `wake_all`. -/
def Covered (P : Primitive σ ε κ) (s : State τ σ κ) : Prop :=
  ∀ t k, (s.pc t).awaits = some k → s.list.place t = .listed →
    P.Over k s.shared → WakePending P s

theorem testsIssued_next (h : TestsIssued R s) (ha : Enabled P s a) :
    TestsIssued R (next P s a) := by
  intro t k hpc
  by_cases hta : t = a.agent
  · subst hta
    rw [next_pc_self] at hpc
    cases a with
    | operate t e =>
        simp only [State.pcAfter] at hpc
        cases hafter : P.after e s.shared <;> rw [hafter] at hpc <;> cases hpc
        exact R.issued_test e s.shared k hafter
    | testAgain t j =>
        simp only [State.pcAfter] at hpc
        split at hpc <;> cases hpc
    | list t b =>
        have hkept : s.pc t = .test k := by
          simp only [State.pcAfter] at hpc
          split at hpc
          · cases hp : s.pc t <;> rw [hp] at hpc <;> cases hpc
            rfl
          · exact hpc
        exact R.issued_next ha (h t k hkept)
    | recheck t =>
        simp only [State.pcAfter] at hpc
        cases hp : s.pc t <;> rw [hp] at hpc <;> cases hpc
    | resume t j r => cases r <;> cases hpc
    | _ => cases hpc
  · rw [next_pc_of_ne hta] at hpc
    exact R.issued_next ha (h t k hpc)

/-- An agent about to wake all stays so until it has emptied the list. -/
theorem wakePending_next (hreg : Registered s) (hissued : TestsIssued R s)
    (h : WakePending P s) (ha : Enabled P s a) :
    WakePending P (next P s a) ∨ ∃ u, a = .list u (.exchange u) := by
  obtain ⟨u, hu⟩ := h
  by_cases hua : u = a.agent
  · subst hua
    rcases hu with hexchange | htests
    · by_cases hlist : ∃ t b, a = .list t b
      · obtain ⟨t, b, rfl⟩ := hlist
        rw [AsyncPrimitive.eq_exchange ha.2 ha.1 hexchange]
        exact .inr ⟨t, rfl⟩
      · have hidle := hreg.list_idle ha fun b hb => hlist ⟨_, b, hb⟩
        cases hidle.symm.trans hexchange
    · obtain ⟨k, hpc, hover⟩ := htests.exists
      refine .inl ⟨a.agent, .inl ?_⟩
      rw [hreg.eq_testAgain ha hpc, next_list, State.listPart, if_pos hover]
      exact Function.update_self ..
  · refine .inl ⟨u, ?_⟩
    rw [next_list_pc_of_ne ha hua, next_pc_of_ne hua]
    refine hu.imp_right fun htests => ?_
    obtain ⟨k, hpc, hover⟩ := htests.exists
    rw [hpc]
    exact R.over_next ha (hissued u k hpc) hover

/-- An operation that ends the wait of a coroutine in the list leaves somebody
who is about to wake all. -/
theorem wakePending_operate {t u : τ} {e : ε} {k : κ} (hreg : Registered s)
    (ha : Enabled P s (.operate t e)) (hP : Timely R s (.operate t e))
    (hu : s.list.place u = .listed) (hnot : ¬P.Over k s.shared)
    (hover : P.Over k (P.apply e s.shared)) :
    WakePending P (next P s (.operate t e)) := by
  have hends : R.ends e s.shared = true := by
    by_contra hfalse
    exact hnot (R.over_of_not_ends e s.shared k
      (Bool.eq_false_iff.mpr hfalse) hover)
  rcases hP hends with hannounces | hnone | ⟨v, hv⟩
  · refine ⟨t, ?_⟩
    rw [next_list]
    have hpc : (next P s (.operate t e)).pc t = (P.after e s.shared).pc :=
      next_pc_self (a := .operate t e)
    rw [hpc, State.listPart]
    cases hafter : P.after e s.shared with
    | wakeAll => exact .inl (Function.update_self ..)
    | test j =>
        rw [hafter] at hannounces
        exact .inr hannounces
    | _ => rw [hafter] at hannounces; cases hannounces
  · exact absurd hnone (hreg.owned.waiters_ne_none_of_listed hu)
  · by_cases hvt : v = t
    · subst hvt
      rcases hv with hexchange | htests
      · cases ha.2.symm.trans hexchange
      · have hpc : (s.pc v).Tests P (P.apply e s.shared) := htests
        rw [ha.1] at hpc
        cases hpc
    · refine ⟨v, ?_⟩
      rw [next_list_pc_of_ne ha hvt, next_pc_of_ne hvt]
      exact hv

/-- A push into the list is covered. -/
theorem wakePending_push {u n : τ} {o : Option τ} {k : κ}
    (hreg : Registered s) (hissued : TestsIssued R s)
    (ha : Enabled P s (.list u (.addCas u n o)))
    (hP : Timely R s (.list u (.addCas u n o)))
    (hk : (s.pc u).awaits = some k) (hover : P.Over k s.shared) :
    WakePending P (next P s (.list u (.addCas u n o))) := by
  rcases hP with hgoes | hpending
  · have hin : (s.pc u).inList = true := hreg.inList_of_runner ha.1 ha.2
    cases hpc : s.pc u with
    | adding j =>
        rw [hpc] at hk hgoes
        cases hk
        exact absurd hover hgoes
    | waking => rw [hpc] at hk; cases hk
    | _ => rw [hpc] at hin; cases hin
  · rcases wakePending_next hreg hissued hpending ha with hnext | ⟨v, hv⟩
    · exact hnext
    · cases hv

theorem covered_next (hreg : Registered s) (hissued : TestsIssued R s)
    (h : Covered P s) (ha : Enabled P s a) (hP : Timely R s a) :
    Covered P (next P s a) := by
  intro t k hk hplace hover
  rcases awaits_next hk with hold | rfl
  · rcases listed_next ha hplace with hlisted | ⟨u, o, rfl⟩
    · by_cases hbefore : P.Over k s.shared
      · have hpending := h t k hold hlisted hbefore
        rcases wakePending_next hreg hissued hpending ha with hnext | ⟨u, rfl⟩
        · exact hnext
        · refine absurd hplace ?_
          exact AsyncPrimitive.place_exchange AsyncPrimitive.ungated _ u t
      · rcases shared_cases ha with heq | ⟨j, hj⟩ | ⟨e, heq, hshared⟩
        · exact absurd (heq ▸ hover) hbefore
        · exact absurd ((R.over_pass _ _ _ _ hj).mp hover) hbefore
        · rw [hshared] at hover
          rw [heq] at ha hP ⊢
          exact wakePending_operate hreg ha hP hlisted hbefore hover
    · have htu : t = u := hreg.eq_of_addCas ha.2
      subst htu
      exact wakePending_push hreg hissued ha hP hold hover
  · have hadding : (next P s (.readyFalse t k)).list.place t = .adding t :=
      Function.update_self ..
    cases hplace.symm.trans hadding

theorem covered_reachable {x : σ}
    (hs : (system P x τ).ReachableWhere (Timely R) s) : Covered P s := by
  have hinv : Registered s ∧ TestsIssued R s ∧ Covered P s := by
    refine hs.invariant
      (fun s => Registered s ∧ TestsIssued R s ∧ Covered P s) ?_ ?_
    · rintro s rfl
      exact ⟨registered_initialState x, nofun, nofun⟩
    · intro s a h ha hP
      exact ⟨registered_next R.wakesAll h.1 ha, testsIssued_next h.2.1 ha,
        covered_next h.1 h.2.1 h.2.2 ha hP⟩
  exact hinv.2.2

omit [DecidableEq τ] in
theorem Registered.listed_of_inWaiters (h : Registered s) {t : τ}
    (ht : s.InWaiters t) : s.list.place t = .listed := by
  obtain ⟨ns, hlinked, hmem⟩ := ht
  obtain ⟨ms, hlinked', hms⟩ := h.owned.listed
  rw [hlinked.unique hlinked'] at hmem
  exact (hms.2 t).mp hmem

omit [DecidableEq τ] in
theorem Registered.list_idle_of_quiescent (h : Registered s)
    (hq : s.Quiescent) (u : τ) : s.list.pc u = .idle := by
  have hrest := hq.1 u
  apply h.aligned
  cases hpc : s.pc u <;> rw [hpc] at hrest <;> first | rfl | cases hrest

omit [DecidableEq τ] in
theorem not_wakePending_of_quiescent (h : Registered s)
    (hq : s.Quiescent) : ¬WakePending P s := by
  rintro ⟨u, hexchange | htests⟩
  · cases (h.list_idle_of_quiescent hq u).symm.trans hexchange
  · obtain ⟨k, hpc, -⟩ := htests.exists
    have hrest := hq.1 u
    rw [hpc] at hrest
    cases hrest

omit [DecidableEq τ] in
theorem Registered.inWaiters_of_quiescent (h : Registered s)
    (hq : s.Quiescent) {t : τ} {k : κ} {r : Bool}
    (hpc : s.pc t = .suspended k r) : s.InWaiters t := by
  have hidle := h.list_idle_of_quiescent hq
  cases hplace : s.list.place t with
  | outside =>
      refine absurd hplace ((h.onWay t).mpr ?_)
      rw [hpc]
      rfl
  | adding u =>
      have hmem := ((h.owned.owns u).adding.2 t).mpr hplace
      rw [hidle u] at hmem
      cases hmem
  | listed =>
      obtain ⟨ns, hlinked, hns⟩ := h.owned.listed
      exact ⟨ns, hlinked, (hns.2 t).mpr hplace⟩
  | taken u =>
      obtain ⟨ns, hholds, hns⟩ := (h.owned.owns u).taken
      have hmem := (hns.2 t).mpr hplace
      rw [hidle u] at hholds
      rw [show ns = [] from hholds] at hmem
      cases hmem
  | scheduled =>
      have hmem := (h.owned.scheduled.2 t).mpr hplace
      rw [hq.2] at hmem
      cases hmem

/-- Timely runs strand nobody. -/
theorem strandsNobody_of_timely {x : σ}
    (hs : (system P x τ).ReachableWhere (Timely R) s) :
    StrandsNobody P s := by
  intro hq t k r hpc hin hover
  have hreg := registered_reachable R.wakesAll hs.reachable
  refine not_wakePending_of_quiescent hreg hq
    (covered_reachable hs t k ?_ (hreg.listed_of_inWaiters hin) hover)
  rw [hpc]
  rfl

end Steps

end AsyncWait
end Ethreads
