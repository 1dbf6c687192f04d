import Ethreads.AsyncPrimitive.Ownership

/-!
# Lists that are emptied as a whole

How one step changes the place of a node, where nodes have no gate: only the
push of `add_waiter` brings a node into the list, and where nobody runs
`wake_one` only the exchange of `wake_all` takes it out.
-/

namespace Ethreads
namespace AsyncPrimitive

variable {τ ν γ : Type*}

def Pc.wakesOne : Pc ν → Bool
  | wakeLoad | wakeNext _ | wakeCas _ _ => true
  | _ => false

def Pc.wakesAll : Pc ν → Bool
  | exchange | walkNext _ | deliver _ _ => true
  | _ => false

/-- A node that was taken out of the list and has not been resumed. -/
def Place.isDelivered : Place τ → Bool
  | taken _ | scheduled => true
  | _ => false

/-- The thread that makes a step or calls one of the three functions. -/
def Action.agent : Action τ ν γ → Option τ
  | callAdd t _ | callWakeOne t | callWakeAll t => some t
  | a => a.runner

/-! ## Steps of one list, for nodes with or without gates -/

section Gated

variable [DecidableEq τ] [DecidableEq ν] [DecidableEq γ]
  {gate : ν → Option γ} {s : State τ ν γ} {a : Action τ ν γ} {t : τ}

theorem pc_next_of_ne (ha : a.agent ≠ some t) :
    (next gate s a).pc t = s.pc t := by
  cases a with
  | fire g | resume n => rfl
  | _ => exact Function.update_of_ne (fun h => ha (congrArg some h.symm)) ..

/-- A thread inside a function of the list starts no other one: it goes on
adding the same node or none. -/
theorem adding_next (ha : Enabled gate s a) (hrun : a.runner = some t) :
    ((next gate s a).pc t).adding ⊆ (s.pc t).adding := by
  have hwalk : ∀ {o : Option ν}, (walkWith o).adding = [] := by
    intro o
    cases o <;> rfl
  have hwake : ∀ {o : Option ν}, (wakeWith o).adding = [] := by
    intro o
    cases o <;> rfl
  cases a with
  | callAdd u n | callWakeOne u | callWakeAll u | fire g | resume n =>
      cases hrun
  | addLoad u n | addLink u n o | addCasFails u n o =>
      cases hrun
      simp [next, State.goto, Pc.adding, show s.pc t = _ from ha]
  | wakeLoad u | wakeCasFails u n o =>
      cases hrun
      simp [next, State.goto, hwake]
  | exchange u | schedule u n r | skip u n r g =>
      cases hrun
      simp [next, State.goto, State.move, hwalk]
  | _ =>
      cases hrun
      simp [next, State.goto, State.move, Pc.adding]

/-- A thread goes on adding its node until it pushes it. -/
theorem adding_next_cases {m : ν} (ha : Enabled gate s a)
    (hrun : a.runner = some t) (h : (s.pc t).adding = [m]) :
    ((next gate s a).pc t).adding = [m] ∧ (∀ n o, a ≠ .addCas t n o) ∨
      (next gate s a).pc t = .idle ∧ ∃ o, a = .addCas t m o := by
  have hold : ∀ {q : Pc ν}, s.pc t = q → q.adding = [m] := by
    rintro q rfl
    exact h
  cases a with
  | callAdd u n | callWakeOne u | callWakeAll u | fire g | resume n =>
      cases hrun
  | addLoad u n =>
      cases hrun
      have hn := hold ha
      exact .inl ⟨(congrArg _ (Function.update_self ..)).trans hn, nofun⟩
  | addLink u n o =>
      cases hrun
      have hn := hold ha
      exact .inl ⟨(congrArg _ (Function.update_self ..)).trans hn, nofun⟩
  | addCasFails u n o =>
      cases hrun
      have hn := hold ha
      exact .inl ⟨(congrArg _ (Function.update_self ..)).trans hn, nofun⟩
  | addCas u n o =>
      cases hrun
      cases List.singleton_inj.mp (hold ha.1)
      exact .inr ⟨Function.update_self .., o, rfl⟩
  | wakeCas u n o | schedule u n r | skip u n r g =>
      cases hrun
      exact nomatch hold ha.1
  | _ =>
      cases hrun
      exact nomatch hold ha

/-- How a step inside one of the three functions moves a node. -/
theorem place_next_cases (h : Owned s) (ha : Enabled gate s a)
    (hrun : a.runner = some t) (n : ν) :
    (next gate s a).place n = s.place n ∨
      (s.place n = .adding t ∧ (∃ o, a = .addCas t n o) ∧
        (next gate s a).place n = .listed) ∨
      (s.place n = .listed ∧ (next gate s a).place n = .taken t) ∨
      s.place n = .taken t ∧
        ((∃ r, a = .schedule t n r) ∧
            (next gate s a).place n = .scheduled ∨
          (∃ r g, a = .skip t n r g) ∧
            (next gate s a).place n = .outside) := by
  cases a with
  | callAdd u m | callWakeOne u | callWakeAll u | fire g | resume m =>
      cases hrun
  | addCas u m o =>
      cases hrun
      by_cases hnm : n = m
      · subst hnm
        exact .inr (.inl ⟨h.place_of_addCas ha.1, ⟨o, rfl⟩,
          Function.update_self ..⟩)
      · exact .inl (Function.update_of_ne hnm ..)
  | wakeCas u m o =>
      cases hrun
      by_cases hnm : n = m
      · subst hnm
        exact .inr (.inr (.inl ⟨h.place_of_waiters ha.2,
          Function.update_self ..⟩))
      · exact .inl (Function.update_of_ne hnm ..)
  | schedule u m r =>
      cases hrun
      by_cases hnm : n = m
      · subst hnm
        exact .inr (.inr (.inr ⟨h.place_of_deliver ha.1,
          .inl ⟨⟨r, rfl⟩, Function.update_self ..⟩⟩))
      · exact .inl (Function.update_of_ne hnm ..)
  | skip u m r g =>
      cases hrun
      by_cases hnm : n = m
      · subst hnm
        exact .inr (.inr (.inr ⟨h.place_of_deliver ha.1,
          .inr ⟨⟨r, g, rfl⟩, Function.update_self ..⟩⟩))
      · exact .inl (Function.update_of_ne hnm ..)
  | exchange u =>
      cases hrun
      cases hp : s.place n with
      | listed =>
          refine .inr (.inr (.inl ⟨rfl, ?_⟩))
          change (s.place n).takeListed t = .taken t
          rw [hp]
          rfl
      | _ =>
          refine .inl ?_
          change (s.place n).takeListed t = _
          rw [hp]
          rfl
  | _ => exact .inl rfl

omit [DecidableEq τ] [DecidableEq ν] [DecidableEq γ] in
theorem eq_exchange (ha : Enabled gate s a) (hrun : a.runner = some t)
    (hpc : s.pc t = .exchange) : a = .exchange t := by
  cases a with
  | callAdd u n | callWakeOne u | callWakeAll u | fire g | resume n =>
      cases hrun
  | exchange u => cases hrun; rfl
  | addCas u n o | wakeCas u n o | schedule u n r | skip u n r g =>
      cases hrun
      cases hpc.symm.trans ha.1
  | _ =>
      cases hrun
      cases hpc.symm.trans ha

theorem place_exchange (gate : ν → Option γ) (s : State τ ν γ) (u : τ)
    (n : ν) :
    (next gate s (.exchange u)).place n ≠ .listed := by
  change (s.place n).takeListed u ≠ .listed
  cases s.place n <;> nofun

end Gated

/-! ## Steps of one list, for nodes without gates -/

section Steps

variable [DecidableEq τ] [DecidableEq ν] {s : State τ ν Empty}
  {a : Action τ ν Empty} {t : τ}

/-- A thread inside a function of the list does not come to run
`wake_one`. -/
theorem wakesOne_next (ha : Enabled ungated s a) (hrun : a.runner = some t)
    (h : (s.pc t).wakesOne = false) :
    ((next ungated s a).pc t).wakesOne = false := by
  cases a with
  | callAdd u n | callWakeOne u | callWakeAll u | fire g | resume n =>
      cases hrun
  | skip u n r g => cases g
  | wakeLoad u | wakeNext u n | wakeCasFails u n o =>
      cases hrun
      rw [show s.pc t = _ from ha] at h
      cases h
  | exchange u =>
      cases hrun
      cases hw : s.waiters <;>
        simp [next, State.goto, Pc.wakesOne, walkWith, hw]
  | schedule u n r =>
      cases hrun
      cases r <;> simp [next, State.goto, State.move, Pc.wakesOne, walkWith]
  | _ =>
      cases hrun
      simp [next, State.goto, State.move, Pc.wakesOne]

/-- A thread goes on running `wake_all` until it returns, and adds nothing. -/
theorem wakesAll_next (ha : Enabled ungated s a) (hrun : a.runner = some t)
    (h : (s.pc t).wakesAll = true) :
    (((next ungated s a).pc t).wakesAll = true ∨
      (next ungated s a).pc t = .idle) ∧ ∀ n o, a ≠ .addCas t n o := by
  have hold : ∀ {q : Pc ν}, s.pc t = q → q.wakesAll = true := by
    rintro q rfl
    exact h
  have hwalk : ∀ {o : Option ν}, (next ungated s a).pc t = walkWith o →
      ((next ungated s a).pc t).wakesAll = true ∨
        (next ungated s a).pc t = .idle := by
    intro o ho
    rw [ho]
    cases o with
    | none => exact .inr rfl
    | some n => exact .inl rfl
  cases a with
  | callAdd u n | callWakeOne u | callWakeAll u | fire g | resume n =>
      cases hrun
  | skip u n r g => cases g
  | exchange u =>
      cases hrun
      exact ⟨hwalk (Function.update_self ..), nofun⟩
  | schedule u n r =>
      cases hrun
      exact ⟨hwalk (Function.update_self ..), nofun⟩
  | walkNext u n =>
      cases hrun
      exact ⟨.inl (congrArg _ (Function.update_self ..)), nofun⟩
  | addCas u n o | wakeCas u n o =>
      cases hrun
      exact nomatch hold ha.1
  | _ =>
      cases hrun
      exact nomatch hold ha

theorem listed_next {n : ν} (h : (next ungated s a).place n = .listed) :
    s.place n = .listed ∨ ∃ u o, a = .addCas u n o := by
  have hmove : ∀ (m : ν) (r : Place τ), r ≠ .listed →
      Function.update s.place m r n = .listed → s.place n = .listed := by
    intro m r hr hn
    by_cases hnm : n = m
    · subst hnm
      rw [Function.update_self] at hn
      exact absurd hn hr
    · rwa [Function.update_of_ne hnm] at hn
  cases a with
  | addCas u m o =>
      by_cases hnm : n = m
      · subst hnm
        exact .inr ⟨u, o, rfl⟩
      · exact .inl ((Function.update_of_ne hnm ..).symm.trans h)
  | callAdd u m => exact .inl (hmove m (.adding u) nofun h)
  | wakeCas u m o => exact .inl (hmove m (.taken u) nofun h)
  | schedule u m r => exact .inl (hmove m .scheduled nofun h)
  | resume m => exact .inl (hmove m .outside nofun h)
  | exchange u =>
      left
      have hn : (s.place n).takeListed u = .listed := h
      cases hp : s.place n with
      | listed => rfl
      | _ => rw [hp] at hn; cases hn
  | skip u m r g => cases g
  | _ => exact .inl h

theorem place_next_of_adding (h : Owned s) (ha : Enabled ungated s a)
    {u : τ} {n : ν} (hrun : a.runner = some u) (hn : s.place n = .adding t) :
    (next ungated s a).place n = .adding t ∨ ∃ o, a = .addCas t n o := by
  cases a with
  | callAdd v m | callWakeOne v | callWakeAll v | fire g | resume m =>
      cases hrun
  | skip v m r g => cases g
  | addCas v m o =>
      have hm := h.place_of_addCas ha.1
      by_cases hnm : n = m
      · subst hnm
        cases hm.symm.trans hn
        exact .inr ⟨o, rfl⟩
      · exact .inl ((Function.update_of_ne hnm ..).trans hn)
  | wakeCas v m o =>
      have hm := h.place_of_waiters ha.2
      have hnm : n ≠ m := by
        rintro rfl
        cases hm.symm.trans hn
      exact .inl ((Function.update_of_ne hnm ..).trans hn)
  | schedule v m r =>
      have hm := h.place_of_deliver ha.1
      have hnm : n ≠ m := by
        rintro rfl
        cases hm.symm.trans hn
      exact .inl ((Function.update_of_ne hnm ..).trans hn)
  | exchange v =>
      left
      change (s.place n).takeListed v = .adding t
      rw [hn]
      rfl
  | _ => exact .inl hn

/-- How a node is taken out of the list, where nobody runs `wake_one`. -/
theorem isDelivered_next (h : Owned s) (hone : ∀ u, (s.pc u).wakesOne = false)
    (ha : Enabled ungated s a) {n : ν}
    (hn : ((next ungated s a).place n).isDelivered = true) :
    (s.place n).isDelivered = true ∨
      s.place n = .listed ∧ ∃ u, a = .exchange u := by
  have hmove : ∀ (m : ν) (r : Place τ), r.isDelivered = false →
      (Function.update s.place m r n).isDelivered = true →
        (s.place n).isDelivered = true := by
    intro m r hr hdelivered
    by_cases hnm : n = m
    · subst hnm
      rw [Function.update_self, hr] at hdelivered
      cases hdelivered
    · rwa [Function.update_of_ne hnm] at hdelivered
  cases a with
  | callAdd u m => exact .inl (hmove m (.adding u) rfl hn)
  | addCas u m o => exact .inl (hmove m .listed rfl hn)
  | resume m => exact .inl (hmove m .outside rfl hn)
  | skip u m r g => cases g
  | wakeCas u m o =>
      have hfalse := hone u
      rw [ha.1] at hfalse
      cases hfalse
  | schedule u m r =>
      left
      by_cases hnm : n = m
      · subst hnm
        rw [h.place_of_deliver ha.1]
        rfl
      · exact (congrArg _ (Function.update_of_ne hnm ..)).symm.trans hn
  | exchange u =>
      cases hp : s.place n with
      | listed => exact .inr ⟨rfl, u, rfl⟩
      | _ =>
          left
          have hkept : ((s.place n).takeListed u).isDelivered = true := hn
          rw [hp] at hkept
          exact hkept
  | _ => exact .inl hn

end Steps

theorem Owned.waiters_ne_none_of_listed {s : State τ ν γ} (h : Owned s)
    {n : ν} (hn : s.place n = .listed) : s.waiters ≠ none := by
  intro hnone
  obtain ⟨ns, hlinked, hns⟩ := h.listed
  rw [hnone] at hlinked
  obtain rfl := linked_none_iff.mp hlinked
  exact List.not_mem_nil ((hns.2 n).mpr hn)

end AsyncPrimitive
end Ethreads
