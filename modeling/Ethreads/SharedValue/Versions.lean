import Ethreads.SharedValue.Threads
import Ethreads.Support.Mutex

/-!
# Equal versions and equal values

What a thread has seen fits the contents as long as a writer that throws leaves
the value as it was: the value that it has loaded at their version is theirs,
unless a writer has still to increment the version.  A thread that calls a
writer which throws with the value changed may see two values at one version.
-/

namespace Ethreads
namespace SharedValue

/-! ## What fits the contents -/

/-- What a thread has seen fits the contents; if they are `settled`, the value
it has loaded at their version is theirs. -/
def Seen.Fits {α : Type*} (c : Contents α) (settled : Prop) : Seen α → Prop
  | nothing => True
  | version v => v ≤ c.version
  | loaded v x => v ≤ c.version ∧ (c.version = v → settled → c.value = x)
  | reloaded v x y => v ≤ c.version ∧ (c.version = v → y = x)
  | compared v x y w => w = v → y = x

section Fits

variable {α : Type*} {c : Contents α} {p q : Prop} {o : Seen α}

theorem Seen.Fits.mono (h : o.Fits c p) (hqp : q → p) : o.Fits c q := by
  cases o with
  | loaded v x => exact ⟨h.1, fun hv hq => h.2 hv (hqp hq)⟩
  | _ => exact h

/-- No version that was read is the incremented one. -/
theorem Seen.Fits.increment (h : o.Fits c p) :
    o.Fits { c with version := c.version + 1 } q := by
  cases o with
  | nothing => trivial
  | version v => exact Nat.le_succ_of_le h
  | loaded v x =>
      refine ⟨Nat.le_succ_of_le h.1, fun hv => ?_⟩
      exact absurd h.1 (Nat.not_le.mpr (Nat.lt_of_succ_le hv.le))
  | reloaded v x y =>
      refine ⟨Nat.le_succ_of_le h.1, fun hv => ?_⟩
      exact absurd h.1 (Nat.not_le.mpr (Nat.lt_of_succ_le hv.le))
  | compared v x y w => exact h

/-- A section that leaves the contents settled has left the value alone. -/
theorem Seen.Fits.write (h : o.Fits c p) (hp : p) {value : α}
    (hvalue : q → value = c.value) :
    o.Fits { c with value := value } q := by
  cases o with
  | loaded v x =>
      exact ⟨h.1, fun hv hq => (hvalue hq).trans (h.2 hv hp)⟩
  | _ => exact h

theorem Seen.Fits.load (h : o.Fits c p) (hp : p) :
    (o.load c.value).Fits c q := by
  cases o with
  | version v => exact ⟨h, fun _ _ => rfl⟩
  | loaded v x => exact ⟨h.1, fun hv => h.2 hv hp⟩
  | nothing => trivial
  | reloaded v x y => exact h
  | compared v x y w => exact h

end Fits

namespace Shared

variable {τ α ρ : Type*} [DecidableEq τ]

/-! ## The lock -/

/-- The lock is held by the writer that is inside a section. -/
abbrev Locked (s : Shared τ α) : Prop :=
  Guards Pc.inside s.mutex s.pc

omit [DecidableEq τ] in
theorem inside_notify (p : Pc) : p.notify.inside = p.inside := by
  cases p <;> rfl

theorem locked_next {T : ValueType α} {s : Shared τ α} {a : Action τ α ρ}
    (h : Locked s) (ha : Enabled s a) : Locked (next T s a) := by
  cases a with
  | write t w =>
      refine Guards.enter h ha.2 ?_
      unfold afterValue
      split <;> rfl
  | increment t => exact Guards.stay h (congrArg Pc.inside ha).symm
  | notifyAll t =>
      refine Guards.stay (Guards.map h inside_notify) ?_
      rw [inside_notify]
      exact (congrArg Pc.inside ha).symm
  | leave t => exact Guards.leave h (congrArg Pc.inside ha) rfl
  | callWait t v => exact Guards.stay h (congrArg Pc.inside ha).symm
  | waitReturns t v => exact Guards.stay h (congrArg Pc.inside ha.1).symm
  | block t v => exact Guards.stay h (congrArg Pc.inside ha.1).symm
  | wake t v notified => exact Guards.stay h (congrArg Pc.inside ha).symm
  | readVersion t | load t | compare t v x y => exact h

omit [DecidableEq τ] in
/-- Nobody is inside a section while the lock is free. -/
theorem Locked.pc_ne {s : Shared τ α} (h : Locked s) (hfree : s.mutex = none)
    {p : Pc} (hp : p.inside = true) (t : τ) : s.pc t ≠ p := by
  rintro rfl
  rw [h.outside_of_free hfree t] at hp
  cases hp

/-! ## What has been seen -/

/-- No writer is about to increment the version. -/
def Settled (s : Shared τ α) : Prop :=
  ∀ t, s.pc t ≠ .incrementing

/-- Equal versions mean an unchanged value, and a thread that stays blocked
until the version at which it has loaded the value changes has missed no
update. -/
structure UpdatesSeen (s : Shared τ α) : Prop where
  unchanged : ∀ t v x y w, s.seen t = .compared v x y w → w = v → y = x
  noneMissed : ∀ t v x, s.seen t = .loaded v x →
    s.pc t = .blocked v false → s.mutex = none → s.contents.value = x

def ThrowsIntact (T : ValueType α) (s : Shared τ α) : Action τ α ρ → Prop
  | .write _ w =>
      (w.run T s.contents.value).result = none →
        (w.run T s.contents.value).value = s.contents.value
  | _ => True

instance [DecidableEq α] (T : ValueType α) (s : Shared τ α)
    (a : Action τ α ρ) : Decidable (ThrowsIntact T s a) := by
  induction a using Action.casesOn <;> dsimp only [ThrowsIntact] <;>
    infer_instance

variable {T : ValueType α} {s : Shared τ α} {a : Action τ α ρ} {t : τ}

theorem goto_pc_self {q : Pc} : (s.goto t q).pc t = q :=
  Function.update_self ..

theorem goto_pc_of_ne {u : τ} {q : Pc} (hu : u ≠ t) :
    (s.goto t q).pc u = s.pc u :=
  Function.update_of_ne hu ..

/-- Nobody gets past the increment of the version by another move. -/
theorem settled_of_goto {q : Pc} (ht : s.pc t ≠ .incrementing)
    (h : Settled (s.goto t q)) : Settled s := by
  intro u
  by_cases hut : u = t
  · rw [hut]
    exact ht
  · rw [← goto_pc_of_ne hut]
    exact h u

theorem settled_of_notifyAll (ht : s.pc t = .notifying)
    (h : Settled (next T s (.notifyAll t : Action τ α ρ))) : Settled s := by
  intro u hu
  by_cases hut : u = t
  · rw [hut, ht] at hu
    cases hu
  · apply h u
    rw [next, goto_pc_of_ne hut]
    exact congrArg Pc.notify hu

def AllFit (s : Shared τ α) : Prop :=
  ∀ t, (s.seen t).Fits s.contents (Settled s)

theorem allFit_goto (h : AllFit s) {q : Pc} (ht : s.pc t ≠ .incrementing) :
    AllFit (s.goto t q) :=
  fun u => (h u).mono fun hs => settled_of_goto ht hs

theorem allFit_observe (h : AllFit s) {o : Seen α}
    (ho : o.Fits s.contents (Settled s)) : AllFit (s.observe t o) := by
  intro u
  by_cases hut : u = t
  · subst hut
    rw [show (s.observe u o).seen u = o from Function.update_self ..]
    exact ho
  · rw [show (s.observe t o).seen u = s.seen u from
      Function.update_of_ne hut ..]
    exact h u

omit [DecidableEq τ] in
theorem settled_of_free (h : Locked s) (hfree : s.mutex = none) :
    Settled s :=
  h.pc_ne hfree rfl

theorem allFit_next (hlocked : Locked s) (h : AllFit s) (ha : Enabled s a)
    (hP : ThrowsIntact T s a) : AllFit (next T s a) := by
  have hmove : ∀ {t : τ} {p : Pc}, s.pc t = p → p ≠ .incrementing →
      ∀ q, AllFit (s.goto t q) := by
    rintro t _ rfl hp q
    exact allFit_goto h hp
  cases a with
  | write t w =>
      intro u
      refine (h u).write (settled_of_free hlocked ha.2) fun hsettled => ?_
      have hpc : afterValue (w.run T s.contents.value).increments ≠
          .incrementing := by
        have ht := hsettled t
        rwa [show (next T s (.write t w)).pc t = _ from
          Function.update_self ..] at ht
      cases hincrements : (w.run T s.contents.value).increments with
      | true => exact absurd (by rw [hincrements]; rfl) hpc
      | false =>
          by_cases hresult : (w.run T s.contents.value).result = none
          · exact hP hresult
          · exact w.counts_run.keeps hincrements hresult
  | increment t => exact fun u => (h u).increment
  | notifyAll t => exact fun u => (h u).mono (settled_of_notifyAll ha)
  | leave t => exact hmove ha nofun .idle
  | callWait t v => exact hmove ha nofun _
  | waitReturns t v => exact hmove ha.1 nofun _
  | block t v => exact hmove ha.1 nofun _
  | wake t v notified => exact hmove ha nofun _
  | readVersion t => exact allFit_observe h le_rfl
  | load t =>
      exact allFit_observe h ((h t).load (settled_of_free hlocked ha.2.1))
  | compare t v x y =>
      refine allFit_observe h ?_
      have hfits := h t
      rw [ha.2] at hfits
      exact hfits.2

/-! ## Who stays blocked -/

/-- A thread that is blocked and not notified waits for the current version to
change, or a writer is about to notify it. -/
def BlocksOnCurrent (s : Shared τ α) : Prop :=
  ∀ t v, s.pc t = .blocked v false →
    s.contents.version = v ∨ ∃ u, s.pc u = .notifying

theorem blocksOnCurrent_goto (h : BlocksOnCurrent s) {q : Pc}
    (ht : s.pc t ≠ .notifying)
    (hq : ∀ v, q = .blocked v false → s.contents.version = v) :
    BlocksOnCurrent (s.goto t q) := by
  intro u v hu
  by_cases hut : u = t
  · subst hut
    rw [goto_pc_self] at hu
    exact .inl (hq v hu)
  · rw [goto_pc_of_ne hut] at hu
    refine (h u v hu).imp_right ?_
    rintro ⟨n, hn⟩
    have hnt : n ≠ t := by
      rintro rfl
      exact ht hn
    exact ⟨n, (goto_pc_of_ne hnt).trans hn⟩

theorem blocksOnCurrent_next (h : BlocksOnCurrent s) (ha : Enabled s a) :
    BlocksOnCurrent (next T s a) := by
  have hmove : ∀ {t : τ} {p q : Pc}, s.pc t = p → p ≠ .notifying →
      (∀ v, q ≠ .blocked v false) → BlocksOnCurrent (s.goto t q) := by
    rintro t _ q rfl hp hq
    exact blocksOnCurrent_goto h hp fun v hv => absurd hv (hq v)
  cases a with
  | write t w =>
      refine hmove ha.1 nofun fun v => ?_
      unfold afterValue
      split <;> nofun
  | increment t => exact fun u v hu => .inr ⟨t, goto_pc_self⟩
  | notifyAll t =>
      intro u v hu
      by_cases hut : u = t
      · subst hut
        rw [next, goto_pc_self] at hu
        cases hu
      · rw [next, goto_pc_of_ne hut] at hu
        have hnotify : (s.pc u).notify = .blocked v false := hu
        cases hp : s.pc u <;> rw [hp] at hnotify <;> cases hnotify
  | leave t => exact hmove ha nofun nofun
  | callWait t v => exact hmove ha nofun nofun
  | waitReturns t v => exact hmove ha.1 nofun nofun
  | block t v =>
      refine blocksOnCurrent_goto h (by rw [ha.1]; nofun) ?_
      rintro _ ⟨⟩
      by_contra hv
      have hstays : (s.contents.waitForChange v).isSome = false := ha.2.2
      unfold Contents.waitForChange at hstays
      rw [if_pos hv] at hstays
      cases hstays
  | wake t v notified => exact hmove ha nofun nofun
  | readVersion t | load t | compare t v x y => exact h

/-! ## Runs -/

theorem updatesSeen_of_throwsIntact {value : α}
    (hs : (system ρ T value τ).ReachableWhere (ThrowsIntact T) s) :
    UpdatesSeen s := by
  have hinv : Locked s ∧ AllFit s ∧ BlocksOnCurrent s := by
    refine hs.invariant (fun s => Locked s ∧ AllFit s ∧ BlocksOnCurrent s)
      ?_ ?_
    · rintro s rfl
      exact ⟨fun _ => iff_of_false nofun nofun, fun _ => trivial, nofun⟩
    · intro s a h ha hP
      exact ⟨locked_next h.1 ha, allFit_next h.1 h.2.1 ha hP,
        blocksOnCurrent_next h.2.2 ha⟩
  obtain ⟨hlocked, hfits, hblocks⟩ := hinv
  constructor
  · intro t v x y w hseen
    have hfit := hfits t
    rw [hseen] at hfit
    exact hfit
  · intro t v x hseen hpc hfree
    have hfit := hfits t
    rw [hseen] at hfit
    rcases hblocks t v hpc with hversion | ⟨u, hu⟩
    · exact hfit.2 hversion (settled_of_free hlocked hfree)
    · exact absurd hu (hlocked.pc_ne hfree rfl u)

theorem observe_seen_self {o : Seen α} : (s.observe t o).seen t = o :=
  Function.update_self ..

/-- A thread that calls a writer which throws with the value changed may see
two values at one version. -/
theorem mayMissUpdate_of_not_throwsIntact {value : α} {w : Writer α ρ}
    (ha : Enabled s (.write t w))
    (hnot : ¬ThrowsIntact T s (.write t w)) :
    (system ρ T value τ).MayReach s fun s' => ¬UpdatesSeen s' := by
  obtain ⟨hresult, hvalue⟩ := Classical.not_imp.mp hnot
  have hincrements := w.counts_run.throws hresult
  let M := system ρ T value τ
  let y := (w.run T s.contents.value).value
  let s₁ := M.next s (.readVersion t)
  let s₂ := M.next s₁ (.load t)
  let s₃ := M.next s₂ (.write t w)
  let s₄ := M.next s₃ (.leave t)
  let s₅ := M.next s₄ (.load t)
  have hseen₁ : s₁.seen t = .version s.contents.version := observe_seen_self
  have hseen₂ : s₂.seen t =
      .loaded s.contents.version s.contents.value := by
    refine observe_seen_self.trans ?_
    rw [hseen₁]
    rfl
  have hpc₃ : s₃.pc t = .leaving := by
    refine goto_pc_self.trans ?_
    exact congrArg afterValue hincrements
  have hseen₅ : s₅.seen t =
      .reloaded s.contents.version s.contents.value y := by
    refine observe_seen_self.trans ?_
    rw [show s₄.seen t = _ from hseen₂]
    rfl
  have hload₂ : M.Enabled s₁ (.load t) := ⟨ha.1, ha.2, by rw [hseen₁]; rfl⟩
  have hwrite : M.Enabled s₂ (.write t w) := ha
  have hload₅ : M.Enabled s₄ (.load t) :=
    ⟨goto_pc_self, rfl, by rw [show s₄.seen t = _ from hseen₂]; rfl⟩
  have hcompare : M.Enabled s₅
      (.compare t s.contents.version s.contents.value y) :=
    ⟨goto_pc_self, hseen₅⟩
  refine .of_next (a := .readVersion t) ha.1 (.of_next hload₂
    (.of_next hwrite (.of_next (a := .leave t) hpc₃
      (.of_next hload₅ (.of_next hcompare (.of_now ?_))))))
  intro hseen
  exact hvalue (hseen.unchanged t _ _ _ _ observe_seen_self rfl)

/-- Equal versions mean an unchanged value, and no update is missed, in the
runs in which a writer that throws leaves the value as it was; where one that
does not can be called, an update may be missed. -/
theorem updatesSeen_of_throwsIntact_and_mayReach_not (ρ : Type*)
    (T : ValueType α) (value : α) (τ : Type*) [DecidableEq τ] :
    (∀ s, (system ρ T value τ).ReachableWhere (ThrowsIntact T) s →
      UpdatesSeen s) ∧
    (∀ s a, (system ρ T value τ).Reachable s →
      (system ρ T value τ).Enabled s a → ¬ThrowsIntact T s a →
        (system ρ T value τ).MayReach s fun s' => ¬UpdatesSeen s') := by
  constructor
  · intro s hs
    exact updatesSeen_of_throwsIntact hs
  · intro s a hs ha hnot
    cases a with
    | write t w => exact mayMissUpdate_of_not_throwsIntact ha hnot
    | _ => exact absurd trivial hnot

/-- A thread observes the value before and after another thread has called
`modify` with a function that changes the value and throws. -/
def observeModify (change : ℕ → ℕ) : List (Action Bool ℕ Unit) :=
  [.readVersion true, .load true,
    .write false (.modify fun x => (change x, none)), .leave false,
    .load true, .compare true 0 0 (change 0)]

theorem updatesSeen_observeModify :
    UpdatesSeen ((system Unit (.plain ℕ) 0 Bool).after (initialState 0 Bool)
      (observeModify id)) := by
  refine (updatesSeen_of_throwsIntact_and_mayReach_not Unit (.plain ℕ) 0
    Bool).1 _ ?_
  exact TransitionSystem.Executes.reachableWhere (.init rfl) (by decide)

/-- The value is another one at the same version. -/
theorem not_forall_updatesSeen :
    ¬∀ s : Shared Bool ℕ, (system Unit (.plain ℕ) 0 Bool).Reachable s →
      UpdatesSeen s := by
  intro h
  have hreach : (system Unit (.plain ℕ) 0 Bool).Reachable
      ((system Unit (.plain ℕ) 0 Bool).after (initialState 0 Bool)
        (observeModify (· + 1))) :=
    TransitionSystem.Executes.reachable (.init rfl) (by decide)
  exact absurd ((h _ hreach).unchanged true 0 0 1 0 rfl rfl) (by decide)

end Shared
end SharedValue
end Ethreads
