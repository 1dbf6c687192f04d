import Ethreads.SharedValue.Operations
import Ethreads.Support.Linearizability

/-!
# A shared value as a sequential object

A writer takes effect when it increments the version, or in its section if it
does not come to that; everybody else when it reads.  Between a new value and
its version only the version can be read, so this is the moment at which both
change.
-/

namespace Ethreads
namespace SharedValue
namespace Operations

open SequentialObject (HistoryEvent Status AtomicState standing_same
  moves_hidden moves_call moves_perform moves_ret)

/-- What an operation may return and what it leaves of the contents. -/
inductive ObjectStep {α ρ : Type*} (T : ValueType α) :
    Op α ρ → Contents α → Outcome α ρ → Contents α → Prop
  | load (kind : LoadKind) (c : Contents α) :
      ObjectStep T (.load kind) c (kind.outcome c.value) c
  | write (w : Writer α ρ) (c : Contents α) :
      ObjectStep T (.write w) c (outcomeOf T c.value w) (c.write T w)
  | over (x : Wait α) (c : Contents α) (out : Outcome α ρ) :
      x.found c = some out → ObjectStep T (.wait x) c out c
  | expire (x : Wait α) (c : Contents α) : x.timed = true →
      x.found (ρ := ρ) c = none → ObjectStep T (.wait x) c (.optional none) c
  | peek (kind : Peek) (c : Contents α) :
      ObjectStep T (.peek kind) c (kind.outcome c.version) c

def valueObject {α : Type*} (τ ρ : Type*) (T : ValueType α) :
    SequentialObject τ (Contents α) (Op α ρ) (Outcome α ρ) where
  Step _ := ObjectStep T

def Action.visible {τ α ρ : Type*} :
    Action τ α ρ → Option (HistoryEvent τ (Op α ρ) (Outcome α ρ))
  | call t op => some (.call t op)
  | unlock t op out => some (.ret t op out)
  | ret t op out => some (.ret t op out)
  | _ => none

def Pc.status {α ρ : Type*} : Pc α ρ → Status (Op α ρ) (Outcome α ρ)
  | idle => .idle
  | lock op => .called op
  | copy kind => .called (.load kind)
  | write w | increment w _ => .called (.write w)
  | notifyAll w out => .performed (.write w) out
  | test x _ | waiting x | relock x _ => .called (.wait x)
  | unlock op out => .performed op out
  | peek kind => .called (.peek kind)
  | .return op out => .performed op out

/-- The state of the atomic object that a state of the shared value stands
for. -/
def reading {τ α ρ : Type*} (s : State τ α ρ) :
    AtomicState τ (Contents α) (Op α ρ) (Outcome α ρ) :=
  SequentialObject.standing Pc.status ⟨s.settled, s.version⟩ s.pc

section Steps

variable {τ α ρ : Type*} {policy : LockPolicy} {T : ValueType α} {value : α}

/-! ## The lock -/

/-- Whoever holds the lock exclusively is alone. -/
def Exclusive (policy : LockPolicy) (pc : τ → Pc α ρ) : Prop :=
  ∀ t u, t ≠ u → (pc t).hold policy = .exclusive → (pc u).hold policy = .free

theorem hold_notify (p : Pc α ρ) : p.notify.hold policy = p.hold policy := by
  cases p <;> rfl

theorem status_notify (p : Pc α ρ) : p.notify.status = p.status := by
  cases p <;> rfl

theorem hold_afterCall (op : Op α ρ) : (afterCall op).hold policy = .free := by
  cases op <;> rfl

theorem status_afterCall (op : Op α ρ) :
    (afterCall op).status = .called op := by
  cases op <;> rfl

theorem status_afterLock (op : Op α ρ) :
    (afterLock op).status = .called op := by
  cases op <;> rfl

theorem hold_afterLock (op : Op α ρ) :
    (afterLock op).hold policy = op.hold policy ∨
      (afterLock op).hold policy = .free := by
  cases op with
  | peek kind => exact Or.inr rfl
  | _ => exact Or.inl rfl

theorem Exclusive.notify {pc : τ → Pc α ρ} (h : Exclusive policy pc) :
    Exclusive policy fun u => (pc u).notify := by
  intro t u htu ht
  rw [hold_notify] at ht ⊢
  exact h t u htu ht

variable [DecidableEq τ]

theorem Exclusive.update {pc : τ → Pc α ρ} {v : τ} {q : Pc α ρ}
    (h : Exclusive policy pc)
    (hq : q.hold policy = (pc v).hold policy ∨ q.hold policy = .free) :
    Exclusive policy (Function.update pc v q) := by
  intro t u htu ht
  by_cases htv : t = v
  · subst htv
    rw [Function.update_self] at ht
    rw [Function.update_of_ne (Ne.symm htu)]
    rcases hq with hq | hq
    · exact h t u htu (hq ▸ ht)
    · cases hq.symm.trans ht
  · rw [Function.update_of_ne htv] at ht
    by_cases huv : u = v
    · subst huv
      rw [Function.update_self]
      rcases hq with hq | hq
      · exact hq.trans (h t u htu ht)
      · exact hq
    · rw [Function.update_of_ne huv]
      exact h t u htu ht

/-- A thread that takes the lock. -/
theorem Exclusive.take {pc : τ → Pc α ρ} {v : τ} {q : Pc α ρ}
    (h : Exclusive policy pc) (hq : Available policy pc (q.hold policy)) :
    Exclusive policy (Function.update pc v q) := by
  intro t u htu ht
  by_cases htv : t = v
  · subst htv
    rw [Function.update_self] at ht
    rw [Function.update_of_ne (Ne.symm htu)]
    rw [ht] at hq
    exact hq u
  · rw [Function.update_of_ne htv] at ht
    by_cases huv : u = v
    · subst huv
      rw [Function.update_self]
      cases hhold : q.hold policy with
      | free => rfl
      | shared =>
          rw [hhold] at hq
          exact absurd ht (hq t)
      | exclusive =>
          rw [hhold] at hq
          cases (hq t).symm.trans ht
    · rw [Function.update_of_ne huv]
      exact h t u htu ht

variable {s : State τ α ρ} {a : Action τ α ρ} {t : τ}

/-! ## Steps of a writer -/

theorem write_of_increments {w : Writer α ρ}
    (h : (w.run T s.value).increments = true) :
    s.write T t w =
      { s.goto t (.increment w (outcomeOf T s.value w)) with
        value := (w.run T s.value).value } :=
  if_pos h

theorem write_of_not_increments {w : Writer α ρ}
    (h : (w.run T s.value).increments = false) :
    s.write T t w =
      { s.goto t (.unlock (.write w) (outcomeOf T s.value w)) with
        value := (w.run T s.value).value
        settled := (w.run T s.value).value } := by
  have hnot : ¬(w.run T s.value).increments = true := by
    rw [h]
    exact Bool.false_ne_true
  exact if_neg hnot

theorem exclusive_next (h : Exclusive policy s.pc) (ha : Enabled policy s a) :
    Exclusive policy (next T s a).pc := by
  have hmove : ∀ {t : τ} {p q : Pc α ρ}, s.pc t = p →
      q.hold policy = p.hold policy ∨ q.hold policy = .free →
        Exclusive policy (Function.update s.pc t q) := by
    intro t p q hp hq
    rw [← hp] at hq
    exact h.update hq
  cases a with
  | call t op => exact hmove ha (Or.inr (hold_afterCall op))
  | lock t op =>
      have hafter : (afterLock op).hold policy = op.hold policy ∨
          (afterLock op).hold policy = .free := hold_afterLock op
      rcases hafter with hhold | hhold
      · apply h.take
        rw [hhold]
        exact ha.2
      · exact hmove ha.1 (Or.inr hhold)
  | write t w =>
      change Exclusive policy (s.write T t w).pc
      cases hr : (w.run T s.value).increments with
      | true =>
          rw [write_of_increments hr]
          exact hmove ha (Or.inl rfl)
      | false =>
          rw [write_of_not_increments hr]
          exact hmove ha (Or.inl rfl)
  | notifyAll t w out =>
      have hpc : s.pc t = .notifyAll w out := ha
      apply h.notify.update
      rw [hold_notify, hpc]
      exact Or.inl rfl
  | testOver t x e out => exact hmove ha.1 (Or.inl rfl)
  | testExpired t x => exact hmove ha.1 (Or.inl rfl)
  | block t x => exact hmove ha.1 (Or.inr rfl)
  | wake t x e => exact hmove ha.1 (Or.inl rfl)
  | relock t x e => exact h.take ha.2
  | unlock t op out => exact hmove ha (Or.inr rfl)
  | _ => exact hmove ha (Or.inl rfl)

/-! ## The settled value -/

/-- Between a new value and its version the writer alone has access to the
value, and its call comes out as the settled value makes it. -/
structure Settled (policy : LockPolicy) (T : ValueType α) (s : State τ α ρ) :
    Prop where
  exclusive : Exclusive policy s.pc
  pending : ∀ t w out, s.pc t = .increment w out →
    (w.run T s.settled).increments = true ∧
      (w.run T s.settled).value = s.value ∧ outcomeOf T s.settled w = out
  settled : (∀ t w out, s.pc t ≠ .increment w out) → s.settled = s.value

omit [DecidableEq τ] in
/-- Whoever holds the lock sees the settled value, except a writer between a
new value and its version. -/
theorem Settled.eq_of_holds (h : Settled policy T s) {p : Pc α ρ}
    (hp : s.pc t = p) (hhold : p.hold policy ≠ .free)
    (hne : ∀ w out, p ≠ .increment w out) : s.settled = s.value := by
  apply h.settled
  intro u w out hu
  have hut : u ≠ t := by
    rintro rfl
    exact hne w out (hp.symm.trans hu)
  have hfree : (s.pc t).hold policy = .free := by
    apply h.exclusive u t hut
    rw [hu]
    rfl
  rw [hp] at hfree
  exact hhold hfree

/-- Where the writers stand that have still to increment the version. -/
theorem increment_update {f : τ → Pc α ρ} {p q : Pc α ρ} (hp : f t = p)
    (hold : ∀ w out, p ≠ .increment w out)
    (hnew : ∀ w out, q ≠ .increment w out) (u : τ) (w : Writer α ρ)
    (out : Outcome α ρ) :
    Function.update f t q u = .increment w out ↔ f u = .increment w out := by
  by_cases hu : u = t
  · subst hu
    rw [Function.update_self, hp]
    exact ⟨fun h => absurd h (hnew w out), fun h => absurd h (hold w out)⟩
  · rw [Function.update_of_ne hu]

omit [DecidableEq τ] in
theorem Settled.of_same {s' : State τ α ρ} (h : Settled policy T s)
    (hexclusive : Exclusive policy s'.pc) (hvalue : s'.value = s.value)
    (hsettled : s'.settled = s.settled)
    (hpc : ∀ t w out, s'.pc t = .increment w out ↔ s.pc t = .increment w out) :
    Settled policy T s' where
  exclusive := hexclusive
  pending t w out ht := by
    rw [hvalue, hsettled]
    exact h.pending t w out ((hpc t w out).mp ht)
  settled hnone := by
    rw [hvalue, hsettled]
    exact h.settled fun t w out ht => hnone t w out ((hpc t w out).mpr ht)

theorem settled_write {w : Writer α ρ} (h : Settled policy T s)
    (ha : Enabled policy s (.write t w)) :
    Settled policy T (next T s (.write t w)) := by
  have hpc : s.pc t = .write w := ha
  have hexclusive := exclusive_next (T := T) h.exclusive ha
  have heq : s.settled = s.value := h.eq_of_holds hpc nofun nofun
  have hothers : ∀ u w' out, u ≠ t → s.pc u ≠ .increment w' out := by
    intro u w' out hut hu
    have hfree : (s.pc u).hold policy = .free := by
      apply h.exclusive t u (Ne.symm hut)
      rw [hpc]
      rfl
    rw [hu] at hfree
    cases hfree
  cases hr : (w.run T s.value).increments with
  | true =>
      have hnext : next T s (.write t w) = _ := write_of_increments hr
      rw [hnext] at hexclusive ⊢
      refine ⟨hexclusive, ?_, fun hnone => ?_⟩
      · intro u w' out hu
        by_cases hut : u = t
        · subst hut
          simp only [State.goto, Function.update_self, Pc.increment.injEq] at hu
          obtain ⟨rfl, rfl⟩ := hu
          change (w.run T s.settled).increments = true ∧
            (w.run T s.settled).value = (w.run T s.value).value ∧
              outcomeOf T s.settled w = outcomeOf T s.value w
          rw [heq]
          exact ⟨hr, rfl, rfl⟩
        · simp only [State.goto, Function.update_of_ne hut] at hu
          exact absurd hu (hothers u w' out hut)
      · exact absurd (Function.update_self _ _ _) (hnone t w _)
  | false =>
      have hnext : next T s (.write t w) = _ := write_of_not_increments hr
      rw [hnext] at hexclusive ⊢
      refine ⟨hexclusive, fun u w' out hu => ?_, fun _ => rfl⟩
      have hold := (increment_update
        (q := .unlock (.write w) (outcomeOf T s.value w)) hpc nofun nofun u w'
        out).mp hu
      by_cases hut : u = t
      · subst hut
        cases hpc.symm.trans hold
      · exact absurd hold (hothers u w' out hut)

theorem settled_next (h : Settled policy T s) (ha : Enabled policy s a) :
    Settled policy T (next T s a) := by
  have hexclusive := exclusive_next (T := T) h.exclusive ha
  have hmove : ∀ {t : τ} {p q : Pc α ρ}, s.pc t = p →
      (next T s a).pc = Function.update s.pc t q →
      (next T s a).value = s.value → (next T s a).settled = s.settled →
      (∀ w out, p ≠ .increment w out) → (∀ w out, q ≠ .increment w out) →
        Settled policy T (next T s a) := by
    intro t p q hp hpc hvalue hsettled hold hnew
    refine h.of_same hexclusive hvalue hsettled ?_
    rw [hpc]
    exact increment_update hp hold hnew
  cases a with
  | call t op =>
      refine hmove ha rfl rfl rfl nofun ?_
      cases op <;> exact nofun
  | lock t op =>
      refine hmove ha.1 rfl rfl rfl nofun ?_
      cases op <;> exact nofun
  | copy t kind => exact hmove ha rfl rfl rfl nofun nofun
  | write t w => exact settled_write h ha
  | increment t w out =>
      have hpc : s.pc t = .increment w out := ha
      refine ⟨hexclusive, fun u w' out' hu => ?_, fun _ => rfl⟩
      by_cases hut : u = t
      · subst hut
        simp only [next, State.goto, Function.update_self, reduceCtorEq] at hu
      · simp only [next, State.goto, Function.update_of_ne hut] at hu
        have hfree : (s.pc u).hold policy = .free := by
          apply h.exclusive t u (Ne.symm hut)
          rw [hpc]
          rfl
        rw [hu] at hfree
        cases hfree
  | notifyAll t w out =>
      have hpc : s.pc t = .notifyAll w out := ha
      refine h.of_same hexclusive rfl rfl fun u w' out' => ?_
      have hnotify : (s.pc u).notify = .increment w' out' ↔
          s.pc u = .increment w' out' := by
        cases s.pc u <;> simp [Pc.notify]
      rw [← hnotify]
      have hself : (s.pc t).notify = .notifyAll w out := by
        rw [hpc]
        rfl
      exact increment_update (f := fun u => (s.pc u).notify)
        (q := .unlock (.write w) out) hself nofun nofun u w' out'
  | testOver t x e out => exact hmove ha.1 rfl rfl rfl nofun nofun
  | testExpired t x => exact hmove ha.1 rfl rfl rfl nofun nofun
  | block t x => exact hmove ha.1 rfl rfl rfl nofun nofun
  | wake t x e => exact hmove ha.1 rfl rfl rfl nofun nofun
  | relock t x e => exact hmove ha.1 rfl rfl rfl nofun nofun
  | unlock t op out => exact hmove ha rfl rfl rfl nofun nofun
  | peek t kind => exact hmove ha rfl rfl rfl nofun nofun
  | ret t op out => exact hmove ha rfl rfl rfl nofun nofun

theorem settled_reachable (hs : (system τ ρ policy T value).Reachable s) :
    Settled policy T s := by
  refine hs.invariant (Settled policy T) ?_ fun s a h ha => settled_next h ha
  rintro s rfl
  exact ⟨fun _ _ _ _ => rfl, nofun, fun _ => rfl⟩

/-! ## Time-outs -/

def Pc.TimesOut : Pc α ρ → Prop
  | test x e | relock x e => e = true → x.timed = true
  | _ => True

theorem timesOut_next (h : ∀ u, (s.pc u).TimesOut) (ha : Enabled policy s a)
    (v : τ) : ((next T s a).pc v).TimesOut := by
  have hmove : ∀ {f : τ → Pc α ρ} {t : τ} {q : Pc α ρ},
      (∀ u, (f u).TimesOut) → q.TimesOut →
        (Function.update f t q v).TimesOut := by
    intro f t q hf hq
    by_cases hv : v = t
    · subst hv
      rwa [Function.update_self]
    · rw [Function.update_of_ne hv]
      exact hf v
  cases a with
  | call t op =>
      apply hmove h
      cases op <;> trivial
  | lock t op =>
      apply hmove h
      cases op with
      | wait x => exact nofun
      | _ => trivial
  | write t w =>
      change ((s.write T t w).pc v).TimesOut
      cases hr : (w.run T s.value).increments with
      | true =>
          rw [write_of_increments hr]
          exact hmove h trivial
      | false =>
          rw [write_of_not_increments hr]
          exact hmove h trivial
  | notifyAll t w out =>
      have hnotify : ∀ u, (s.pc u).notify.TimesOut := by
        intro u
        have hu := h u
        cases hpc : s.pc u <;> rw [hpc] at hu
        case waiting => exact nofun
        all_goals exact hu
      exact hmove (f := fun u => (s.pc u).notify) hnotify trivial
  | wake t x e => exact hmove h ha.2
  | relock t x e =>
      have ht := h t
      rw [ha.1] at ht
      exact hmove h ht
  | _ => exact hmove h trivial

theorem timesOut_reachable (hs : (system τ ρ policy T value).Reachable s)
    (t : τ) : (s.pc t).TimesOut := by
  refine hs.invariant (fun s => ∀ t, (s.pc t).TimesOut) ?_
    (fun s a h ha => timesOut_next h ha) t
  rintro s rfl t
  trivial

/-! ## Every step is a step of the sequential shared value -/

omit [DecidableEq τ] in
/-- What the holder of the lock sees. -/
theorem contents_of_holds (h : Settled policy T s) {p : Pc α ρ}
    (hp : s.pc t = p) (hhold : p.hold policy ≠ .free)
    (hne : ∀ w out, p ≠ .increment w out) :
    (⟨s.settled, s.version⟩ : Contents α) = s.contents := by
  rw [h.eq_of_holds hp hhold hne]
  rfl

theorem hold_copy_ne (kind : LoadKind) :
    (Pc.copy kind : Pc α ρ).hold policy ≠ .free := by
  cases policy <;> exact nofun

theorem moves_write {w : Writer α ρ} (h : Settled policy T s)
    (ha : Enabled policy s (.write t w)) :
    (valueObject τ ρ T).Moves (initial value) (reading s)
      (reading (next T s (.write t w))) none := by
  have hpc : s.pc t = .write w := ha
  have heq : s.settled = s.value := h.eq_of_holds hpc nofun nofun
  cases hr : (w.run T s.value).increments with
  | true =>
      have hnext : next T s (.write t w) = _ := write_of_increments hr
      rw [hnext]
      exact moves_hidden hpc rfl rfl
  | false =>
      have hnext : next T s (.write t w) = _ := write_of_not_increments hr
      rw [hnext]
      have hcontents : (⟨s.settled, s.version⟩ : Contents α).write T w =
          ⟨(w.run T s.value).value, s.version⟩ := by
        unfold Contents.write
        rw [heq, hr]
        rfl
      have hstep : ObjectStep T (.write w) ⟨s.settled, s.version⟩
          (outcomeOf T s.value w) ⟨(w.run T s.value).value, s.version⟩ := by
        rw [← hcontents, ← heq]
        exact .write w _
      exact moves_perform hpc rfl rfl rfl hstep

theorem moves_increment {w : Writer α ρ} {out : Outcome α ρ}
    (h : Settled policy T s) (ha : Enabled policy s (.increment t w out)) :
    (valueObject τ ρ T).Moves (initial value) (reading s)
      (reading (next T s (.increment t w out))) none := by
  obtain ⟨hincrements, hvalue, hout⟩ := h.pending t w out ha
  have hcontents : (⟨s.settled, s.version⟩ : Contents α).write T w =
      ⟨s.value, s.version + 1⟩ := by
    unfold Contents.write
    rw [hvalue, hincrements]
    rfl
  have hstep : ObjectStep T (.write w) ⟨s.settled, s.version⟩ out
      ⟨s.value, s.version + 1⟩ := by
    rw [← hcontents, ← hout]
    exact .write w _
  exact moves_perform ha rfl rfl rfl hstep

theorem reading_notifyAll {w : Writer α ρ} {out : Outcome α ρ}
    (hpc : s.pc t = .notifyAll w out) :
    reading (next T s (.notifyAll t w out)) = reading s := by
  have hmid : reading { s with pc := fun u => (s.pc u).notify } =
      reading s := by
    unfold reading SequentialObject.standing
    congr 1
    funext u
    exact status_notify (s.pc u)
  have hself : (s.pc t).notify = .notifyAll w out := by
    rw [hpc]
    rfl
  rw [← hmid]
  exact standing_same hself rfl rfl

end Steps

/-- The steps of a shared value are steps of the sequential one. -/
theorem readsAs_value {α : Type*} (τ ρ : Type*) [DecidableEq τ]
    (policy : LockPolicy) (T : ValueType α) (value : α) :
    SequentialObject.ReadsAs (system τ ρ policy T value)
      (fun _ => Action.visible) (valueObject τ ρ T) (initial value)
      reading where
  initial := by
    rintro s rfl
    rfl
  step s a hs ha := by
    have h := settled_reachable hs
    cases a with
    | call t op => exact moves_call ha rfl rfl (status_afterCall op)
    | lock t op => exact moves_hidden ha.1 rfl (status_afterLock op)
    | copy t kind =>
        have heq : s.settled = s.value :=
          h.eq_of_holds ha (hold_copy_ne kind) nofun
        have hstep : ObjectStep T (.load kind) ⟨s.settled, s.version⟩
            (kind.outcome (ρ := ρ) s.value) ⟨s.settled, s.version⟩ := by
          rw [heq]
          exact .load kind _
        exact moves_perform ha rfl rfl rfl hstep
    | write t w => exact moves_write h ha
    | increment t w out => exact moves_increment h ha
    | notifyAll t w out => exact .refl (reading_notifyAll (T := T) ha)
    | testOver t x e out =>
        have hcontents := contents_of_holds h ha.1 nofun nofun
        have hstep : ObjectStep T (.wait x) ⟨s.settled, s.version⟩ out
            ⟨s.settled, s.version⟩ := by
          rw [hcontents]
          exact .over x _ out ha.2
        exact moves_perform ha.1 rfl rfl rfl hstep
    | testExpired t x =>
        have htimed := timesOut_reachable hs t
        rw [ha.1] at htimed
        have hcontents := contents_of_holds h ha.1 nofun nofun
        have hstep : ObjectStep T (.wait x) ⟨s.settled, s.version⟩
            (.optional none : Outcome α ρ) ⟨s.settled, s.version⟩ := by
          rw [hcontents]
          exact .expire x _ (htimed rfl) ha.2
        exact moves_perform ha.1 rfl rfl rfl hstep
    | block t x => exact moves_hidden ha.1 rfl rfl
    | wake t x e => exact moves_hidden ha.1 rfl rfl
    | relock t x e => exact moves_hidden ha.1 rfl rfl
    | unlock t op out => exact moves_ret ha rfl rfl rfl
    | peek t kind =>
        have hstep : ObjectStep T (.peek kind) ⟨s.settled, s.version⟩
            (kind.outcome (ρ := ρ) s.version) ⟨s.settled, s.version⟩ :=
          .peek kind _
        exact moves_perform ha rfl rfl rfl hstep
    | ret t op out => exact moves_ret ha rfl rfl rfl

/-- A shared value is linearizable: in every run, the calls that have returned,
in a suitable order that respects real time, form a run of the sequential
shared value. -/
theorem linearizable_value {τ α ρ : Type*} [DecidableEq τ]
    {policy : LockPolicy} {T : ValueType α} {value : α}
    {l : List (Action τ α ρ)}
    (hl : (system τ ρ policy T value).Executes (initialState τ ρ value) l) :
    (valueObject τ ρ T).Linearizable (initial value)
      (l.filterMap Action.visible) :=
  (readsAs_value τ ρ policy T value).linearizable rfl hl

/-- A store while another thread waits for a change: in between the version is
still the old one. -/
def storeWhileWaiting : List (Action (Fin 3) ℕ Unit) :=
  [.call 0 (.wait (.forChange 0)), .lock 0 (.wait (.forChange 0)),
    .block 0 (.forChange 0), .call 1 (.write (.store 5)),
    .lock 1 (.write (.store 5)), .write 1 (.store 5), .call 2 (.peek .version),
    .peek 2 .version, .ret 2 (.peek .version) (.version 0),
    .increment 1 (.store 5) .returned, .notifyAll 1 (.store 5) .returned,
    .unlock 1 (.write (.store 5)) .returned, .relock 0 (.forChange 0) false,
    .testOver 0 (.forChange 0) false (.value 5),
    .unlock 0 (.wait (.forChange 0)) (.value 5)]

theorem executes_storeWhileWaiting :
    (system (Fin 3) Unit .sharedMutex (ValueType.plain ℕ) 0).Executes
      (initialState (Fin 3) Unit 0) storeWhileWaiting :=
  ⟨rfl, ⟨rfl, by decide⟩, ⟨rfl, rfl⟩, rfl, ⟨rfl, by decide⟩, rfl, rfl, rfl, rfl,
    rfl, rfl, rfl, ⟨rfl, by decide⟩, ⟨rfl, rfl⟩, rfl, trivial⟩

theorem linearizable_storeWhileWaiting :
    (valueObject (Fin 3) Unit (ValueType.plain ℕ)).Linearizable (initial 0)
      (storeWhileWaiting.filterMap Action.visible) :=
  linearizable_value executes_storeWhileWaiting

end Operations
end SharedValue
end Ethreads
