import Ethreads.Support.Mutex
import Ethreads.Support.Tally
import Ethreads.Support.TransitionSystem
import Mathlib.Algebra.BigOperators.Ring.Finset
import Mathlib.Data.ENat.Basic
import Mathlib.Data.Fintype.Basic

/-!
# Monitors

A monitor guards data with a mutex and has one condition variable.  Each of its
operations locks the mutex, may wait until a predicate holds of the data, acts
on the data, sends notifications and unlocks.

A wait that finds its predicate false releases the mutex and joins the wait set
in one step.  A waiting thread leaves the set when it is notified, or else when
its time is up or spuriously; then it locks the mutex and tests its predicate
again.  An operation that finds its time up and the predicate false has no
effect.
-/

namespace Ethreads

/-- What a section sends before it ends: a number of `notify_one`, or one
`notify_all`. -/
inductive Notifications
  | one (count : ℕ)
  | all
  deriving DecidableEq, Repr

/-- How many threads the notifications may release. -/
def Notifications.total : Notifications → ℕ∞
  | one count => count
  | all => ⊤

/-- Data of type `δ` with operations of type `ο` that return a `ρ`. -/
structure Monitor (δ ο ρ : Type*) where
  waits : ο → Bool
  timed : ο → Bool
  ready : ο → δ → Bool
  effect : ο → δ → δ
  result : ο → δ → ρ
  notifications : ο → Notifications
  expired : ο → ρ

namespace Monitor

/-- Where a thread stands.  At `test` and `finish` it holds the mutex; the flags
of `test` say whether its time is up and whether it has been notified. -/
inductive Pc (ο ρ : Type*)
  | idle
  | lock (op : ο)
  | test (op : ο) (expired notified : Bool)
  | waiting (op : ο)
  | notified (op : ο)
  | woken (op : ο)
  | finish (op : ο) (left : Notifications) (result : ρ)
  deriving DecidableEq, Repr

/-- An operation that has acted on the data. -/
structure Event (τ δ ο : Type*) where
  thread : τ
  op : ο
  before : δ
  after : δ
  deriving DecidableEq, Repr

/-- The data, the mutex and the threads.  `performed` is not part of the
program: it records the operations in the order in which they act. -/
structure State (τ δ ο ρ : Type*) where
  data : δ
  mutex : Option τ
  pc : τ → Pc ο ρ
  performed : List (Event τ δ ο)

def initialState (τ ο ρ : Type*) {δ : Type*} (d : δ) : State τ δ ο ρ where
  data := d
  mutex := none
  pc := fun _ => .idle
  performed := []

namespace Pc

variable {ο ρ : Type*}

def isWaiting : Pc ο ρ → Bool
  | waiting _ => true
  | _ => false

/-- The thread has been notified and has not tested its predicate since. -/
def isNotified : Pc ο ρ → Bool
  | notified _ => true
  | test _ _ b => b
  | _ => false

def holdsMutex : Pc ο ρ → Bool
  | test _ _ _ | finish _ _ _ => true
  | _ => false

/-- The thread has acted on the data and has notifications left. -/
def isNotifying : Pc ο ρ → Bool
  | finish _ left _ => decide (left ≠ .one 0)
  | _ => false

def mark : Pc ο ρ → Pc ο ρ
  | waiting op => notified op
  | pc => pc

end Pc

inductive Action (τ ο ρ : Type*)
  | call (t : τ) (op : ο)
  | lock (t : τ) (op : ο)
  | perform (t : τ) (op : ο) (expired notified : Bool)
  | block (t : τ) (op : ο) (notified : Bool)
  | expire (t : τ) (op : ο) (notified : Bool)
  | wake (t : τ) (op : ο)
  | relock (t : τ) (op : ο) (expired notified : Bool)
  | notifyOne (t : τ) (op : ο) (count : ℕ) (result : ρ) (u : τ) (op' : ο)
  | notifyNobody (t : τ) (op : ο) (count : ℕ) (result : ρ)
  | notifyAll (t : τ) (op : ο) (result : ρ)
  | unlock (t : τ) (op : ο) (result : ρ)
  deriving DecidableEq, Repr

section System

variable {τ δ ο ρ : Type*} (M : Monitor δ ο ρ)

def Enabled (s : State τ δ ο ρ) : Action τ ο ρ → Prop
  | .call t _ => s.pc t = .idle
  | .lock t op => s.pc t = .lock op ∧ s.mutex = none
  | .perform t op e n =>
      s.pc t = .test op e n ∧ (M.waits op = true → M.ready op s.data = true)
  | .block t op n =>
      s.pc t = .test op false n ∧ M.waits op = true ∧
        M.ready op s.data = false
  | .expire t op n =>
      s.pc t = .test op true n ∧ M.waits op = true ∧ M.ready op s.data = false
  | .wake t op => s.pc t = .waiting op
  | .relock t op e n =>
      s.pc t = (if n then .notified op else .woken op) ∧ s.mutex = none ∧
        (e = true → M.timed op = true)
  | .notifyOne t op k r u op' =>
      s.pc t = .finish op (.one (k + 1)) r ∧ s.pc u = .waiting op'
  | .notifyNobody t op k r =>
      s.pc t = .finish op (.one (k + 1)) r ∧ ∀ u, (s.pc u).isWaiting = false
  | .notifyAll t op r => s.pc t = .finish op .all r
  | .unlock t op r => s.pc t = .finish op (.one 0) r

instance [Fintype τ] [DecidableEq τ] [DecidableEq ο] [DecidableEq ρ]
    (s : State τ δ ο ρ) (a : Action τ ο ρ) : Decidable (Enabled M s a) := by
  cases a <;> dsimp only [Enabled] <;> infer_instance

variable [DecidableEq τ]

def State.goto (s : State τ δ ο ρ) (t : τ) (q : Pc ο ρ) : State τ δ ο ρ :=
  { s with pc := Function.update s.pc t q }

def next (s : State τ δ ο ρ) : Action τ ο ρ → State τ δ ο ρ
  | .call t op => s.goto t (.lock op)
  | .lock t op => { s.goto t (.test op false false) with mutex := some t }
  | .perform t op _ _ =>
      { s.goto t (.finish op (M.notifications op) (M.result op s.data)) with
        data := M.effect op s.data
        performed :=
          s.performed ++ [⟨t, op, s.data, M.effect op s.data⟩] }
  | .block t op _ => { s.goto t (.waiting op) with mutex := none }
  | .expire t op _ => s.goto t (.finish op (.one 0) (M.expired op))
  | .wake t op => s.goto t (.woken op)
  | .relock t op e n => { s.goto t (.test op e n) with mutex := some t }
  | .notifyOne t op k r u op' =>
      (s.goto u (.notified op')).goto t (.finish op (.one k) r)
  | .notifyNobody t op k r => s.goto t (.finish op (.one k) r)
  | .notifyAll t op r =>
      { s with pc := fun u => (s.pc u).mark }.goto t (.finish op (.one 0) r)
  | .unlock t _ _ => { s.goto t .idle with mutex := none }

/-- The monitor with data `d` at first, as a transition system. -/
def system (d : δ) : TransitionSystem (State τ δ ο ρ) (Action τ ο ρ) where
  Initial s := s = initialState τ ο ρ d
  Enabled := Enabled M
  next := next M

instance [Fintype τ] [DecidableEq ο] [DecidableEq ρ] (d : δ)
    (s : State τ δ ο ρ) (a : Action τ ο ρ) :
    Decidable ((system M d).Enabled s a) :=
  inferInstanceAs (Decidable (Enabled M s a))

end System

/-! ## Mutual exclusion -/

section Exclusion

variable {τ δ ο ρ : Type*} [DecidableEq τ] {M : Monitor δ ο ρ}
  {s : State τ δ ο ρ} {a : Action τ ο ρ} {d : δ}

theorem holdsMutex_mark (p : Pc ο ρ) : p.mark.holdsMutex = p.holdsMutex := by
  cases p <;> rfl

/-- The owner recorded in the mutex is the thread inside a section. -/
theorem exclusive_next (h : Guards Pc.holdsMutex s.mutex s.pc)
    (ha : Enabled M s a) :
    Guards Pc.holdsMutex (next M s a).mutex (next M s a).pc := by
  cases a with
  | call t op =>
      have ht : s.pc t = .idle := ha
      exact h.stay (by rw [ht]; rfl)
  | lock t op => exact h.enter ha.2 rfl
  | perform t op e n | expire t op n => exact h.stay (by rw [ha.1]; rfl)
  | block t op n => exact h.leave (by rw [ha.1]; rfl) rfl
  | wake t op =>
      have ht : s.pc t = .waiting op := ha
      exact h.stay (by rw [ht]; rfl)
  | relock t op e n => exact h.enter ha.2.1 rfl
  | notifyOne t op k r u op' =>
      obtain ⟨ht, hu⟩ := ha
      have htu : t ≠ u := by
        rintro rfl
        exact nomatch ht.symm.trans hu
      have hmid : Guards Pc.holdsMutex s.mutex
          (Function.update s.pc u (.notified op')) :=
        h.stay (by rw [hu]; rfl)
      refine hmid.stay ?_
      rw [Function.update_of_ne htu, ht]
      rfl
  | notifyNobody t op k r => exact h.stay (by rw [ha.1]; rfl)
  | notifyAll t op r =>
      have ht : s.pc t = .finish op .all r := ha
      refine (h.map holdsMutex_mark).stay ?_
      rw [ht]
      rfl
  | unlock t op r =>
      have ht : s.pc t = .finish op (.one 0) r := ha
      exact h.leave (by rw [ht]; rfl) rfl

theorem exclusive_reachable (hs : (system M d).Reachable s) :
    Guards Pc.holdsMutex s.mutex s.pc := by
  refine hs.invariant (fun s => Guards Pc.holdsMutex s.mutex s.pc) ?_
    fun s a h ha => exclusive_next h ha
  rintro s rfl t
  exact iff_of_false nofun nofun

end Exclusion

/-! ## The order in which the operations act -/

section Order

variable {τ δ ο ρ : Type*} {M : Monitor δ ο ρ}

/-- The events lead from the first data to the second: each starts from what
the one before has left, and an operation that waits finds its predicate
true. -/
inductive Leads (M : Monitor δ ο ρ) (d : δ) : List (Event τ δ ο) → δ → Prop
  | nil : Leads M d [] d
  | snoc {es : List (Event τ δ ο)} {d' : δ} (t : τ) (op : ο) :
      Leads M d es d' → (M.waits op = true → M.ready op d' = true) →
        Leads M d (es ++ [⟨t, op, d', M.effect op d'⟩]) (M.effect op d')

variable {d : δ}

/-- What holds of every operation that finds its predicate true holds of every
event. -/
theorem Leads.forall_mem {es : List (Event τ δ ο)} {d' : δ}
    (h : Leads M d es d') (P : Event τ δ ο → Prop)
    (hP : ∀ t op b, (M.waits op = true → M.ready op b = true) →
      P ⟨t, op, b, M.effect op b⟩) : ∀ e ∈ es, P e := by
  induction h with
  | nil => exact nofun
  | snoc t op _ hready ih =>
      intro e he
      rcases List.mem_append.mp he with hold | hnew
      · exact ih e hold
      · rw [List.mem_singleton.mp hnew]
        exact hP t op _ hready

theorem Leads.of_append {es : List (Event τ δ ο)} {d' : δ}
    (es' : List (Event τ δ ο)) (h : Leads M d (es ++ es') d') :
    ∃ d'', Leads M d es d'' := by
  induction es' using List.reverseRecOn generalizing d' with
  | nil =>
      rw [List.append_nil] at h
      exact ⟨d', h⟩
  | append_singleton es' e ih =>
      rw [← List.append_assoc] at h
      generalize hall : es ++ es' ++ [e] = all at h
      cases h with
      | nil => simp at hall
      | snoc t op hprefix _ =>
          obtain ⟨rfl, -⟩ := List.append_inj' hall rfl
          exact ih hprefix

variable [DecidableEq τ] {s : State τ δ ο ρ}

/-- The data is what the operations make of it one after the other. -/
theorem leads_reachable (hs : (system M d).Reachable s) :
    Leads M d s.performed s.data := by
  refine hs.invariant (fun s => Leads M d s.performed s.data) ?_ ?_
  · rintro s rfl
    exact .nil
  · intro s a h ha
    cases a with
    | perform t op e n => exact .snoc t op h ha.2
    | _ => exact h

end Order

/-! ## Notifications -/

/-- What a thread may still release: the threads that it has to notify, or
itself, if it has been notified. -/
def Pc.token {ο ρ : Type*} : Pc ο ρ → ℕ∞
  | notified _ => 1
  | test _ _ b => if b then 1 else 0
  | finish _ left _ => left.total
  | _ => 0

/-- How many threads the data lets pass.  A wait that succeeds uses up one of
them, and whoever lets more threads pass notifies as many. -/
structure Credit {δ ο ρ : Type*} (M : Monitor δ ο ρ) (credit : δ → ℕ∞) :
    Prop where
  block : ∀ op d, M.waits op = true → M.ready op d = false → credit d = 0
  pass : ∀ op d, M.waits op = true → M.ready op d = true →
    credit (M.effect op d) + 1 ≤ credit d + (M.notifications op).total
  act : ∀ op d, M.waits op = false →
    credit (M.effect op d) ≤ credit d + (M.notifications op).total

section Notifications

variable {τ δ ο ρ : Type*} [Fintype τ] {M : Monitor δ ο ρ} {credit : δ → ℕ∞}

/-- What all threads may still release. -/
def tokens (pc : τ → Pc ο ρ) : ℕ∞ :=
  ∑ t, (pc t).token

/-- If a thread waits, those that the data lets pass are on their way or will
be notified. -/
def Covered (credit : δ → ℕ∞) (s : State τ δ ο ρ) : Prop :=
  (∃ u, (s.pc u).isWaiting = true) → credit s.data ≤ tokens s.pc

variable [DecidableEq τ] {s s' : State τ δ ο ρ} {a : Action τ ο ρ} {d : δ}

theorem tokens_update (pc : τ → Pc ο ρ) (t : τ) (q : Pc ο ρ) :
    tokens (Function.update pc t q) + (pc t).token =
      tokens pc + q.token := by
  unfold tokens
  rw [← Finset.add_sum_erase _ _ (Finset.mem_univ t),
    ← Finset.add_sum_erase (a := t) _ (fun u => (pc u).token)
      (Finset.mem_univ t), Function.update_self]
  have hrest : ∑ u ∈ Finset.univ.erase t, (Function.update pc t q u).token =
      ∑ u ∈ Finset.univ.erase t, (pc u).token := by
    refine Finset.sum_congr rfl fun u hu => ?_
    rw [Function.update_of_ne (Finset.ne_of_mem_erase hu)]
  rw [hrest, add_right_comm, add_right_comm (pc t).token,
    add_comm q.token]

/-- A thread moves from `p` to `q` and uses up no more than it releases. -/
theorem credit_le_of_update {t : τ} {p q : Pc ο ρ} (hp : s.pc t = p)
    (hpc : s'.pc = Function.update s.pc t q)
    (hle : credit s.data ≤ tokens s.pc) (hfinite : p.token ≠ ⊤)
    (hbalance : credit s'.data + p.token ≤ credit s.data + q.token) :
    credit s'.data ≤ tokens s'.pc := by
  have hmove := tokens_update s.pc t q
  rw [hp] at hmove
  rw [hpc]
  refine (ENat.add_le_add_iff_right hfinite).mp ?_
  rw [hmove]
  exact hbalance.trans (add_le_add hle le_rfl)

omit [Fintype τ] [DecidableEq τ] in
theorem isWaiting_mark (p : Pc ο ρ) : p.mark.isWaiting = false := by
  cases p <;> rfl

omit [Fintype τ] in
theorem exists_waiting_of_update {pc : τ → Pc ο ρ} {t : τ} {q : Pc ο ρ}
    (hq : q.isWaiting = false)
    (h : ∃ u, (Function.update pc t q u).isWaiting = true) :
    ∃ u, (pc u).isWaiting = true := by
  obtain ⟨u, hu⟩ := h
  by_cases hut : u = t
  · subst hut
    rw [Function.update_self, hq] at hu
    exact nomatch hu
  · rw [Function.update_of_ne hut] at hu
    exact ⟨u, hu⟩

/-- `notify_one` passes its token on to the thread that it wakes. -/
theorem tokens_notifyOne {t u : τ} {op op' : ο} {k : ℕ} {r : ρ}
    (ht : s.pc t = .finish op (.one (k + 1)) r)
    (hu : s.pc u = .waiting op') :
    tokens (next M s (.notifyOne t op k r u op')).pc = tokens s.pc := by
  have htu : t ≠ u := by
    rintro rfl
    exact nomatch ht.symm.trans hu
  have hmid := tokens_update s.pc u (.notified op')
  have hend := tokens_update (Function.update s.pc u (.notified op')) t
    (.finish op (.one k) r)
  rw [hu] at hmid
  rw [Function.update_of_ne htu, ht] at hend
  simp only [Pc.token, Notifications.total, add_zero, Nat.cast_add,
    Nat.cast_one] at hmid hend
  rw [hmid, add_assoc, add_comm 1] at hend
  refine (WithTop.add_right_inj ?_).mp hend
  exact ENat.natCast_ne_top (k + 1)

/-- Only operations that wait are notified. -/
def Pc.Legal (M : Monitor δ ο ρ) : Pc ο ρ → Prop
  | waiting op | notified op | woken op => M.waits op = true
  | test op _ b => b = true → M.waits op = true
  | _ => True

omit [Fintype τ] in
theorem legal_next (h : ∀ t, (s.pc t).Legal M) (ha : Enabled M s a) (v : τ) :
    ((next M s a).pc v).Legal M := by
  have hmove : ∀ {t} {q : Pc ο ρ}, q.Legal M →
      (Function.update s.pc t q v).Legal M := by
    intro t q hq
    by_cases hv : v = t
    · subst hv
      rwa [Function.update_self]
    · rw [Function.update_of_ne hv]
      exact h v
  cases a with
  | call t op => exact hmove trivial
  | lock t op => exact hmove nofun
  | perform t op e n | expire t op n | notifyNobody t op k r
  | unlock t op r => exact hmove trivial
  | block t op n => exact hmove ha.2.1
  | wake t op =>
      have hop := h t
      rw [show s.pc t = .waiting op from ha] at hop
      exact hmove hop
  | relock t op e n =>
      have hop := h t
      rw [ha.1] at hop
      refine hmove fun hn => ?_
      rwa [if_pos hn] at hop
  | notifyOne t op k r u op' =>
      have hop := h u
      rw [ha.2] at hop
      change (Function.update (Function.update s.pc u (.notified op')) t
        (.finish op (.one k) r) v).Legal M
      by_cases hv : v = t
      · subst hv
        rw [Function.update_self]
        trivial
      · rw [Function.update_of_ne hv]
        exact hmove hop
  | notifyAll t op r =>
      change (Function.update (fun u => (s.pc u).mark) t
        (.finish op (.one 0) r) v).Legal M
      by_cases hv : v = t
      · subst hv
        rw [Function.update_self]
        trivial
      · rw [Function.update_of_ne hv]
        have hold := h v
        cases hpc : s.pc v <;> rw [hpc] at hold <;> exact hold

omit [Fintype τ] in
theorem legal_reachable (hs : (system M d).Reachable s) :
    ∀ t, (s.pc t).Legal M := by
  refine hs.invariant (fun s => ∀ t, (s.pc t).Legal M) ?_
    fun s a h ha => legal_next h ha
  rintro s rfl t
  trivial

/-- The action of an operation on the data is covered by its notifications, and
by the notification that it has got. -/
theorem Credit.effect_le (hcredit : Credit M credit) {op : ο} {b : δ}
    {e n : Bool} (hready : M.waits op = true → M.ready op b = true)
    (hlegal : (.test op e n : Pc ο ρ).Legal M) (r : ρ) :
    credit (M.effect op b) + (.test op e n : Pc ο ρ).token ≤
      credit b + (.finish op (M.notifications op) r : Pc ο ρ).token := by
  cases hwaits : M.waits op with
  | true =>
      refine le_trans (add_le_add le_rfl ?_)
        (hcredit.pass op b hwaits (hready hwaits))
      cases n <;> simp [Pc.token]
  | false =>
      have hn : n = false := by
        by_contra hn
        have htrue := hlegal (Bool.not_eq_false n ▸ hn)
        exact nomatch hwaits.symm.trans htrue
      subst hn
      have hact := hcredit.act op b hwaits
      rwa [← add_zero (credit (M.effect op b))] at hact

theorem covered_next (hcredit : Credit M credit)
    (hlegal : ∀ t, (s.pc t).Legal M)
    (h : Covered credit s) (ha : Enabled M s a) :
    Covered credit (next M s a) := by
  have hmove : ∀ {s' : State τ δ ο ρ} {t : τ} {p q : Pc ο ρ},
      s.pc t = p → q.isWaiting = false → p.token ≠ ⊤ →
      s'.pc = Function.update s.pc t q →
      credit s'.data + p.token ≤ credit s.data + q.token →
        Covered credit s' := by
    intro s' t p q hp hq hfinite hpc hbalance hwaiting
    rw [hpc] at hwaiting
    exact credit_le_of_update hp hpc
      (h (exists_waiting_of_update hq hwaiting)) hfinite hbalance
  cases a with
  | call t op => exact hmove ha rfl (by simp [Pc.token]) rfl le_rfl
  | lock t op => exact hmove ha.1 rfl (by simp [Pc.token]) rfl le_rfl
  | perform t op e n =>
      have hop := hlegal t
      rw [ha.1] at hop
      refine hmove ha.1 rfl ?_ rfl (hcredit.effect_le ha.2 hop _)
      cases n <;> simp [Pc.token]
  | block t op n =>
      intro _
      exact (hcredit.block op s.data ha.2.1 ha.2.2).le.trans zero_le
  | expire t op n =>
      intro _
      exact (hcredit.block op s.data ha.2.1 ha.2.2).le.trans zero_le
  | wake t op => exact hmove ha rfl (by simp [Pc.token]) rfl le_rfl
  | relock t op e n =>
      refine hmove ha.1 rfl ?_ rfl ?_
      · cases n <;> simp [Pc.token]
      · cases n <;> simp [Pc.token, next, State.goto]
  | notifyOne t op k r u op' =>
      intro _
      have hcovered := h ⟨u, by rw [ha.2]; rfl⟩
      rw [tokens_notifyOne ha.1 ha.2]
      exact hcovered
  | notifyNobody t op k r =>
      intro hwaiting
      obtain ⟨u, hu⟩ := exists_waiting_of_update rfl hwaiting
      exact nomatch (ha.2 u).symm.trans hu
  | notifyAll t op r =>
      intro hwaiting
      obtain ⟨u, hu⟩ := exists_waiting_of_update rfl hwaiting
      exact nomatch (isWaiting_mark (s.pc u)).symm.trans hu
  | unlock t op r =>
      refine hmove ha rfl ?_ rfl ?_
      · exact ENat.natCast_ne_top 0
      · exact le_rfl

theorem covered_reachable (hcredit : Credit M credit)
    (hs : (system M d).Reachable s) : Covered credit s := by
  refine hs.invariant_of (J := fun s => ∀ t, (s.pc t).Legal M)
    (Covered credit) (fun s hs => legal_reachable hs) ?_
    fun s a hlegal h ha => covered_next hcredit hlegal h ha
  rintro s rfl ⟨u, hu⟩
  exact nomatch hu

/-- The number of threads that have been notified and have not tested their
predicate since. -/
def State.notifiedCount (s : State τ δ ο ρ) : ℕ :=
  (Finset.univ.filter fun t => (s.pc t).isNotified = true).card

omit [DecidableEq τ] in
/-- When no notifications are left, the tokens are the notified threads. -/
theorem tokens_eq_notifiedCount
    (h : ∀ t, (s.pc t).isNotifying = false) :
    tokens s.pc = s.notifiedCount := by
  unfold tokens State.notifiedCount
  rw [Finset.card_filter, Nat.cast_sum]
  refine Finset.sum_congr rfl fun t _ => ?_
  have ht := h t
  cases hpc : s.pc t with
  | finish op left r =>
      rw [hpc] at ht
      have hleft : left = .one 0 := by
        simpa [Pc.isNotifying] using ht
      simp [hleft, Pc.token, Pc.isNotified, Notifications.total]
  | test op e n => cases n <;> simp [Pc.token, Pc.isNotified]
  | _ => simp [Pc.token, Pc.isNotified]

omit [Fintype τ] in
theorem isNotifying_of_free (hs : (system M d).Reachable s)
    (hfree : s.mutex = none) (t : τ) : (s.pc t).isNotifying = false := by
  have houtside := (exclusive_reachable hs).outside_of_free hfree t
  cases hpc : s.pc t <;> rw [hpc] at houtside <;>
    simp [Pc.isNotifying, Pc.holdsMutex] at houtside ⊢

/-- If a thread waits and no notifications are left, the data lets no more
threads pass than have been notified. -/
theorem credit_le_notifiedCount (hcredit : Credit M credit)
    (hs : (system M d).Reachable s)
    (hnone : ∀ t, (s.pc t).isNotifying = false)
    (hwaiting : ∃ u, (s.pc u).isWaiting = true) :
    credit s.data ≤ s.notifiedCount := by
  rw [← tokens_eq_notifiedCount hnone]
  exact covered_reachable hcredit hs hwaiting

end Notifications

end Monitor
end Ethreads
