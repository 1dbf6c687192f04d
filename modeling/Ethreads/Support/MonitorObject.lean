import Ethreads.Support.Linearizability
import Ethreads.Support.Monitor

/-!
# Monitors as sequential objects

An operation of a monitor takes effect while its section holds the mutex: when
it acts on the data, or when it gives up because its time is up and its
predicate is false.  So every monitor is linearizable.
-/

namespace Ethreads
namespace Monitor

open SequentialObject (HistoryEvent Status AtomicState standing standing_same
  moves_hidden moves_call moves_perform moves_ret)

/-- What an operation of a monitor does, without threads. -/
inductive ObjectStep {δ ο ρ : Type*} (M : Monitor δ ο ρ) :
    ο → δ → ρ → δ → Prop
  | act (op : ο) (d : δ) : (M.waits op = true → M.ready op d = true) →
      ObjectStep M op d (M.result op d) (M.effect op d)
  | expire (op : ο) (d : δ) : M.waits op = true → M.timed op = true →
      M.ready op d = false → ObjectStep M op d (M.expired op) d

def object {δ ο ρ : Type*} (M : Monitor δ ο ρ) (τ : Type*) :
    SequentialObject τ δ ο ρ where
  Step _ := ObjectStep M

def Action.visible {τ ο ρ : Type*} : Action τ ο ρ → Option (HistoryEvent τ ο ρ)
  | call t op => some (.call t op)
  | unlock t op r => some (.ret t op r)
  | _ => none

def Pc.status {ο ρ : Type*} : Pc ο ρ → Status ο ρ
  | idle => .idle
  | lock op | test op _ _ | waiting op | notified op | woken op => .called op
  | finish op _ r => .performed op r

/-- The state of the atomic object that a state of the monitor stands for. -/
def reading {τ δ ο ρ : Type*} (s : State τ δ ο ρ) : AtomicState τ δ ο ρ :=
  standing Pc.status s.data s.pc

section Steps

variable {τ δ ο ρ : Type*} {M : Monitor δ ο ρ} {s s' : State τ δ ο ρ}
  {a : Action τ ο ρ} {d : δ}

def Pc.TimesOut (M : Monitor δ ο ρ) : Pc ο ρ → Prop
  | test op e _ => e = true → M.timed op = true
  | _ => True

theorem status_mark (p : Pc ο ρ) : p.mark.status = p.status := by
  cases p <;> rfl

theorem timesOut_mark {p : Pc ο ρ} (h : p.TimesOut M) : p.mark.TimesOut M := by
  cases p with
  | waiting op => trivial
  | _ => exact h

variable [DecidableEq τ]

theorem timesOut_next (h : ∀ t, (s.pc t).TimesOut M) (ha : Enabled M s a)
    (v : τ) : ((next M s a).pc v).TimesOut M := by
  have hmove : ∀ {f : τ → Pc ο ρ} {t : τ} {q : Pc ο ρ},
      (∀ u, (f u).TimesOut M) → q.TimesOut M →
        (Function.update f t q v).TimesOut M := by
    intro f t q hf hq
    by_cases hv : v = t
    · subst hv
      rwa [Function.update_self]
    · rw [Function.update_of_ne hv]
      exact hf v
  cases a with
  | lock t op => exact hmove h nofun
  | relock t op e n => exact hmove h ha.2.2
  | notifyOne t op k r u op' =>
      refine hmove (fun w => ?_) trivial
      by_cases hw : w = u
      · subst hw
        simp only [State.goto, Function.update_self]
        trivial
      · simp only [State.goto, Function.update_of_ne hw]
        exact h w
  | notifyAll t op r => exact hmove (fun w => timesOut_mark (h w)) trivial
  | _ => exact hmove h trivial

theorem timesOut_reachable (hs : (system M d).Reachable s) (t : τ) :
    (s.pc t).TimesOut M := by
  refine hs.invariant (fun s => ∀ t, (s.pc t).TimesOut M) ?_
    (fun s a h ha => timesOut_next h ha) t
  rintro s rfl t
  trivial

theorem reading_notifyOne {t u : τ} {op op' : ο} {k : ℕ} {r : ρ}
    (ha : Enabled M s (.notifyOne t op k r u op')) :
    reading (next M s (.notifyOne t op k r u op')) = reading s := by
  have hne : t ≠ u := by
    rintro rfl
    cases ha.1.symm.trans ha.2
  have hmid : reading (s.goto u (.notified op')) = reading s :=
    standing_same ha.2 rfl rfl
  have hlast : (s.goto u (.notified op')).pc t = .finish op (.one (k + 1)) r :=
    (Function.update_of_ne hne _ _).trans ha.1
  rw [← hmid]
  exact standing_same hlast rfl rfl

theorem reading_notifyAll {t : τ} {op : ο} {r : ρ}
    (ha : Enabled M s (.notifyAll t op r)) :
    reading (next M s (.notifyAll t op r)) = reading s := by
  have hmid : reading { s with pc := fun u => (s.pc u).mark } = reading s := by
    unfold reading standing
    congr 1
    funext u
    exact status_mark (s.pc u)
  have hpc : s.pc t = .finish op .all r := ha
  have hmark : (s.pc t).mark = .finish op .all r := by
    rw [hpc]
    rfl
  rw [← hmid]
  exact standing_same hmark rfl rfl

end Steps

/-- The steps of a monitor are steps of the atomic object. -/
theorem readsAs_object {δ ο ρ : Type*} (M : Monitor δ ο ρ) (τ : Type*)
    [DecidableEq τ] (d : δ) :
    SequentialObject.ReadsAs (system M d) (fun _ => Action.visible (τ := τ))
      (M.object τ) d reading where
  initial := by
    rintro s rfl
    rfl
  step s a hs ha := by
    cases a with
    | call t op => exact moves_call ha rfl rfl rfl
    | lock t op => exact moves_hidden ha.1 rfl rfl
    | perform t op e n =>
        exact moves_perform ha.1 rfl rfl rfl (.act op s.data ha.2)
    | block t op n => exact moves_hidden ha.1 rfl rfl
    | expire t op n =>
        have htimed := timesOut_reachable hs t
        rw [ha.1] at htimed
        exact moves_perform ha.1 rfl rfl rfl
          (.expire op s.data ha.2.1 (htimed rfl) ha.2.2)
    | wake t op => exact moves_hidden ha rfl rfl
    | relock t op e n =>
        cases n with
        | false => exact moves_hidden ha.1 rfl rfl
        | true => exact moves_hidden ha.1 rfl rfl
    | notifyOne t op k r u op' =>
        exact .refl (reading_notifyOne (M := M) ha)
    | notifyNobody t op k r => exact moves_hidden ha.1 rfl rfl
    | notifyAll t op r => exact .refl (reading_notifyAll (M := M) ha)
    | unlock t op r => exact moves_ret ha rfl rfl rfl

/-- Every monitor is linearizable. -/
theorem linearizable {τ δ ο ρ : Type*} [DecidableEq τ] {M : Monitor δ ο ρ}
    {d : δ} {l : List (Action τ ο ρ)}
    (hl : (system M d).Executes (initialState τ ο ρ d) l) :
    (M.object τ).Linearizable d (l.filterMap Action.visible) :=
  (readsAs_object M τ d).linearizable rfl hl

end Monitor
end Ethreads
