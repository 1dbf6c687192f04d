import Ethreads.Support.Monitor

/-!
# The synchronous semaphore

This module models `sync_semaphore` of `include/shared_state/semaphore.hpp` over
`sync_primitive_base` of `include/shared_state/crtp_base.hpp`, as a monitor.

`count_` is an integer, as no operation is taken to overflow it, and `release`
is called with a number of permits that is not negative.
-/

namespace Ethreads
namespace SyncSemaphore

inductive Op
  | acquire
  | tryAcquire
  | tryAcquireFor
  | tryAcquireUntil
  | release (n : ℕ)
  | available
  deriving DecidableEq, Repr

/-- How a call ends: it returns nothing, a `bool`, or `count_`. -/
inductive Outcome
  | returned
  | flag (acquired : Bool)
  | value (count : ℤ)
  deriving DecidableEq, Repr

/-- `wait_for_condition` and its timed variants. -/
def Op.waits : Op → Bool
  | acquire | tryAcquireFor | tryAcquireUntil => true
  | _ => false

def Op.timed : Op → Bool
  | tryAcquireFor | tryAcquireUntil => true
  | _ => false

/-- What an operation makes of `count_` under the mutex. -/
def Op.effect : Op → ℤ → ℤ
  | acquire, count | tryAcquireFor, count | tryAcquireUntil, count => count - 1
  | tryAcquire, count => if 0 < count then count - 1 else count
  | release n, count => count + n
  | available, count => count

def Op.result : Op → ℤ → Outcome
  | acquire, _ | release _, _ => .returned
  | tryAcquireFor, _ | tryAcquireUntil, _ => .flag true
  | tryAcquire, count => .flag (decide (0 < count))
  | available, count => .value count

/-- `release` calls `notify_one` once for each permit. -/
def Op.notifications : Op → Notifications
  | release n => .one n
  | _ => .one 0

/-- `sync_semaphore`. -/
def monitor : Monitor ℤ Op Outcome where
  waits := Op.waits
  timed := Op.timed
  ready _ count := decide (0 < count)
  effect := Op.effect
  result := Op.result
  notifications := Op.notifications
  expired _ := .flag false

/-- A call that ends in this way has got a permit. -/
def Op.acquires : Op → Outcome → Bool
  | acquire, _ => true
  | tryAcquire, .flag b | tryAcquireFor, .flag b | tryAcquireUntil, .flag b => b
  | _, _ => false

/-- The permits that an operation releases. -/
def Op.released : Op → ℕ
  | release n => n
  | _ => 0

section Permits

variable {τ : Type*}

/-- The number of acquisitions that have succeeded. -/
def acquired (es : List (Monitor.Event τ ℤ Op)) : ℕ :=
  es.countP fun e => e.op.acquires (monitor.result e.op e.before)

/-- The number of permits that have been released. -/
def released (es : List (Monitor.Event τ ℤ Op)) : ℕ :=
  (es.map fun e => e.op.released).sum

/-- No permit is lost, and no permit is available to a thread that waits and
is not covered by a notification. -/
structure Conserves [Fintype τ] (initial : ℤ)
    (s : Monitor.State τ ℤ Op Outcome) : Prop where
  nonneg : 0 ≤ s.data
  permits : s.data + acquired s.performed = initial + released s.performed
  covered : s.mutex = none → (∃ t, (s.pc t).isWaiting = true) →
    s.data ≤ s.notifiedCount

/-- An operation that finds its predicate true exchanges permits for
acquisitions. -/
theorem effect_add (op : Op) {count : ℤ}
    (hready : op.waits = true → 0 < count) (hcount : 0 ≤ count) :
    0 ≤ op.effect count ∧
      op.effect count + (if op.acquires (op.result count) then 1 else 0) =
        count + op.released := by
  cases op with
  | acquire | tryAcquireFor | tryAcquireUntil =>
      have hpos := hready rfl
      simp only [Op.effect, Op.acquires, Op.result, Op.released]
      constructor
      · omega
      · simp
  | tryAcquire =>
      by_cases hpos : 0 < count
      · simp only [Op.effect, Op.acquires, Op.result, Op.released, hpos]
        constructor
        · simp
          omega
        · simp
      · simp [Op.effect, Op.acquires, Op.result, Op.released, hpos, hcount]
  | release n =>
      constructor
      · exact add_nonneg hcount (Int.natCast_nonneg n)
      · simp [Op.effect, Op.acquires, Op.released]
  | available => simp [Op.effect, Op.acquires, Op.released, hcount]

theorem permits_of_leads {initial count : ℤ}
    {es : List (Monitor.Event τ ℤ Op)} (hinitial : 0 ≤ initial)
    (h : Monitor.Leads monitor initial es count) :
    0 ≤ count ∧ count + acquired es = initial + released es := by
  induction h with
  | nil => simp [acquired, released, hinitial]
  | @snoc es count t op _ hready ih =>
      obtain ⟨hcount, hsum⟩ := ih
      obtain ⟨hnonneg, hstep⟩ :=
        effect_add op (fun hw => of_decide_eq_true (hready hw)) hcount
      refine ⟨hnonneg, ?_⟩
      have hacquired : acquired (es ++ [⟨t, op, count, op.effect count⟩]) =
          acquired es +
            if op.acquires (op.result count) = true then 1 else 0 := by
        simp [acquired, List.countP_append, List.countP_cons, monitor]
      have hreleased : released (es ++ [⟨t, op, count, op.effect count⟩]) =
          released es + op.released := by
        simp [released]
      change op.effect count +
        (acquired (es ++ [⟨t, op, count, op.effect count⟩]) : ℤ) =
          initial + (released (es ++ [⟨t, op, count, op.effect count⟩]) : ℤ)
      rw [hacquired, hreleased]
      push_cast
      omega

/-- Each permit lets one thread pass. -/
theorem credit_toNat :
    Monitor.Credit monitor fun count => (count.toNat : ℕ∞) where
  block op count _ hready := by
    have hcount : ¬0 < count := of_decide_eq_false hready
    simp only [Nat.cast_eq_zero]
    omega
  pass op count hwaits hready := by
    have hcount : 0 < count := of_decide_eq_true hready
    cases op with
    | acquire | tryAcquireFor | tryAcquireUntil =>
        change ((count - 1).toNat : ℕ∞) + 1 ≤ count.toNat + (0 : ℕ)
        norm_cast
        omega
    | tryAcquire | release | available => exact nomatch hwaits
  act op count hwaits := by
    cases op with
    | acquire | tryAcquireFor | tryAcquireUntil => exact nomatch hwaits
    | tryAcquire =>
        change ((if 0 < count then count - 1 else count).toNat : ℕ∞) ≤
          count.toNat + (0 : ℕ)
        norm_cast
        split <;> omega
    | release n =>
        change ((count + n).toNat : ℕ∞) ≤ count.toNat + (n : ℕ)
        norm_cast
        omega
    | available => exact le_self_add

/-- The semaphore conserves its permits and strands no thread. -/
theorem conserves (τ : Type*) [Fintype τ] [DecidableEq τ] (initial : ℤ)
    (hinitial : 0 ≤ initial) :
    ∀ s : Monitor.State τ ℤ Op Outcome,
      (Monitor.system monitor initial).Reachable s → Conserves initial s := by
  intro s hs
  obtain ⟨hnonneg, hpermits⟩ :=
    permits_of_leads hinitial (Monitor.leads_reachable hs)
  refine ⟨hnonneg, hpermits, fun hfree hwaiting => ?_⟩
  have hcredit := Monitor.credit_le_notifiedCount credit_toNat hs
    (Monitor.isNotifying_of_free hs hfree) hwaiting
  have hle : s.data.toNat ≤ s.notifiedCount := by exact_mod_cast hcredit
  omega

end Permits

/-- A thread waits for a permit; another one releases two, and the first takes
one of them. -/
def releasesTwo : List (Monitor.Action (Fin 2) Op Outcome) :=
  [.call 0 .acquire, .lock 0 .acquire, .block 0 .acquire false,
    .call 1 (.release 2), .lock 1 (.release 2),
    .perform 1 (.release 2) false false,
    .notifyOne 1 (.release 2) 1 .returned 0 .acquire,
    .notifyNobody 1 (.release 2) 0 .returned, .unlock 1 (.release 2) .returned,
    .relock 0 .acquire false true, .perform 0 .acquire false true,
    .unlock 0 .acquire .returned]

theorem conserves_releasesTwo :
    Conserves 0 ((Monitor.system monitor 0).after
      (Monitor.initialState (Fin 2) Op Outcome 0) releasesTwo) :=
  conserves (Fin 2) 0 le_rfl _
    (TransitionSystem.Executes.reachable (.init rfl) (by decide))

end SyncSemaphore
end Ethreads
