import Ethreads.Support.Intervals
import Mathlib.Algebra.Group.Nat.Defs

/-!
# Batches

This module models `add_batch_task` of `include/task_scheduler.hpp`, and the
`cacheline_size` of the thread that calls it, which `worker` and the constructor
of `task_scheduler` in `src/task_scheduler.cpp` set for their own threads.

An iterator that is passed by value is the position of its element.  A call of
`add_task` is represented by the iterators that it passes on.  A division by
zero has no result.
-/

namespace Ethreads
namespace TaskPool

def checkedDiv (a b : ℕ) : Option ℕ :=
  if b = 0 then none else some (a / b)

/-- Arithmetic of `size_t`. -/
def toSize (a : ℕ) : ℕ :=
  a % 2 ^ 64

/-- The loop over the aligned batches, with the iterator that it leaves. -/
def alignedBatches (size : ℕ) : ℕ → ℕ → List (ℕ × ℕ) × ℕ
  | 0, batchStart => ([], batchStart)
  | count + 1, batchStart =>
      let batchStop := batchStart + size
      let rest := alignedBatches size count batchStop
      ((batchStart, batchStop) :: rest.1, rest.2)

/-- `add_batch_task` over the `totalItems` elements from `start`, of `itemSize`
bytes each. -/
def addBatchTask (numThreads cacheLineSize itemSize start totalItems : ℕ) :
    Option (List (ℕ × ℕ)) :=
  if totalItems = 0 ∨ totalItems < numThreads then
    some [(start, start + totalItems)]
  else do
    let alignedBatchSize ←
      checkedDiv (toSize (totalItems + numThreads - 1)) numThreads
    let alignedBatchSizeBytes := toSize (alignedBatchSize * itemSize)
    let lines ← checkedDiv alignedBatchSizeBytes cacheLineSize
    let alignedBatchSizeElements := max 1 lines
    let numAlignedBatches ← checkedDiv totalItems alignedBatchSizeElements
    let batches := alignedBatches alignedBatchSizeElements numAlignedBatches start
    some (batches.1 ++ [(batches.2, start + totalItems)])

/-! ## The sub-ranges -/

/-- The sub-ranges partition the range, and the order in which they are run
does not matter to a function of one element. -/
structure Partitions (start stop : ℕ) (batches : List (ℕ × ℕ)) : Prop where
  first : batches.head?.map Prod.fst = some start
  last : batches.getLast?.map Prod.snd = some stop
  consecutive : batches.IsChain fun i j => i.2 = j.1
  within : ∀ i ∈ batches, start ≤ i.1 ∧ i.1 ≤ i.2 ∧ i.2 ≤ stop
  once : ∀ p, start ≤ p → p < stop →
    batches.countP (Intervals.contains p) = 1
  anyOrder : ∀ (α : Type) (f : α → α) (order : List (ℕ × ℕ)),
    order.Perm batches → ∀ xs : List α,
      order.foldl (Intervals.apply f) xs = Intervals.apply f xs (start, stop)

theorem Partitions.of_tiles {start stop : ℕ} {batches : List (ℕ × ℕ)}
    (h : Intervals.Tiles stop start batches) :
    Partitions start stop batches where
  first := h.head?
  last := h.getLast?
  consecutive := h.isChain
  within := h.within
  once p hstart hstop := by
    rw [h.countP_contains, if_pos ⟨hstart, hstop⟩]
  anyOrder _ f _ horder xs := h.foldl_apply_perm f horder xs

/-- The aligned batches lead to the tail batch. -/
theorem tiles_alignedBatches {size count start stop : ℕ}
    (hstop : start + count * size ≤ stop) :
    Intervals.Tiles stop start
      ((alignedBatches size count start).1 ++
        [((alignedBatches size count start).2, stop)]) := by
  induction count generalizing start with
  | zero => exact .last (by omega)
  | succ count ih =>
      refine .cons (Nat.le_add_right ..) (ih ?_)
      rw [Nat.succ_mul] at hstop
      omega

theorem checkedDiv_of_pos {a b : ℕ} (hb : 0 < b) :
    checkedDiv a b = some (a / b) :=
  if_neg (Nat.ne_of_gt hb)

def alignedLength (numThreads cacheLineSize itemSize totalItems : ℕ) : ℕ :=
  max 1 (toSize (toSize (totalItems + numThreads - 1) / numThreads * itemSize) /
    cacheLineSize)

theorem alignedLength_pos (numThreads cacheLineSize itemSize totalItems : ℕ) :
    0 < alignedLength numThreads cacheLineSize itemSize totalItems :=
  Nat.lt_of_lt_of_le Nat.one_pos (le_max_left ..)

theorem addBatchTask_of_le {numThreads cacheLineSize totalItems : ℕ}
    (itemSize start : ℕ) (hthreads : 1 ≤ numThreads)
    (hline : 1 ≤ cacheLineSize) (hitems : numThreads ≤ totalItems) :
    let size := alignedLength numThreads cacheLineSize itemSize totalItems
    let batches := alignedBatches size (totalItems / size) start
    addBatchTask numThreads cacheLineSize itemSize start totalItems =
      some (batches.1 ++ [(batches.2, start + totalItems)]) := by
  have hguard : ¬(totalItems = 0 ∨ totalItems < numThreads) := by omega
  have hsize :=
    alignedLength_pos numThreads cacheLineSize itemSize totalItems
  unfold addBatchTask
  rw [if_neg hguard, checkedDiv_of_pos hthreads]
  simp only [Option.bind_eq_bind, Option.bind_some]
  rw [checkedDiv_of_pos hline, Option.bind_some]
  change (checkedDiv totalItems (alignedLength numThreads cacheLineSize itemSize
    totalItems)).bind _ = _
  rw [checkedDiv_of_pos hsize]
  rfl

/-- `add_batch_task` partitions the range, whatever the length of the aligned
batches. -/
theorem partitions_addBatchTask
    (numThreads cacheLineSize itemSize start totalItems : ℕ)
    (hthreads : 1 ≤ numThreads) (hline : 1 ≤ cacheLineSize) :
    ∃ batches,
      addBatchTask numThreads cacheLineSize itemSize start totalItems =
          some batches ∧
        Partitions start (start + totalItems) batches := by
  by_cases hguard : totalItems = 0 ∨ totalItems < numThreads
  · exact ⟨_, if_pos hguard, .of_tiles (.last (Nat.le_add_right ..))⟩
  · refine ⟨_, addBatchTask_of_le itemSize start hthreads hline (by omega),
      .of_tiles (tiles_alignedBatches ?_)⟩
    exact Nat.add_le_add_left (Nat.div_mul_le_self ..) start

/-- Ten elements of four bytes on four threads. -/
theorem partitions_tenItems :
    ∃ batches, addBatchTask 4 64 4 0 10 = some batches ∧
      Partitions 0 10 batches :=
  partitions_addBatchTask 4 64 4 0 10 (by decide) (by decide)

/-! ## The divisors -/

/-- The targets that `get_cache_line_size` distinguishes, with what the system
says: on Windows the line size of a first-level cache, on Linux the result of
`sysconf`. -/
inductive Target
  | windows (lineSize : Option ℕ)
  | linux (sysconf : ℤ)
  | other
  deriving DecidableEq, Repr

def defaultCacheLineSize : ℕ := 64

def getCacheLineSize : Target → ℕ
  | .windows lineSize =>
      let cacheLineSize := lineSize.getD 0
      if cacheLineSize = 0 then defaultCacheLineSize else cacheLineSize
  | .linux sysconf =>
      if sysconf ≤ 0 then defaultCacheLineSize else sysconf.toNat
  | .other => defaultCacheLineSize

/-- The threads that may call, with what they run first: the constructor of the
global `task_scheduler`, `worker`, `coro_worker`, the loops of the timer and
the `io_uring` service, or code of the user. -/
inductive ThreadKind
  | main
  | poolWorker
  | coroWorker (workerId : ℕ)
  | timer
  | ioUring
  | user
  deriving DecidableEq, Repr

/-- The `thread_local` members of `task_scheduler`. -/
structure ThreadLocals where
  cachelineSize : ℕ
  currentCoroWorkerId : ℕ
  isCoroWorker : Bool
  deriving DecidableEq, Repr

/-- What a thread begins with. -/
def ThreadLocals.zero : ThreadLocals :=
  ⟨0, 0, false⟩

def ThreadKind.startUp (target : Target) : ThreadKind → ThreadLocals
  | main | poolWorker =>
      { ThreadLocals.zero with cachelineSize := getCacheLineSize target }
  | coroWorker workerId =>
      { ThreadLocals.zero with
        currentCoroWorkerId := workerId
        isCoroWorker := true }
  | timer | ioUring | user => .zero

def ThreadKind.setsCachelineSize : ThreadKind → Bool
  | main | poolWorker => true
  | _ => false

theorem getCacheLineSize_pos (target : Target) :
    0 < getCacheLineSize target := by
  cases target with
  | windows lineSize =>
      simp only [getCacheLineSize]
      split
      · decide
      · omega
  | linux sysconf =>
      simp only [getCacheLineSize]
      split
      · decide
      · omega
  | other => decide

theorem startUp_cachelineSize_pos_iff (target : Target) (kind : ThreadKind) :
    0 < (kind.startUp target).cachelineSize ↔
      kind.setsCachelineSize = true := by
  cases kind with
  | main | poolWorker => exact iff_of_true (getCacheLineSize_pos target) rfl
  | coroWorker | timer | ioUring | user =>
      exact iff_of_false (Nat.lt_irrefl 0) nofun

/-- Beyond the guard, the divisors are the number of threads and the size of a
cache line. -/
theorem addBatchTask_isSome_iff
    (numThreads cacheLineSize itemSize start totalItems : ℕ) :
    (addBatchTask numThreads cacheLineSize itemSize start totalItems).isSome =
        true ↔
      totalItems = 0 ∨ totalItems < numThreads ∨
        0 < numThreads ∧ 0 < cacheLineSize := by
  by_cases hguard : totalItems = 0 ∨ totalItems < numThreads
  · have hsome : addBatchTask numThreads cacheLineSize itemSize start
        totalItems = some [(start, start + totalItems)] := if_pos hguard
    rw [hsome]
    exact iff_of_true rfl (or_assoc.mp (.inl hguard))
  · rw [← or_assoc, or_iff_right hguard]
    constructor
    · intro hsome
      by_contra hzero
      unfold addBatchTask at hsome
      rw [if_neg hguard] at hsome
      by_cases hthreads : numThreads = 0
      · rw [hthreads] at hsome
        exact nomatch hsome
      · have hline : cacheLineSize = 0 := by omega
        rw [checkedDiv_of_pos (Nat.pos_of_ne_zero hthreads), hline] at hsome
        exact nomatch hsome
    · rintro ⟨hthreads, hline⟩
      rw [addBatchTask_of_le itemSize start hthreads hline (by omega)]
      rfl

/-- No divisor is zero if and only if the guard keeps the call away from the
divisions, or there are threads and the calling thread has set its
`cacheline_size`. -/
theorem dividesSafely_iff (target : Target) (kind : ThreadKind)
    (numThreads itemSize start totalItems : ℕ) :
    (addBatchTask numThreads (kind.startUp target).cachelineSize itemSize start
        totalItems).isSome = true ↔
      totalItems = 0 ∨ totalItems < numThreads ∨
        0 < numThreads ∧ kind.setsCachelineSize = true := by
  rw [addBatchTask_isSome_iff, startUp_cachelineSize_pos_iff]

/-- A coroutine worker, and the main thread when the number of threads is
unknown. -/
theorem not_forall_dividesSafely :
    ¬(∀ (target : Target) (kind : ThreadKind)
        (numThreads itemSize start totalItems : ℕ),
      (addBatchTask numThreads (kind.startUp target).cachelineSize itemSize
        start totalItems).isSome = true) ∧
    addBatchTask 4 (ThreadKind.startUp (.linux 64)
      (.coroWorker 0)).cachelineSize 4 0 10 = none ∧
    addBatchTask 0 (ThreadKind.startUp (.linux 64) .main).cachelineSize 4 0
      10 = none := by
  refine ⟨fun hall => ?_, by decide, by decide⟩
  exact absurd (hall (.linux 64) (.coroWorker 0) 4 4 0 10) (by decide)

end TaskPool
end Ethreads
