import Ethreads.TaskPool.Batches
import Mathlib.Tactic.Ring

/-!
# The number and the length of the batches

`add_batch_task` means to make a batch for each thread, of whole cache lines.
The share of a thread is measured in elements, then in bytes and then in cache
lines, and the number of cache lines is taken for a number of elements.
-/

namespace Ethreads
namespace TaskPool

/-- There are not many more batches than threads, and if elements fill cache
lines, so do all batches but the last. -/
structure KeepsParallelism (numThreads cacheLineSize itemSize : ℕ)
    (batches : List (ℕ × ℕ)) : Prop where
  count : batches.length ≤ numThreads + 1
  wholeLines : itemSize ∣ cacheLineSize → ∀ i ∈ batches.dropLast,
    0 < (i.2 - i.1) * itemSize ∧ cacheLineSize ∣ (i.2 - i.1) * itemSize

/-- The elements of a range that are due to a thread. -/
def share (numThreads totalItems : ℕ) : ℕ :=
  (totalItems + numThreads - 1) / numThreads

/-- The length of the aligned batches, if nothing overflows. -/
def batchLength (numThreads cacheLineSize itemSize totalItems : ℕ) : ℕ :=
  max 1 (share numThreads totalItems * itemSize / cacheLineSize)

theorem batchLength_pos (numThreads cacheLineSize itemSize totalItems : ℕ) :
    0 < batchLength numThreads cacheLineSize itemSize totalItems :=
  Nat.lt_of_lt_of_le Nat.one_pos (le_max_left ..)

variable {numThreads cacheLineSize itemSize totalItems : ℕ}

/-! ## The batches -/

theorem length_alignedBatches (size count start : ℕ) :
    (alignedBatches size count start).1.length = count := by
  induction count generalizing start with
  | zero => rfl
  | succ count ih => exact congrArg Nat.succ (ih (start + size))

theorem snd_of_mem_alignedBatches {size count start : ℕ} {i : ℕ × ℕ}
    (hi : i ∈ (alignedBatches size count start).1) : i.2 = i.1 + size := by
  induction count generalizing start with
  | zero => exact nomatch hi
  | succ count ih =>
      rcases List.mem_cons.mp hi with rfl | hrest
      · rfl
      · exact ih hrest

theorem alignedLength_eq (hsum : totalItems + numThreads - 1 < 2 ^ 64)
    (hbytes : share numThreads totalItems * itemSize < 2 ^ 64) :
    alignedLength numThreads cacheLineSize itemSize totalItems =
      batchLength numThreads cacheLineSize itemSize totalItems := by
  have hshare : toSize (totalItems + numThreads - 1) / numThreads =
      share numThreads totalItems := by
    rw [toSize, Nat.mod_eq_of_lt hsum, share]
  rw [alignedLength, hshare, toSize, Nat.mod_eq_of_lt hbytes, batchLength]

/-! ## The number of batches -/

theorem share_mul_le :
    share numThreads totalItems * numThreads ≤ totalItems + numThreads - 1 :=
  Nat.div_mul_le_self _ _

theorem le_share_mul (hthreads : 1 ≤ numThreads) :
    totalItems ≤ share numThreads totalItems * numThreads := by
  have h := Nat.lt_div_mul_add (a := totalItems + numThreads - 1)
    (b := numThreads) (by omega)
  unfold share
  omega

/-- There are no more aligned batches than threads. -/
theorem div_batchLength_le_iff (hline : 1 ≤ cacheLineSize)
    (hitems : numThreads ≤ totalItems) :
    totalItems / batchLength numThreads cacheLineSize itemSize totalItems ≤
        numThreads ↔
      totalItems = numThreads ∨
        (totalItems / (numThreads + 1) + 1) * cacheLineSize ≤
          share numThreads totalItems * itemSize := by
  have hcount : totalItems /
        batchLength numThreads cacheLineSize itemSize totalItems ≤
          numThreads ↔
      totalItems / (numThreads + 1) <
        batchLength numThreads cacheLineSize itemSize totalItems := by
    rw [← Nat.lt_succ_iff, Nat.div_lt_iff_lt_mul (batchLength_pos ..),
      Nat.div_lt_iff_lt_mul (Nat.succ_pos numThreads), Nat.mul_comm]
  have hone : totalItems / (numThreads + 1) < 1 ↔ totalItems = numThreads := by
    rw [Nat.div_lt_iff_lt_mul (Nat.succ_pos numThreads)]
    omega
  have hlines : totalItems / (numThreads + 1) <
        share numThreads totalItems * itemSize / cacheLineSize ↔
      (totalItems / (numThreads + 1) + 1) * cacheLineSize ≤
        share numThreads totalItems * itemSize :=
    Nat.le_div_iff_mul_le hline
  rw [hcount, batchLength, lt_max_iff, hone, hlines]

/-- Elements that are not smaller than a cache line. -/
theorem lines_le_of_le (hthreads : 1 ≤ numThreads)
    (hitems : numThreads ≤ totalItems) (hlarge : cacheLineSize ≤ itemSize) :
    (totalItems / (numThreads + 1) + 1) * cacheLineSize ≤
      share numThreads totalItems * itemSize := by
  refine Nat.mul_le_mul ?_ hlarge
  have hcover : totalItems ≤ share numThreads totalItems * numThreads :=
    le_share_mul hthreads
  rw [Nat.succ_le_iff, Nat.div_lt_iff_lt_mul (Nat.succ_pos numThreads),
    Nat.mul_succ]
  have hpos : 0 < share numThreads totalItems := by
    refine Nat.pos_of_ne_zero fun hzero => ?_
    rw [hzero] at hcover
    omega
  omega

/-! ## The length of the batches -/

/-- Batches of a multiple of `k` elements are more than the threads, as the
share of a thread is `k` times as long. -/
theorem lt_div_batchLength {k : ℕ} (hthreads : 1 ≤ numThreads) (hk : 2 ≤ k)
    (hsize : 2 ≤ share numThreads totalItems / k) :
    numThreads < totalItems / (share numThreads totalItems / k) := by
  by_contra hle
  have hfew : totalItems < (numThreads + 1) *
      (share numThreads totalItems / k) := by
    rw [← Nat.div_lt_iff_lt_mul (by omega)]
    omega
  have hshare : share numThreads totalItems / k * 2 ≤
      share numThreads totalItems :=
    (Nat.mul_le_mul_left _ hk).trans (Nat.div_mul_le_self _ _)
  have hcover : share numThreads totalItems * numThreads ≤
      totalItems + numThreads - 1 := share_mul_le
  generalize share numThreads totalItems / k = size at hsize hfew hshare
  have hmul : size * 2 * numThreads ≤ totalItems + numThreads - 1 :=
    (Nat.mul_le_mul_right _ hshare).trans hcover
  have hgap : numThreads + size - 1 ≤ numThreads * size :=
    Nat.add_sub_one_le_mul (by omega) (by omega)
  have hexpand : (numThreads + 1) * size = numThreads * size + size :=
    Nat.succ_mul numThreads size
  have hdouble : size * 2 * numThreads = numThreads * size * 2 := by ring
  omega

/-- If several elements fill a cache line, batches of whole cache lines are
more than the threads. -/
theorem not_wholeLines_of_lt (hthreads : 1 ≤ numThreads)
    (hitem : 1 ≤ itemSize) (hdvd : itemSize ∣ cacheLineSize)
    (hsmall : itemSize < cacheLineSize)
    (hlines : cacheLineSize ∣
      batchLength numThreads cacheLineSize itemSize totalItems * itemSize) :
    numThreads < totalItems /
      batchLength numThreads cacheLineSize itemSize totalItems := by
  obtain ⟨k, rfl⟩ := hdvd
  have hk : 2 ≤ k := by
    by_contra hle
    have hmul : itemSize * k ≤ itemSize * 1 :=
      Nat.mul_le_mul_left itemSize (by omega)
    omega
  have hquotient : share numThreads totalItems * itemSize / (itemSize * k) =
      share numThreads totalItems / k := by
    rw [Nat.mul_comm, Nat.mul_div_mul_left _ _ hitem]
  rw [batchLength, hquotient] at hlines ⊢
  have hmultiple : k ∣ max 1 (share numThreads totalItems / k) := by
    rw [Nat.mul_comm _ itemSize] at hlines
    exact Nat.dvd_of_mul_dvd_mul_left hitem hlines
  have hsize := Nat.le_of_dvd (by omega) hmultiple
  have hlarge : 2 ≤ share numThreads totalItems / k := by omega
  rw [max_eq_right (by omega)]
  exact lt_div_batchLength hthreads hk hlarge

/-- Elements that are smaller than a cache line make an aligned batch. -/
theorem batchLength_le (hthreads : 1 ≤ numThreads)
    (hitems : numThreads ≤ totalItems) (hsmall : itemSize ≤ cacheLineSize) :
    batchLength numThreads cacheLineSize itemSize totalItems ≤ totalItems := by
  have hshare : share numThreads totalItems ≤ totalItems := by
    refine Nat.div_le_of_le_mul ?_
    have hgap : numThreads + totalItems - 1 ≤ numThreads * totalItems :=
      Nat.add_sub_one_le_mul (by omega) (by omega)
    omega
  have hlines : share numThreads totalItems * itemSize / cacheLineSize ≤
      share numThreads totalItems := by
    refine Nat.div_le_of_le_mul ?_
    rw [Nat.mul_comm]
    exact Nat.mul_le_mul_right _ hsmall
  exact max_le (by omega) (hlines.trans hshare)

/-! ## The parallelism -/

/-- `add_batch_task` keeps to the parallelism if and only if elements are not
smaller than a cache line, or no number of them fills one and the share of a
thread has enough cache lines. -/
theorem keepsParallelism_iff
    (numThreads cacheLineSize itemSize start totalItems : ℕ)
    (hthreads : 1 ≤ numThreads) (hline : 1 ≤ cacheLineSize)
    (hitem : 1 ≤ itemSize) (hitems : numThreads ≤ totalItems)
    (hsum : totalItems + numThreads - 1 < 2 ^ 64)
    (hbytes : share numThreads totalItems * itemSize < 2 ^ 64) :
    (∃ batches,
      addBatchTask numThreads cacheLineSize itemSize start totalItems =
          some batches ∧
        KeepsParallelism numThreads cacheLineSize itemSize batches) ↔
      cacheLineSize ≤ itemSize ∨
        ¬itemSize ∣ cacheLineSize ∧
          (totalItems = numThreads ∨
            (totalItems / (numThreads + 1) + 1) * cacheLineSize ≤
              share numThreads totalItems * itemSize) := by
  have hbatches :=
    addBatchTask_of_le itemSize start hthreads hline hitems
  rw [alignedLength_eq hsum hbytes] at hbatches
  dsimp only at hbatches
  rw [hbatches, ← div_batchLength_le_iff hline hitems]
  simp only [Option.some.injEq, exists_eq_left']
  constructor
  · intro hkeeps
    have hcount : totalItems /
        batchLength numThreads cacheLineSize itemSize totalItems ≤
          numThreads := by
      have hlength := hkeeps.count
      rw [List.length_append, length_alignedBatches] at hlength
      exact Nat.le_of_succ_le_succ hlength
    by_cases hlarge : cacheLineSize ≤ itemSize
    · exact .inl hlarge
    · refine .inr ⟨fun hdvd => ?_, hcount⟩
      have hone : 0 < totalItems /
          batchLength numThreads cacheLineSize itemSize totalItems :=
        Nat.div_pos (batchLength_le hthreads hitems (by omega))
          (batchLength_pos ..)
      obtain ⟨count, hcountEq⟩ := Nat.exists_eq_succ_of_ne_zero hone.ne'
      have hfirst := (hkeeps.wholeLines hdvd (start, start +
        batchLength numThreads cacheLineSize itemSize totalItems) (by
          rw [List.dropLast_concat, hcountEq]
          exact List.mem_cons_self)).2
      rw [Nat.add_sub_cancel_left] at hfirst
      exact absurd hcount
        (not_wholeLines_of_lt hthreads hitem hdvd (by omega) hfirst).not_ge
  · intro hwhen
    have hcount : totalItems /
        batchLength numThreads cacheLineSize itemSize totalItems ≤
          numThreads := by
      rcases hwhen with hlarge | ⟨-, hcount⟩
      · exact (div_batchLength_le_iff hline hitems).mpr
          (.inr (lines_le_of_le hthreads hitems hlarge))
      · exact hcount
    refine ⟨?_, fun hdvd i hi => ?_⟩
    · rw [List.length_append, length_alignedBatches]
      exact Nat.succ_le_succ hcount
    · rw [List.dropLast_concat] at hi
      rw [snd_of_mem_alignedBatches hi, Nat.add_sub_cancel_left]
      refine ⟨Nat.mul_pos (batchLength_pos ..) hitem, ?_⟩
      rcases hwhen with hlarge | ⟨hndvd, -⟩
      · rw [Nat.le_antisymm hlarge (Nat.le_of_dvd hline hdvd)]
        exact Nat.dvd_mul_left _ _
      · exact absurd hdvd hndvd

/-- Elements that fill a cache line each. -/
theorem keepsParallelism_wholeLines :
    ∃ batches, addBatchTask 4 64 64 0 10 = some batches ∧
      KeepsParallelism 4 64 64 batches :=
  (keepsParallelism_iff 4 64 64 0 10 (by decide) (by decide) (by decide)
    (by decide) (by decide) (by decide)).mpr (by decide)

/-- Ten elements of four bytes on four threads make eleven batches. -/
theorem not_forall_keepsParallelism :
    ¬∀ numThreads cacheLineSize itemSize start totalItems : ℕ,
      1 ≤ numThreads → 1 ≤ cacheLineSize → 1 ≤ itemSize →
      numThreads ≤ totalItems → totalItems + numThreads - 1 < 2 ^ 64 →
      share numThreads totalItems * itemSize < 2 ^ 64 →
      ∃ batches,
        addBatchTask numThreads cacheLineSize itemSize start totalItems =
            some batches ∧
          KeepsParallelism numThreads cacheLineSize itemSize batches := by
  intro hall
  obtain ⟨batches, hbatches, hkeeps⟩ := hall 4 64 4 0 10 (by decide)
    (by decide) (by decide) (by decide) (by decide) (by decide)
  obtain rfl := Option.some.inj hbatches
  exact absurd hkeeps.count (by decide)

end TaskPool
end Ethreads
