import Ethreads.TaskPool.Batches
import Mathlib.Order.MinMax

/-!
# The cursors of `add_batch_task`

The template parameter `Iterator` of `add_batch_task` is deduced from its
arguments: for rvalues it is the type of an iterator, and for lvalues it is a
reference to that type.  The variables `batch_start` and `batch_stop` have the
deduced type, so in the second case they are other names of the caller's first
iterator.

Variables are numbered, and each holds the position of an element.  The
parameters `start` and `stop` are references in both cases: to the variables of
the caller, or to temporaries.
-/

namespace Ethreads
namespace TaskPool

inductive IteratorType
  | value
  | reference
  deriving DecidableEq, Repr

/-- The variables that exist, which are those below `size`, and their
positions. -/
structure Variables where
  position : ℕ → ℕ
  size : ℕ

/-- `Iterator x = y;`, with the variable that `x` names. -/
def Variables.declare (vs : Variables) (y : ℕ) : IteratorType → ℕ × Variables
  | .value =>
      (vs.size,
        ⟨Function.update vs.position vs.size (vs.position y), vs.size + 1⟩)
  | .reference => (y, vs)

def Variables.assign (vs : Variables) (x position : ℕ) : Variables :=
  { vs with position := Function.update vs.position x position }

/-- The loop over the aligned batches. -/
def cursorBatches (iterator : IteratorType) (size batchStart : ℕ) :
    ℕ → Variables → List (ℕ × ℕ) × Variables
  | 0, vs => ([], vs)
  | count + 1, vs =>
      let declared := vs.declare batchStart iterator
      let batchStop := declared.1
      let advanced := declared.2.assign batchStop
        (declared.2.position batchStop + size)
      let rest := cursorBatches iterator size batchStart count
        (advanced.assign batchStart (advanced.position batchStop))
      ((advanced.position batchStart, advanced.position batchStop) :: rest.1,
        rest.2)

/-- `add_batch_task` over the elements from `start` to `stop`, with the
sub-ranges that it passes on and the variables that it leaves. -/
def addBatchTaskWith (iterator : IteratorType)
    (numThreads cacheLineSize itemSize start stop : ℕ) (vs : Variables) :
    Option (List (ℕ × ℕ) × Variables) :=
  let totalItems := vs.position stop - vs.position start
  if totalItems = 0 ∨ totalItems < numThreads then
    some ([(vs.position start, vs.position stop)], vs)
  else do
    let alignedBatchSize ←
      checkedDiv (toSize (totalItems + numThreads - 1)) numThreads
    let alignedBatchSizeBytes := toSize (alignedBatchSize * itemSize)
    let lines ← checkedDiv alignedBatchSizeBytes cacheLineSize
    let alignedBatchSizeElements := max 1 lines
    let numAlignedBatches ← checkedDiv totalItems alignedBatchSizeElements
    let declared := vs.declare start iterator
    let batches := cursorBatches iterator alignedBatchSizeElements declared.1
      numAlignedBatches declared.2
    some (batches.1 ++
      [(batches.2.position declared.1, batches.2.position stop)], batches.2)

/-- A call with copies of two iterators. -/
def addBatchTaskCopies
    (numThreads cacheLineSize itemSize start stop : ℕ) (vs : Variables) :
    Option (List (ℕ × ℕ) × Variables) :=
  let first := vs.declare start .value
  let last := first.2.declare stop .value
  addBatchTaskWith .value numThreads cacheLineSize itemSize first.1 last.1
    last.2

/-! ## The loop -/

@[simp] theorem position_assign_self (vs : Variables) (x p : ℕ) :
    (vs.assign x p).position x = p :=
  Function.update_self ..

theorem position_assign_of_ne (vs : Variables) {x y : ℕ} (p : ℕ)
    (hy : y ≠ x) : (vs.assign x p).position y = vs.position y :=
  Function.update_of_ne hy ..

@[simp] theorem position_declare_value (vs : Variables) (y : ℕ) :
    (vs.declare y .value).2.position (vs.declare y .value).1 =
      vs.position y :=
  Function.update_self ..

theorem position_declare_of_lt (vs : Variables) {x y : ℕ} (hx : x < vs.size) :
    (vs.declare y .value).2.position x = vs.position x :=
  Function.update_of_ne (Nat.ne_of_lt hx) ..

/-- The variables after the body of the loop, when `batch_stop` is a variable
of its own. -/
def advanceValue (vs : Variables) (size batchStart : ℕ) : Variables :=
  (((vs.declare batchStart .value).2.assign vs.size
    (vs.position batchStart + size)).assign batchStart
      (vs.position batchStart + size))

theorem position_advanceValue_of_ne {vs : Variables} {size batchStart x : ℕ}
    (hx : x < vs.size) (hne : x ≠ batchStart) :
    (advanceValue vs size batchStart).position x = vs.position x := by
  rw [advanceValue, position_assign_of_ne _ _ hne,
    position_assign_of_ne _ _ (Nat.ne_of_lt hx), position_declare_of_lt _ hx]

theorem cursorBatches_value_succ {size batchStart count : ℕ} {vs : Variables}
    (hstart : batchStart < vs.size) :
    let rest := cursorBatches .value size batchStart count
      (advanceValue vs size batchStart)
    cursorBatches .value size batchStart (count + 1) vs =
      ((vs.position batchStart, vs.position batchStart + size) :: rest.1,
        rest.2) := by
  have hdeclared : (vs.declare batchStart .value).2.position vs.size =
      vs.position batchStart := position_declare_value vs batchStart
  have hkept : ∀ p, ((vs.declare batchStart .value).2.assign vs.size
      p).position batchStart = vs.position batchStart := by
    intro p
    rw [position_assign_of_ne _ _ (Nat.ne_of_lt hstart),
      position_declare_of_lt _ hstart]
  have hfirst : (vs.declare batchStart .value).1 = vs.size := rfl
  simp only [cursorBatches, advanceValue, hfirst, hdeclared, hkept,
    position_assign_self]

/-- With variables of their own, the batches follow each other, and no other
variable changes. -/
theorem cursorBatches_value (size batchStart count : ℕ) (vs : Variables)
    (hstart : batchStart < vs.size) :
    let batches := cursorBatches .value size batchStart count vs
    let expected := alignedBatches size count (vs.position batchStart)
    batches.1 = expected.1 ∧ batches.2.position batchStart = expected.2 ∧
      ∀ x, x < vs.size → x ≠ batchStart →
        batches.2.position x = vs.position x := by
  induction count generalizing vs with
  | zero => exact ⟨rfl, rfl, fun _ _ _ => rfl⟩
  | succ count ih =>
      have hnext : (advanceValue vs size batchStart).position batchStart =
          vs.position batchStart + size := position_assign_self ..
      obtain ⟨hbatches, hlast, hothers⟩ :=
        ih (advanceValue vs size batchStart) (Nat.lt_succ_of_lt hstart)
      rw [hnext] at hbatches hlast
      rw [cursorBatches_value_succ hstart]
      refine ⟨congrArg _ hbatches, hlast, fun x hx hne => ?_⟩
      exact (hothers x (Nat.lt_succ_of_lt hx) hne).trans
        (position_advanceValue_of_ne hx hne)

/-- With references, `batch_stop` is `batch_start`, and so is the iterator of
the caller. -/
theorem position_cursorBatches_reference (size batchStart count : ℕ)
    (vs : Variables) :
    (cursorBatches .reference size batchStart count vs).2.position batchStart =
      vs.position batchStart + count * size := by
  induction count generalizing vs with
  | zero => simp [cursorBatches]
  | succ count ih =>
      simp only [cursorBatches, Variables.declare, ih, position_assign_self]
      rw [Nat.succ_mul]
      omega

/-! ## The calls -/

variable {numThreads cacheLineSize itemSize start stop : ℕ} {vs : Variables}

theorem addBatchTaskWith_of_le (iterator : IteratorType) (itemSize : ℕ)
    (hthreads : 1 ≤ numThreads) (hline : 1 ≤ cacheLineSize)
    (hitems : numThreads ≤ vs.position stop - vs.position start) :
    let totalItems := vs.position stop - vs.position start
    let size := alignedLength numThreads cacheLineSize itemSize totalItems
    let declared := vs.declare start iterator
    let batches := cursorBatches iterator size declared.1 (totalItems / size)
      declared.2
    addBatchTaskWith iterator numThreads cacheLineSize itemSize start stop vs =
      some (batches.1 ++
        [(batches.2.position declared.1, batches.2.position stop)],
          batches.2) := by
  have hguard : ¬(vs.position stop - vs.position start = 0 ∨
      vs.position stop - vs.position start < numThreads) := by omega
  have hsize := alignedLength_pos numThreads cacheLineSize itemSize
    (vs.position stop - vs.position start)
  unfold addBatchTaskWith
  dsimp only
  rw [if_neg hguard, checkedDiv_of_pos hthreads]
  simp only [Option.bind_eq_bind, Option.bind_some]
  rw [checkedDiv_of_pos hline, Option.bind_some]
  change (checkedDiv _ (alignedLength numThreads cacheLineSize itemSize
    (vs.position stop - vs.position start))).bind _ = _
  rw [checkedDiv_of_pos hsize]
  rfl

/-- With iterators that are passed by value the sub-ranges are those of
`addBatchTask`. -/
theorem addBatchTaskWith_value (hthreads : 1 ≤ numThreads)
    (hline : 1 ≤ cacheLineSize) (hstop : stop < vs.size)
    (hrange : vs.position start ≤ vs.position stop) :
    (addBatchTaskWith .value numThreads cacheLineSize itemSize start stop
        vs).map Prod.fst =
      addBatchTask numThreads cacheLineSize itemSize (vs.position start)
        (vs.position stop - vs.position start) := by
  have hlast : vs.position start + (vs.position stop - vs.position start) =
      vs.position stop := Nat.add_sub_cancel' hrange
  by_cases hguard : vs.position stop - vs.position start = 0 ∨
      vs.position stop - vs.position start < numThreads
  · have hwith : addBatchTaskWith .value numThreads cacheLineSize itemSize start
        stop vs = some ([(vs.position start, vs.position stop)], vs) :=
      if_pos hguard
    rw [hwith, addBatchTask, if_pos hguard, hlast]
    rfl
  · rw [addBatchTaskWith_of_le .value itemSize hthreads hline (by omega),
      addBatchTask_of_le itemSize _ hthreads hline (by omega), hlast]
    obtain ⟨hbatches, hcursor, hothers⟩ := cursorBatches_value
      (alignedLength numThreads cacheLineSize itemSize
        (vs.position stop - vs.position start)) vs.size
      ((vs.position stop - vs.position start) /
        alignedLength numThreads cacheLineSize itemSize
          (vs.position stop - vs.position start))
      (vs.declare start .value).2 (Nat.lt_succ_self vs.size)
    have hbegin : (vs.declare start .value).2.position vs.size =
        vs.position start := position_declare_value vs start
    have hend := hothers stop (Nat.lt_succ_of_lt hstop) (Nat.ne_of_lt hstop)
    rw [position_declare_of_lt vs hstop] at hend
    rw [hbegin] at hbatches hcursor
    change some (_ ++ [((cursorBatches .value _ vs.size _ _).2.position vs.size,
      (cursorBatches .value _ vs.size _ _).2.position stop)]) = _
    rw [hcursor, hend]
    exact congrArg (fun l => some (l ++ _)) hbatches

/-- The temporaries that a call with copies passes on. -/
theorem position_copies (start : ℕ) (hstop : stop < vs.size) :
    let first := vs.declare start .value
    let last := first.2.declare stop .value
    last.2.position first.1 = vs.position start ∧
      last.2.position last.1 = vs.position stop ∧ last.1 < last.2.size := by
  have hfirst : (vs.declare start .value).1 <
      (vs.declare start .value).2.size := Nat.lt_succ_self vs.size
  refine ⟨?_, ?_, Nat.lt_succ_self _⟩
  · rw [position_declare_of_lt _ hfirst, position_declare_value]
  · rw [position_declare_value, position_declare_of_lt _ hstop]

theorem addBatchTaskCopies_eq (itemSize : ℕ) (hthreads : 1 ≤ numThreads)
    (hline : 1 ≤ cacheLineSize) (hstop : stop < vs.size)
    (hrange : vs.position start ≤ vs.position stop) :
    (addBatchTaskCopies numThreads cacheLineSize itemSize start stop vs).map
        Prod.fst =
      addBatchTask numThreads cacheLineSize itemSize (vs.position start)
        (vs.position stop - vs.position start) := by
  obtain ⟨hfirst, hlast, hlt⟩ := position_copies start hstop
  rw [addBatchTaskCopies, addBatchTaskWith_value hthreads hline hlt
    (by rwa [hfirst, hlast]), hfirst, hlast]

/-- A call with two iterators of the caller passes on what a call with copies
of them does, which partitions the range, and leaves them as they were. -/
structure PassesLikeCopies
    (numThreads cacheLineSize itemSize start stop : ℕ) (vs : Variables)
    (batches : List (ℕ × ℕ)) (vs' : Variables) : Prop where
  same : (addBatchTaskCopies numThreads cacheLineSize itemSize start stop
    vs).map Prod.fst = some batches
  once : Partitions (vs.position start) (vs.position stop) batches
  start_eq : vs'.position start = vs.position start
  stop_eq : vs'.position stop = vs.position stop

/-- The range is too short for an aligned batch. -/
theorem div_alignedLength_eq_zero_iff {totalItems : ℕ}
    (hline : 1 ≤ cacheLineSize) (hitems : 1 ≤ totalItems) :
    totalItems / alignedLength numThreads cacheLineSize itemSize totalItems =
        0 ↔
      (totalItems + 1) * cacheLineSize ≤
        toSize (toSize (totalItems + numThreads - 1) / numThreads *
          itemSize) := by
  have hlines : totalItems <
        toSize (toSize (totalItems + numThreads - 1) / numThreads *
          itemSize) / cacheLineSize ↔
      (totalItems + 1) * cacheLineSize ≤
        toSize (toSize (totalItems + numThreads - 1) / numThreads *
          itemSize) :=
    Nat.le_div_iff_mul_le hline
  rw [Nat.div_eq_zero_iff_lt (alignedLength_pos ..), alignedLength, lt_max_iff,
    hlines]
  exact or_iff_right (by omega)

/-- A call with two iterators of the caller is right if and only if it makes no
aligned batch: the range is shorter than the number of threads, or the share of
a thread has more cache lines than the range has elements. -/
theorem passesLikeCopies_iff
    (numThreads cacheLineSize itemSize start stop : ℕ) (vs : Variables)
    (hthreads : 1 ≤ numThreads) (hline : 1 ≤ cacheLineSize)
    (hstop : stop < vs.size)
    (hrange : vs.position start ≤ vs.position stop) :
    (∃ batches vs',
      addBatchTaskWith .reference numThreads cacheLineSize itemSize start stop
          vs = some (batches, vs') ∧
        PassesLikeCopies numThreads cacheLineSize itemSize start stop vs
          batches vs') ↔
      vs.position stop - vs.position start < numThreads ∨
        (vs.position stop - vs.position start + 1) * cacheLineSize ≤
          toSize (toSize (vs.position stop - vs.position start +
            numThreads - 1) / numThreads * itemSize) := by
  have hlast : vs.position start + (vs.position stop - vs.position start) =
      vs.position stop := Nat.add_sub_cancel' hrange
  have hcopies := addBatchTaskCopies_eq itemSize hthreads hline hstop
    hrange
  have hwhole : Partitions (vs.position start) (vs.position stop)
      [(vs.position start, vs.position stop)] := .of_tiles (.last hrange)
  by_cases hshort : vs.position stop - vs.position start < numThreads
  · refine iff_of_true ⟨_, vs, if_pos (.inr hshort), ?_, hwhole, rfl, rfl⟩
      (.inl hshort)
    rw [hcopies, addBatchTask, if_pos (.inr hshort), hlast]
  · have hitems : numThreads ≤ vs.position stop - vs.position start := by omega
    rw [or_iff_right hshort, addBatchTaskWith_of_le .reference itemSize hthreads
      hline hitems, ← div_alignedLength_eq_zero_iff hline (by omega)]
    dsimp only [Variables.declare]
    constructor
    · rintro ⟨batches, vs', heq, hpasses⟩
      obtain ⟨rfl, rfl⟩ := Prod.mk.inj (Option.some.inj heq)
      have hmoved := hpasses.start_eq
      rw [position_cursorBatches_reference] at hmoved
      refine (Nat.mul_eq_zero.mp (Nat.add_eq_left.mp hmoved)).resolve_right ?_
      exact (alignedLength_pos ..).ne'
    · intro hzero
      rw [hzero]
      refine ⟨_, _, rfl, ?_, hwhole, rfl, rfl⟩
      rw [hcopies, addBatchTask_of_le itemSize _ hthreads hline hitems, hzero,
        hlast]
      rfl

/-- Two elements in the variables 0 and 1, with four threads. -/
theorem passesLikeCopies_twoItems :
    ∃ batches vs',
      addBatchTaskWith .reference 4 64 4 0 1 ⟨fun x => 2 * x, 2⟩ =
          some (batches, vs') ∧
        PassesLikeCopies 4 64 4 0 1 ⟨fun x => 2 * x, 2⟩ batches vs' :=
  (passesLikeCopies_iff 4 64 4 0 1 ⟨fun x => 2 * x, 2⟩ (by decide) (by decide)
    (by decide) (by decide)).mpr (by decide)

/-- Ten elements on four threads: the sub-ranges are empty, and the first
iterator of the caller has become the second. -/
theorem not_forall_passesLikeCopies :
    ¬∀ (numThreads cacheLineSize itemSize start stop : ℕ) (vs : Variables),
      1 ≤ numThreads → 1 ≤ cacheLineSize → start < vs.size → stop < vs.size →
      vs.position start ≤ vs.position stop →
      ∃ batches vs',
        addBatchTaskWith .reference numThreads cacheLineSize itemSize start
            stop vs = some (batches, vs') ∧
          PassesLikeCopies numThreads cacheLineSize itemSize start stop vs
            batches vs' := by
  intro hall
  obtain ⟨batches, vs', heq, hpasses⟩ := hall 4 64 4 0 1
    ⟨fun x => 10 * x, 2⟩ (by decide) (by decide) (by decide) (by decide)
    (by decide)
  obtain ⟨-, rfl⟩ := Prod.mk.inj (Option.some.inj heq)
  exact absurd hpasses.start_eq (by decide)

end TaskPool
end Ethreads
