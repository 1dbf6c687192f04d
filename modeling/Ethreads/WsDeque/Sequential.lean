import Ethreads.WsDeque.Counters

/-!
# Calls one at a time

This module models `push`, `pop` and `steal` of `include/ws_deque.hpp` as
functions, for a deque whose calls do not overlap, with any initial capacity.
The compare-exchange of a call then finds the value of `top_` that the call has
loaded.  A call of `push` throws if the vector for a larger array would exceed
its largest size.

The calls are compared with those of a list whose front is stolen from and
whose back is pushed to and popped from.
-/

namespace Ethreads
namespace WsDeque

variable {α : Type*}

namespace CircularArray

def slot (a : CircularArray α) (i : ℕ) : ℕ :=
  i &&& (a.capacity - 1)

/-- The loop of `grow` from index `i` on, `count` times. -/
def copyItems (a : CircularArray α) :
    ℕ → ℕ → CircularArray α → CircularArray α
  | 0, _, new => new
  | count + 1, i, new => copyItems a count (i + 1) (new.put i (a.get i))

def grow [Inhabited α] (a : CircularArray α) (b t : ℕ) : CircularArray α :=
  a.copyItems (b - t) t (newArray (a.capacity * 2 % 2 ^ 64))

end CircularArray

/-- `ws_deque`. -/
structure Deque (α : Type*) where
  top : ℕ
  bottom : ℕ
  array : CircularArray α

namespace Deque

/-- The constructor. -/
def new [Inhabited α] (initialCapacity : ℕ) : Deque α where
  top := 0
  bottom := 0
  array := newArray initialCapacity

/-- `push`, unless it throws. -/
def push [Inhabited α] (vectorMaxSize : ℕ) (d : Deque α) (item : α) :
    Option (Deque α) :=
  let b := d.bottom
  let t := d.top
  if d.array.capacity - 1 < sub b t then
    if vectorMaxSize < d.array.capacity * 2 % 2 ^ 64 then none
    else some ⟨t, add b 1, (d.array.grow b t).put b item⟩
  else some ⟨t, add b 1, d.array.put b item⟩

def pop (d : Deque α) : Option α × Deque α :=
  if d.bottom = 0 then (none, d)
  else
    let b := sub d.bottom 1
    let t := d.top
    if t ≤ b then
      let item := d.array.get b
      if t = b then (some item, ⟨add t 1, add b 1, d.array⟩)
      else (some item, ⟨t, b, d.array⟩)
    else (none, ⟨t, add b 1, d.array⟩)

def steal (d : Deque α) : Option α × Deque α :=
  let t := d.top
  if t < d.bottom then (some (d.array.get t), { d with top := add t 1 })
  else (none, d)

end Deque

/-- The public operations. -/
inductive Op (α : Type*)
  | push (item : α)
  | pop
  | steal
  deriving DecidableEq, Repr

/-- How a call ends. -/
inductive Result (α : Type*)
  | pushed
  | threw
  | taken (item : Option α)
  deriving DecidableEq, Repr

def Deque.afterPush (d : Deque α) : Option (Deque α) → Result α × Deque α
  | none => (.threw, d)
  | some d' => (.pushed, d')

/-- One call, with the deque that it leaves. -/
def Deque.call [Inhabited α] (vectorMaxSize : ℕ) (d : Deque α) :
    Op α → Result α × Deque α
  | .push item => d.afterPush (d.push vectorMaxSize item)
  | .pop => (.taken d.pop.1, d.pop.2)
  | .steal => (.taken d.steal.1, d.steal.2)

def pushes (ops : List (Op α)) : ℕ :=
  ops.countP fun op => match op with
    | .push _ => true
    | _ => false

/-! ## The branches of `push` and `pop` -/

variable {d : Deque α} {b : ℕ}

section Push

variable [Inhabited α] {vectorMaxSize size grown : ℕ} {x : α}

theorem Deque.call_push_of_fits (hsize : sub d.bottom d.top = size)
    (h : size ≤ d.array.capacity - 1) :
    d.call vectorMaxSize (.push x) =
      (.pushed, ⟨d.top, add d.bottom 1, d.array.put d.bottom x⟩) := by
  have hpush : d.push vectorMaxSize x =
      some ⟨d.top, add d.bottom 1, d.array.put d.bottom x⟩ := by
    rw [Deque.push, hsize, if_neg h.not_gt]
  exact congrArg d.afterPush hpush

theorem Deque.call_push_of_grows (hsize : sub d.bottom d.top = size)
    (h : d.array.capacity - 1 < size)
    (hgrown : d.array.capacity * 2 % 2 ^ 64 = grown)
    (hfits : grown ≤ vectorMaxSize) :
    d.call vectorMaxSize (.push x) =
      (.pushed, ⟨d.top, add d.bottom 1,
        (d.array.grow d.bottom d.top).put d.bottom x⟩) := by
  have hpush : d.push vectorMaxSize x = some ⟨d.top, add d.bottom 1,
      (d.array.grow d.bottom d.top).put d.bottom x⟩ := by
    rw [Deque.push, hsize, if_pos h, hgrown, if_neg hfits.not_gt]
  exact congrArg d.afterPush hpush

theorem Deque.call_push_of_throws (hsize : sub d.bottom d.top = size)
    (h : d.array.capacity - 1 < size)
    (hgrown : d.array.capacity * 2 % 2 ^ 64 = grown)
    (hmax : vectorMaxSize < grown) :
    d.call vectorMaxSize (.push x) = (.threw, d) := by
  have hpush : d.push vectorMaxSize x = none := by
    rw [Deque.push, hsize, if_pos h, hgrown, if_pos hmax]
  exact congrArg d.afterPush hpush

end Push

theorem Deque.pop_of_lt (hzero : d.bottom ≠ 0) (hb : sub d.bottom 1 = b)
    (h : d.top < b) : d.pop = (some (d.array.get b), ⟨d.top, b, d.array⟩) := by
  subst hb
  rw [Deque.pop, if_neg hzero]
  dsimp only
  rw [if_pos h.le, if_neg h.ne]

theorem Deque.pop_of_eq (hzero : d.bottom ≠ 0) (hb : sub d.bottom 1 = b)
    (h : d.top = b) :
    d.pop = (some (d.array.get b), ⟨add b 1, add b 1, d.array⟩) := by
  subst hb
  rw [Deque.pop, if_neg hzero]
  dsimp only
  rw [if_pos h.le, if_pos h, h]

theorem Deque.pop_of_gt (hzero : d.bottom ≠ 0) (hb : sub d.bottom 1 = b)
    (h : b < d.top) : d.pop = (none, ⟨d.top, add b 1, d.array⟩) := by
  subst hb
  rw [Deque.pop, if_neg hzero]
  dsimp only
  rw [if_neg h.not_ge]

/-! ## The list -/

/-- The calls of a double-ended list, with the list before and after.  A push
may throw only if there is no vector of twice as many slots as items. -/
inductive ListCall (vectorMaxSize : ℕ) :
    List α → Op α → Result α → List α → Prop
  | push (live : List α) (item : α) :
      ListCall vectorMaxSize live (.push item) .pushed (live ++ [item])
  | threw (live : List α) (item : α)
      (hmax : vectorMaxSize < 2 * live.length) :
      ListCall vectorMaxSize live (.push item) .threw live
  | pop (live : List α) :
      ListCall vectorMaxSize live .pop (.taken live.getLast?) live.dropLast
  | steal (live : List α) :
      ListCall vectorMaxSize live .steal (.taken live.head?) live.tail

/-- The items of the list lie at the indices from `top_` up to `bottom_`, in
slots of their own. -/
structure Represents (d : Deque α) (live : List α) : Prop where
  count : d.bottom = add d.top live.length
  distinct : ∀ i j, i < j → j < live.length →
    d.array.slot (add d.top i) ≠ d.array.slot (add d.top j)
  contents : ∀ i x, live[i]? = some x → d.array.get (add d.top i) = x

/-- From here on, the deque represents the list before and after each call, and
the calls end like those of the list. -/
def BehavesAsList [Inhabited α] (vectorMaxSize : ℕ) :
    Deque α → List α → List (Op α) → Prop
  | d, live, [] => Represents d live
  | d, live, op :: ops =>
      Represents d live ∧
        ∃ live', ListCall vectorMaxSize live op (d.call vectorMaxSize op).1
            live' ∧
          BehavesAsList vectorMaxSize (d.call vectorMaxSize op).2 live' ops

end WsDeque
end Ethreads
