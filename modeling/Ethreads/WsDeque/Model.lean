import Ethreads.Support.TransitionSystem
import Ethreads.Support.Deque
import Mathlib.Algebra.Group.Nat.Defs
import Mathlib.Data.Fintype.Basic

/-!
# The work-stealing deque

This module models `ws_deque` of `include/ws_deque.hpp` for one owner and any
number of thieves.  Every load, store, element access and compare-exchange is
one step, in a sequentially consistent interleaving.  Indices are computed
modulo `2 ^ 64`, as in `size_t`.  An array that has been replaced by a larger
one stays allocated, so the arrays form a heap that only grows.

The last fields of the state are not part of the program.  An item is a pushed
value together with the number and the index of its push; `live` holds the
items that can still be taken, `claimed` the item that the owner has taken and
not yet returned, `history` the pushes, pops and steals in the order in which
they take effect, and `pushed`, `popped` and `stolen` the values of the
successful calls.
-/

namespace Ethreads
namespace WsDeque

/-! ## Circular arrays -/

/-- `circular_array`: the number of slots and their contents. -/
structure CircularArray (α : Type*) where
  capacity : ℕ
  buffer : ℕ → α

namespace CircularArray

variable {α : Type*}

/-- `get`, with the index masked by `capacity - 1`. -/
def get (a : CircularArray α) (i : ℕ) : α :=
  a.buffer (i &&& (a.capacity - 1))

/-- `put`, with the index masked by `capacity - 1`. -/
def put (a : CircularArray α) (i : ℕ) (item : α) : CircularArray α :=
  { a with buffer := Function.update a.buffer (i &&& (a.capacity - 1)) item }

end CircularArray

/-- The initial capacity, a power of two, and the largest size of the vector
behind an array, beyond which its constructor throws. -/
structure Config where
  exponent : ℕ
  vectorMaxSize : ℕ
  fits : 2 ^ exponent ≤ vectorMaxSize
  vectorMaxSize_lt : vectorMaxSize < 2 ^ 63

/-! ## Program points and states -/

/-- Where the owner stands: in `push` of an item, in `pop`, or in neither. -/
inductive OwnerPc (α : Type*)
  | idle
  | pushLoadBottom (item : α)
  | pushLoadTop (item : α) (b : ℕ)
  | pushLoadArray (item : α) (b t : ℕ)
  | grow (item : α) (b t arr new i : ℕ)
  | storeArray (item : α) (b new : ℕ)
  | put (item : α) (b arr : ℕ)
  | pushStoreBottom (item : α) (b : ℕ)
  | popLoadBottom
  | popLoadArray (b : ℕ)
  | popStoreBottom (b arr : ℕ)
  | popLoadTop (b arr : ℕ)
  | popGet (b arr t : ℕ)
  | popCas (b t : ℕ) (item : α)
  | restore (b : ℕ) (result : Option α)
  deriving DecidableEq, Repr

/-- Where a thief stands in `steal`. -/
inductive ThiefPc (α : Type*)
  | idle
  | loadTop
  | loadBottom (t : ℕ)
  | loadArray (t : ℕ)
  | get (t arr : ℕ)
  | cas (t : ℕ) (item : α)
  deriving DecidableEq, Repr

/-- A pushed value with the number and the index of its push. -/
structure Item (α : Type*) where
  number : ℕ
  index : ℕ
  value : α
  deriving DecidableEq, Repr

structure State (τ α : Type*) where
  top : ℕ
  bottom : ℕ
  array : ℕ
  heap : ℕ → CircularArray α
  allocated : ℕ
  owner : OwnerPc α
  thief : τ → ThiefPc α
  live : List (Item α)
  claimed : Option (Item α)
  history : List (DequeEvent (Item α))
  pushed : List α
  popped : List α
  stolen : List α

/-- `new circular_array(n)`; the slots hold default values. -/
def newArray {α : Type*} [Inhabited α] (n : ℕ) : CircularArray α where
  capacity := n
  buffer := fun _ => default

variable {τ α : Type*}

def initialState [Inhabited α] (c : Config) : State τ α where
  top := 0
  bottom := 0
  array := 0
  heap := fun _ => newArray (2 ^ c.exponent)
  allocated := 1
  owner := .idle
  thief := fun _ => .idle
  live := []
  claimed := none
  history := []
  pushed := []
  popped := []
  stolen := []

/-- `size_t` addition and subtraction. -/
def add (x y : ℕ) : ℕ := (x + y) % 2 ^ 64

def sub (x y : ℕ) : ℕ := (x + 2 ^ 64 - y) % 2 ^ 64

/-! ## Atomic actions -/

/-- The steps of the owner, and those of the thieves, with the local values of
the call. -/
inductive Action (τ α : Type*)
  | callPush (item : α)
  | pushLoadBottom (item : α)
  | pushLoadTop (item : α) (b : ℕ)
  | pushFits (item : α) (b t : ℕ)
  | pushGrows (item : α) (b t : ℕ)
  | pushThrows (item : α) (b t : ℕ)
  | copy (item : α) (b t arr new i : ℕ)
  | copied (item : α) (b t arr new i : ℕ)
  | storeArray (item : α) (b new : ℕ)
  | put (item : α) (b arr : ℕ)
  | pushStoreBottom (item : α) (b : ℕ)
  | callPop
  | popZero
  | popLoadBottom
  | popLoadArray (b : ℕ)
  | popStoreBottom (b arr : ℕ)
  | popMany (b arr : ℕ)
  | popLast (b arr : ℕ)
  | popEmpty (b arr : ℕ)
  | popGet (b arr t : ℕ)
  | popGetLast (b arr t : ℕ)
  | popCas (b t : ℕ) (item : α)
  | popCasFails (b t : ℕ) (item : α)
  | restore (b : ℕ) (result : Option α)
  | callSteal (u : τ)
  | stealLoadTop (u : τ)
  | stealLoadBottom (u : τ) (t : ℕ)
  | stealEmpty (u : τ) (t : ℕ)
  | stealLoadArray (u : τ) (t : ℕ)
  | stealGet (u : τ) (t arr : ℕ)
  | stealCas (u : τ) (t : ℕ) (item : α)
  | stealCasFails (u : τ) (t : ℕ) (item : α)
  deriving DecidableEq, Repr

/-- The capacity of the current array. -/
def State.capacity (s : State τ α) : ℕ :=
  (s.heap s.array).capacity

/-- The capacity that `grow` asks for. -/
def State.grownCapacity (s : State τ α) : ℕ :=
  s.capacity * 2 % 2 ^ 64

/-- When a step may be taken.  The load of `array_` in `push` goes together
with the comparison that follows it, and the loads of `top_` and `bottom_`
with the comparisons of the values loaded. -/
def Enabled (c : Config) (s : State τ α) : Action τ α → Prop
  | .callPush _ => s.owner = .idle
  | .pushLoadBottom x => s.owner = .pushLoadBottom x
  | .pushLoadTop x b => s.owner = .pushLoadTop x b
  | .pushFits x b t =>
      s.owner = .pushLoadArray x b t ∧ sub b t ≤ s.capacity - 1
  | .pushGrows x b t =>
      s.owner = .pushLoadArray x b t ∧ s.capacity - 1 < sub b t ∧
        s.grownCapacity ≤ c.vectorMaxSize
  | .pushThrows x b t =>
      s.owner = .pushLoadArray x b t ∧ s.capacity - 1 < sub b t ∧
        c.vectorMaxSize < s.grownCapacity
  | .copy x b t arr new i => s.owner = .grow x b t arr new i ∧ i < b
  | .copied x b t arr new i => s.owner = .grow x b t arr new i ∧ b ≤ i
  | .storeArray x b new => s.owner = .storeArray x b new
  | .put x b arr => s.owner = .put x b arr
  | .pushStoreBottom x b => s.owner = .pushStoreBottom x b
  | .callPop => s.owner = .idle
  | .popZero => s.owner = .popLoadBottom ∧ s.bottom = 0
  | .popLoadBottom => s.owner = .popLoadBottom ∧ s.bottom ≠ 0
  | .popLoadArray b => s.owner = .popLoadArray b
  | .popStoreBottom b arr => s.owner = .popStoreBottom b arr
  | .popMany b arr => s.owner = .popLoadTop b arr ∧ s.top < b
  | .popLast b arr => s.owner = .popLoadTop b arr ∧ s.top = b
  | .popEmpty b arr => s.owner = .popLoadTop b arr ∧ b < s.top
  | .popGet b arr t => s.owner = .popGet b arr t ∧ t ≠ b
  | .popGetLast b arr t => s.owner = .popGet b arr t ∧ t = b
  | .popCas b t x => s.owner = .popCas b t x ∧ s.top = t
  | .popCasFails b t x => s.owner = .popCas b t x ∧ s.top ≠ t
  | .restore b r => s.owner = .restore b r
  | .callSteal u => s.thief u = .idle
  | .stealLoadTop u => s.thief u = .loadTop
  | .stealLoadBottom u t => s.thief u = .loadBottom t ∧ t < s.bottom
  | .stealEmpty u t => s.thief u = .loadBottom t ∧ s.bottom ≤ t
  | .stealLoadArray u t => s.thief u = .loadArray t
  | .stealGet u t arr => s.thief u = .get t arr
  | .stealCas u t x => s.thief u = .cas t x ∧ s.top = t
  | .stealCasFails u t x => s.thief u = .cas t x ∧ s.top ≠ t

instance [DecidableEq α] (c : Config) (s : State τ α) (a : Action τ α) :
    Decidable (Enabled c s a) := by
  cases a <;> dsimp only [Enabled] <;> infer_instance

/-- The item that a push of `x` at index `b` adds. -/
def State.newItem (s : State τ α) (x : α) (b : ℕ) : Item α where
  number := s.pushed.length
  index := b
  value := x

/-- The owner claims the last live item. -/
def State.claimBack (s : State τ α) : State τ α :=
  { s with
    live := s.live.dropLast
    claimed := s.live.getLast?
    history := s.history ++ (s.live.getLast?.map .pop).toList }

/-- A thief takes the first live item. -/
def State.takeFront (s : State τ α) : State τ α :=
  { s with
    live := s.live.tail
    history := s.history ++ (s.live.head?.map .steal).toList }

/-- The array at `arr` is replaced. -/
def State.write (s : State τ α) (arr : ℕ) (a : CircularArray α) :
    State τ α :=
  { s with heap := Function.update s.heap arr a }

variable [DecidableEq τ]

/-- Thief `u` moves to the program point `q`. -/
def State.thiefTo (s : State τ α) (u : τ) (q : ThiefPc α) : State τ α :=
  { s with thief := Function.update s.thief u q }

def next [Inhabited α] (s : State τ α) : Action τ α → State τ α
  | .callPush x => { s with owner := .pushLoadBottom x }
  | .pushLoadBottom x => { s with owner := .pushLoadTop x s.bottom }
  | .pushLoadTop x b => { s with owner := .pushLoadArray x b s.top }
  | .pushFits x b _ => { s with owner := .put x b s.array }
  | .pushGrows x b t =>
      { s.write s.allocated (newArray s.grownCapacity) with
        allocated := s.allocated + 1
        owner := .grow x b t s.array s.allocated t }
  | .pushThrows _ _ _ => { s with owner := .idle }
  | .copy x b t arr new i =>
      { s.write new ((s.heap new).put i ((s.heap arr).get i)) with
        owner := .grow x b t arr new (add i 1) }
  | .copied x b _ _ new _ => { s with owner := .storeArray x b new }
  | .storeArray x b new => { s with array := new, owner := .put x b new }
  | .put x b arr =>
      { s.write arr ((s.heap arr).put b x) with
        owner := .pushStoreBottom x b }
  | .pushStoreBottom x b =>
      { s with
        bottom := add b 1
        owner := .idle
        live := s.live ++ [s.newItem x b]
        history := s.history ++ [.push (s.newItem x b)]
        pushed := s.pushed ++ [x] }
  | .callPop => { s with owner := .popLoadBottom }
  | .popZero => { s with owner := .idle }
  | .popLoadBottom => { s with owner := .popLoadArray (sub s.bottom 1) }
  | .popLoadArray b => { s with owner := .popStoreBottom b s.array }
  | .popStoreBottom b arr =>
      { s with bottom := b, owner := .popLoadTop b arr }
  | .popMany b arr => { s.claimBack with owner := .popGet b arr s.top }
  | .popLast b arr => { s with owner := .popGet b arr s.top }
  | .popEmpty b _ => { s with owner := .restore b none }
  | .popGet b arr _ =>
      { s with
        owner := .idle
        claimed := none
        popped := s.popped ++ [(s.heap arr).get b] }
  | .popGetLast b arr t =>
      { s with owner := .popCas b t ((s.heap arr).get b) }
  | .popCas b t x =>
      { s.claimBack with top := add t 1, owner := .restore b (some x) }
  | .popCasFails b _ _ => { s with owner := .restore b none }
  | .restore b r =>
      { s with
        bottom := add b 1
        owner := .idle
        claimed := none
        popped := s.popped ++ r.toList }
  | .callSteal u => s.thiefTo u .loadTop
  | .stealLoadTop u => s.thiefTo u (.loadBottom s.top)
  | .stealLoadBottom u t => s.thiefTo u (.loadArray t)
  | .stealEmpty u _ => s.thiefTo u .idle
  | .stealLoadArray u t => s.thiefTo u (.get t s.array)
  | .stealGet u t arr => s.thiefTo u (.cas t ((s.heap arr).get t))
  | .stealCas u t x =>
      { s.takeFront.thiefTo u .idle with
        top := add t 1
        stolen := s.stolen ++ [x] }
  | .stealCasFails u _ _ => s.thiefTo u .idle

def system [Inhabited α] (c : Config) (τ : Type*) [DecidableEq τ] :
    TransitionSystem (State τ α) (Action τ α) where
  Initial s := s = initialState c
  Enabled := Enabled c
  next := next

instance [DecidableEq α] [Inhabited α] (c : Config) (s : State τ α)
    (a : Action τ α) : Decidable ((system c τ).Enabled s a) :=
  inferInstanceAs (Decidable (Enabled c s a))

end WsDeque
end Ethreads
