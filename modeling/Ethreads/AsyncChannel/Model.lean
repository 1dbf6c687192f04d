import Ethreads.SyncChannel.Fifo
import Ethreads.AsyncPrimitive.Model

/-!
# The asynchronous channel

This module models `channel_send_awaiter`, `channel_receive_awaiter` and
`async_channel` of `include/shared_state/channel.hpp` on top of the models of
`sync_channel` and of the waiter list.

An agent runs one public operation at a time: a call of a thread, or one
`co_await` with the awaiter it creates.  Whenever an operation calls a function
of `sync_channel` or of a waiter list, the agent makes the steps of that
function in the state of the component.

The logs `before`, `sent` and `ended` are not part of the program.  They record
what every `co_await send_async` that has returned was to send and what was
appended for it, and the channel as found by the last `try_receive` of every
`co_await receive_async` that returns `nullopt`.
-/

namespace Ethreads
namespace AsyncChannel

/-- A channel type, and what moving from a value of type `T` leaves behind. -/
structure Config (T : Type*) where
  channel : SyncChannel.Config
  movedFrom : T → T

/-- The two waiter lists: receivers wait in `waiters_`, senders in
`send_waiters_`. -/
inductive Side
  | receive
  | send
  deriving DecidableEq, Repr

inductive Awaiter (T : Type*)
  | receive
  | send (value : T)
  deriving DecidableEq, Repr

namespace Awaiter

variable {T : Type*}

def side : Awaiter T → Side
  | receive => .receive
  | send _ => .send

/-- What `ready_impl` tries. -/
def readyOp : Awaiter T → SyncChannel.Op T
  | receive => .receive .tryReceive
  | send v => .send .trySend v

/-- What `resume_impl` tries.  `ready_impl` has moved from `value_`. -/
def resumeOp (c : Config T) : Awaiter T → SyncChannel.Op T
  | receive => .receive .tryReceive
  | send v => .send .trySend (c.movedFrom v)

end Awaiter

/-- Where an agent stands.  In `resuming` it is inside `resume_impl`, which
runs because the coroutine was woken or because `ready_impl` has found the
channel closed.  A `terminated` agent has called `std::terminate`. -/
inductive Pc (T : Type*)
  | idle
  | call (op : SyncChannel.Op T)
  | wake (all : Bool) (side : Side)
  | waking (all : Bool) (side : Side)
  | ready (w : Awaiter T)
  | loadClosed
  | suspend (w : Awaiter T)
  | adding (w : Awaiter T)
  | suspended (w : Awaiter T)
  | resuming (w : Awaiter T) (woken : Bool)
  | terminated
  deriving DecidableEq, Repr

/-- The synchronous channel, the waiter lists, the agents and the logs. -/
structure State (τ T : Type*) where
  sync : SyncChannel.State τ T
  waiters : Side → AsyncPrimitive.State τ τ Empty
  pc : τ → Pc T
  before : τ → List T
  sent : List (T × List T)
  ended : List (SyncChannel.State τ T)

def initialState (τ T : Type*) : State τ T where
  sync := SyncChannel.initialState τ T
  waiters := fun _ => AsyncPrimitive.initialState τ τ Empty
  pc := fun _ => .idle
  before := fun _ => []
  sent := []
  ended := []

variable {τ T : Type*}

/-- What a public operation does after the function of `sync_channel` that it
overrides has returned: `send` wakes a receiver, `receive` a sender of a
bounded channel, and `close` everybody. -/
def afterCall (c : Config T) : SyncChannel.Op T → SyncChannel.Outcome T → Pc T
  | .send .send _, .returned => .wake false .receive
  | .receive .receive, .value _ =>
      if c.channel.policy.isBounded then .wake false .send else .idle
  | .close, _ => .wake true .receive
  | _, _ => .idle

/-- What follows a call of a function of `sync_channel`.  `ready_impl` is
`noexcept`. -/
def Pc.afterSync (c : Config T) : Pc T → SyncChannel.Outcome T → Pc T
  | call op, out => afterCall c op out
  | ready (.send _), .flag true => idle
  | ready (.send v), .flag false => suspend (.send v)
  | ready (.send _), _ => terminated
  | ready .receive, .optional none => loadClosed
  | ready .receive, _ => idle
  | _, _ => idle

/-- What follows `add_waiter`, `wake_one` or the waking of all waiters. -/
def Pc.afterList : Pc T → Pc T
  | adding w => suspended w
  | waking true .receive => wake true .send
  | _ => idle

/-- The value of a `co_await send_async` that now returns normally;
`resume_impl` ignores the result of `try_send`. -/
def Pc.sentValue : Pc T → SyncChannel.Outcome T → Option T
  | ready (.send v), .flag true => some v
  | resuming (.send v) _, .flag _ => some v
  | _, _ => none

/-- A `co_await receive_async` that returns `nullopt` if its `try_receive`
finds nothing. -/
def Pc.endsOnEmpty : Pc T → Bool
  | resuming .receive _ => true
  | _ => false

def wakeCall (t : τ) : Bool → AsyncPrimitive.Action τ τ Empty
  | false => .callWakeOne t
  | true => .callWakeAll t

inductive Action (τ T : Type*)
  | call (t : τ) (op : SyncChannel.Op T)
  | coAwait (t : τ) (w : Awaiter T)
  | sync (a : SyncChannel.Action τ T)
  | syncReturn (t : τ) (op : SyncChannel.Op T) (out : SyncChannel.Outcome T)
  | loadOpen (t : τ)
  | loadClosed (t : τ)
  | callAdd (t : τ) (w : Awaiter T)
  | callWake (t : τ) (all : Bool) (side : Side)
  | list (t : τ) (side : Side) (a : AsyncPrimitive.Action τ τ Empty)
  | resume (t : τ) (w : Awaiter T)
  deriving DecidableEq, Repr

section Guards

variable [DecidableEq τ]

def State.SyncEnabled (c : Config T) (s : State τ T)
    (a : SyncChannel.Action τ T) : Prop :=
  SyncChannel.Enabled c.channel s.sync a

def State.ListEnabled (s : State τ T) (side : Side)
    (a : AsyncPrimitive.Action τ τ Empty) : Prop :=
  AsyncPrimitive.Enabled AsyncPrimitive.ungated (s.waiters side) a

def Enabled (c : Config T) (s : State τ T) : Action τ T → Prop
  | .call t op => s.pc t = .idle ∧ s.SyncEnabled c (.call t op)
  | .coAwait t w => s.pc t = .idle ∧ s.SyncEnabled c (.call t w.readyOp)
  | .sync a => a.internal = true ∧ s.SyncEnabled c a
  | .syncReturn t op out => s.SyncEnabled c (.unlock t op out)
  | .loadOpen t => s.pc t = .loadClosed ∧ s.sync.closed = false
  | .loadClosed t =>
      s.pc t = .loadClosed ∧ s.sync.closed = true ∧
        s.SyncEnabled c (.call t (.receive .tryReceive))
  | .callAdd t w =>
      s.pc t = .suspend w ∧ s.ListEnabled w.side (.callAdd t t)
  | .callWake t all side =>
      s.pc t = .wake all side ∧ s.ListEnabled side (wakeCall t all)
  | .list t side a => a.runner = some t ∧ s.ListEnabled side a
  | .resume t w =>
      s.pc t = .suspended w ∧ s.ListEnabled w.side (.resume t) ∧
        s.SyncEnabled c (.call t (w.resumeOp c))

instance [Fintype τ] [DecidableEq T] (c : Config T) (s : State τ T)
    (a : SyncChannel.Action τ T) : Decidable (s.SyncEnabled c a) :=
  inferInstanceAs (Decidable (SyncChannel.Enabled c.channel s.sync a))

instance (s : State τ T) (side : Side)
    (a : AsyncPrimitive.Action τ τ Empty) :
    Decidable (s.ListEnabled side a) :=
  inferInstanceAs (Decidable (AsyncPrimitive.Enabled
    AsyncPrimitive.ungated (s.waiters side) a))

instance [Fintype τ] [DecidableEq T] (c : Config T) (s : State τ T)
    (a : Action τ T) : Decidable (Enabled c s a) := by
  cases a <;> dsimp only [Enabled] <;> infer_instance

end Guards

variable [DecidableEq τ]

def State.goto (s : State τ T) (t : τ) (q : Pc T) : State τ T :=
  { s with pc := Function.update s.pc t q }

def State.syncNext (c : Config T) (s : State τ T)
    (a : SyncChannel.Action τ T) : State τ T :=
  { s with sync := SyncChannel.next c.channel s.sync a }

def State.listNext (s : State τ T) (side : Side)
    (a : AsyncPrimitive.Action τ τ Empty) : State τ T :=
  { s with
    waiters := Function.update s.waiters side
      (AsyncPrimitive.next AsyncPrimitive.ungated (s.waiters side) a) }

/-- What was appended to the buffer for the operation agent `t` runs. -/
def State.appended (s : State τ T) (t : τ) : List T :=
  (SyncChannel.valuesOf t s.sync.accepted).drop (s.before t).length

/-- The log of the returned `co_await send_async`s after a call of agent `t`
has returned `out`. -/
def State.sentAfter (s : State τ T) (t : τ) (out : SyncChannel.Outcome T) :
    List (T × List T) :=
  match (s.pc t).sentValue out with
  | some v => s.sent ++ [(v, s.appended t)]
  | none => s.sent

/-- The log of the `co_await receive_async`s that return `nullopt` after a
step of `sync_channel`. -/
def State.endedAfter (s : State τ T) :
    SyncChannel.Action τ T → List (SyncChannel.State τ T)
  | .popEmpty t _ =>
      if (s.pc t).endsOnEmpty then s.ended ++ [s.sync] else s.ended
  | _ => s.ended

def next (c : Config T) (s : State τ T) : Action τ T → State τ T
  | .call t op => (s.syncNext c (.call t op)).goto t (.call op)
  | .coAwait t w =>
      { (s.syncNext c (.call t w.readyOp)).goto t (.ready w) with
        before := Function.update s.before t
          (SyncChannel.valuesOf t s.sync.accepted) }
  | .sync a => { s.syncNext c a with ended := s.endedAfter a }
  | .syncReturn t op out =>
      { (s.syncNext c (.unlock t op out)).goto t ((s.pc t).afterSync c out) with
        sent := s.sentAfter t out }
  | .loadOpen t => s.goto t (.suspend .receive)
  | .loadClosed t =>
      (s.syncNext c (.call t (.receive .tryReceive))).goto t
        (.resuming .receive false)
  | .callAdd t w => (s.listNext w.side (.callAdd t t)).goto t (.adding w)
  | .callWake t all side =>
      (s.listNext side (wakeCall t all)).goto t (.waking all side)
  | .list t side a =>
      let s' := s.listNext side a
      if (s'.waiters side).pc t = .idle then s'.goto t (s.pc t).afterList
      else s'
  | .resume t w =>
      ((s.listNext w.side (.resume t)).syncNext c
        (.call t (w.resumeOp c))).goto t (.resuming w true)

def system (c : Config T) (τ : Type*) [DecidableEq τ] :
    TransitionSystem (State τ T) (Action τ T) where
  Initial s := s = initialState τ T
  Enabled := Enabled c
  next := next c

instance [Fintype τ] [DecidableEq T] (c : Config T) (s : State τ T)
    (a : Action τ T) : Decidable ((system c τ).Enabled s a) :=
  inferInstanceAs (Decidable (Enabled c s a))

end AsyncChannel
end Ethreads
