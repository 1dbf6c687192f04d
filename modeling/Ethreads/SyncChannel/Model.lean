import Ethreads.Support.TransitionSystem
import Mathlib.Data.Fintype.Basic
import Mathlib.Data.Fintype.Quotient

/-!
# The synchronous channel

This module models `sync_channel` of `include/shared_state/channel.hpp`
together with `sync_primitive_base` and `closeable_mixin` of
`include/shared_state/crtp_base.hpp`.

The mutex, the two condition variables and the atomic flag `closed_` are
modelled step by step.  A wait releases the mutex and joins the wait set in
one step; `notify_one` marks one waiting thread; a waiting thread may also
leave the set because its time is up or spuriously.  The store to `closed_`
is made outside the mutex, so it may fall between any two steps of a section
of another thread.

The logs `accepted`, `received` and `history` are not part of the program.
They record, in the order in which the mutex is held, which values went into
and out of the buffer, and which calls have returned.
-/

namespace Ethreads
namespace SyncChannel

/-! ## Policies, operations and their results -/

/-- `bounded_policy<N>` and `unbounded_policy`. -/
inductive BoundednessPolicy
  | bounded (n : ℕ)
  | unbounded
  deriving DecidableEq, Repr

namespace BoundednessPolicy

def isBounded : BoundednessPolicy → Bool
  | bounded _ => true
  | unbounded => false

/-- `max_size()`; the unbounded policy returns the largest `size_t`. -/
def maxSize : BoundednessPolicy → ℕ
  | bounded n => n
  | unbounded => 2 ^ 64 - 1

end BoundednessPolicy

/-- A channel type: its boundedness policy, and the largest size of its
`std::deque`, beyond which `push_back` throws `std::length_error`. -/
structure Config where
  policy : BoundednessPolicy
  dequeMaxSize : ℕ
  dequeMaxSize_lt : dequeMaxSize < 2 ^ 64

inductive SendKind
  | send
  | trySend
  | sendFor
  deriving DecidableEq, Repr

inductive ReceiveKind
  | receive
  | tryReceive
  | receiveFor
  deriving DecidableEq, Repr

/-- The public operations, with the argument of a send. -/
inductive Op (T : Type*)
  | send (kind : SendKind) (value : T)
  | receive (kind : ReceiveKind)
  | close
  deriving DecidableEq, Repr

/-- `channel_op_status`. -/
inductive ChannelOpStatus
  | success
  | closed
  | wouldBlock
  | timeout
  deriving DecidableEq, Repr

/-- How a call ends: it returns nothing, a `bool`, a value, an optional value
or a `channel_result`, or it throws. -/
inductive Outcome (T : Type*)
  | returned
  | flag (sent : Bool)
  | value (v : T)
  | optional (v : Option T)
  | result (status : ChannelOpStatus) (v : Option T)
  | threw (what : String)
  deriving DecidableEq, Repr

/-- The two condition variables: receivers wait on `cv_`, senders on
`send_cv_`. -/
inductive CondVar
  | cv
  | sendCv
  deriving DecidableEq, Repr

namespace SendKind

variable {T : Type*}

def outcomeSent : SendKind → Outcome T
  | send => .returned
  | trySend => .flag true
  | sendFor => .flag true

def outcomeClosed : SendKind → Outcome T
  | send => .threw "send on closed channel"
  | trySend => .flag false
  | sendFor => .flag false

end SendKind

namespace ReceiveKind

variable {T : Type*}

def outcomeReceived (v : T) : ReceiveKind → Outcome T
  | receive => .value v
  | tryReceive => .optional (some v)
  | receiveFor => .result .success (some v)

def outcomeEmpty : ReceiveKind → Outcome T
  | receive => .threw "receive on closed empty channel"
  | tryReceive => .optional none
  | receiveFor => .result .closed none

end ReceiveKind

namespace Op

variable {T : Type*}

/-- The operations that wait with a time-out. -/
def timed : Op T → Bool
  | send .sendFor _ => true
  | receive .receiveFor => true
  | _ => false

/-- What a timed wait returns when its time is up. -/
def outcomeTimeout : Op T → Outcome T
  | receive _ => .result .timeout none
  | _ => .flag false

/-- The condition variable an operation waits on. -/
def waitsOn : Op T → CondVar → Bool
  | send _ _, .sendCv => true
  | receive _, .cv => true
  | _, _ => false

end Op

/-- The value that a call with this outcome has put into the buffer. -/
def acceptedOf {T : Type*} : Op T → Outcome T → Option T
  | .send _ v, .returned => some v
  | .send _ v, .flag true => some v
  | _, _ => none

/-- The value that a call with this outcome has taken out of the buffer. -/
def receivedOf {T : Type*} : Op T → Outcome T → Option T
  | .receive _, .value v => some v
  | .receive _, .optional (some v) => some v
  | .receive _, .result _ (some v) => some v
  | _, _ => none

/-- `receive` has thrown, or `receive_for` has reported, that the channel is
closed and empty. -/
def reportsEnd {T : Type*} : Op T → Outcome T → Bool
  | .receive .receive, .threw _ => true
  | .receive .receiveFor, .result .closed none => true
  | _, _ => false

/-! ## Program points and states -/

/-- Where a thread stands.  From `test` to `unlock` it holds `mutex_`. -/
inductive Pc (T : Type*)
  | idle
  | storeClosed
  | lock (op : Op T)
  | test (op : Op T) (expired : Bool)
  | block (op : Op T)
  | waiting (op : Op T)
  | notified (op : Op T)
  | woken (op : Op T)
  | checkClosed (kind : SendKind) (value : T)
  | push (kind : SendKind) (value : T)
  | take (kind : ReceiveKind)
  | notifyOne (x : CondVar) (op : Op T) (out : Outcome T)
  | notifyAll (x : CondVar)
  | unlock (op : Op T) (out : Outcome T)
  deriving DecidableEq, Repr

namespace Pc

variable {T : Type*}

def waitsOn (x : CondVar) : Pc T → Bool
  | waiting op => op.waitsOn x
  | _ => false

def mark (x : CondVar) : Pc T → Pc T
  | waiting op => if op.waitsOn x then notified op else waiting op
  | pc => pc

def holdsMutex : Pc T → Bool
  | test _ _ | block _ | checkClosed _ _ | push _ _ | take _ | notifyOne _ _ _
  | notifyAll _ | unlock _ _ => true
  | _ => false

end Pc

/-- The channel, the threads using it, and the logs of what happened. -/
structure State (τ T : Type*) where
  buffer : List T
  closed : Bool
  mutex : Option τ
  pc : τ → Pc T
  accepted : List (τ × T)
  received : List (τ × T)
  history : List (τ × Op T × Outcome T)

def initialState (τ T : Type*) : State τ T where
  buffer := []
  closed := false
  mutex := none
  pc := fun _ => .idle
  accepted := []
  received := []
  history := []

variable {τ T : Type*}

def canSend (c : Config) (s : State τ T) : Bool :=
  match c.policy with
  | .bounded n => decide (s.buffer.length < n)
  | .unbounded => true

/-- The predicate of the wait in a send or receive operation. -/
def waitPredicate (c : Config) (s : State τ T) : Op T → Bool
  | .send _ _ => s.closed || canSend c s
  | .receive _ => !s.buffer.isEmpty || s.closed
  | .close => true

/-- The first step of a call.  Only `close` starts outside the mutex. -/
def afterCall : Op T → Pc T
  | .close => .storeClosed
  | op => .lock op

/-- The first step of a section once the mutex is held. -/
def afterLock (c : Config) : Op T → Pc T
  | .send .trySend v => .checkClosed .trySend v
  | .send k v =>
      if c.policy.isBounded then .test (.send k v) false
      else .checkClosed k v
  | .receive .tryReceive => .take .tryReceive
  | .receive k => .test (.receive k) false
  | .close => .notifyAll .cv

def afterWait : Op T → Pc T
  | .send k v => .checkClosed k v
  | .receive k => .take k
  | .close => .notifyAll .cv

/-- The step after a value was taken: only a bounded channel notifies
`send_cv_`. -/
def afterTake (c : Config) (k : ReceiveKind) (v : T) : Pc T :=
  if c.policy.isBounded then
    .notifyOne .sendCv (.receive k) (k.outcomeReceived v)
  else
    .unlock (.receive k) (k.outcomeReceived v)

def afterNotifyAll : CondVar → Pc T
  | .cv => .notifyAll .sendCv
  | .sendCv => .unlock .close .returned

/-! ## Atomic actions -/

/-- The atomic steps of the operations, with the thread that takes them. -/
inductive Action (τ T : Type*)
  | call (t : τ) (op : Op T)
  | storeClosed (t : τ)
  | lock (t : τ) (op : Op T)
  | testTrue (t : τ) (op : Op T) (expired : Bool)
  | testFalse (t : τ) (op : Op T)
  | testExpired (t : τ) (op : Op T)
  | wait (t : τ) (op : Op T)
  | wake (t : τ) (op : Op T)
  | relock (t : τ) (op : Op T) (expired : Bool)
  | loadClosed (t : τ) (kind : SendKind) (value : T)
  | loadOpen (t : τ) (kind : SendKind) (value : T)
  | pushBack (t : τ) (kind : SendKind) (value : T)
  | pushFull (t : τ) (value : T)
  | pushThrow (t : τ) (kind : SendKind) (value : T)
  | popFront (t : τ) (kind : ReceiveKind) (value : T)
  | popEmpty (t : τ) (kind : ReceiveKind)
  | notifyOne (t : τ) (x : CondVar) (op : Op T) (out : Outcome T)
      (u : τ) (op' : Op T)
  | notifyNobody (t : τ) (x : CondVar) (op : Op T) (out : Outcome T)
  | notifyAll (t : τ) (x : CondVar)
  | unlock (t : τ) (op : Op T) (out : Outcome T)
  deriving DecidableEq, Repr

/-- When a step may be taken.  A `try_send` on a bounded channel tests
`can_send` only now; the other sends have done so in their wait. -/
def Enabled (c : Config) (s : State τ T) : Action τ T → Prop
  | .call t _ => s.pc t = .idle
  | .storeClosed t => s.pc t = .storeClosed
  | .lock t op => s.pc t = .lock op ∧ s.mutex = none
  | .testTrue t op e => s.pc t = .test op e ∧ waitPredicate c s op = true
  | .testFalse t op => s.pc t = .test op false ∧ waitPredicate c s op = false
  | .testExpired t op => s.pc t = .test op true ∧ waitPredicate c s op = false
  | .wait t op => s.pc t = .block op
  | .wake t op => s.pc t = .waiting op
  | .relock t op e =>
      (s.pc t = .notified op ∨ s.pc t = .woken op) ∧ s.mutex = none ∧
        (e = true → op.timed = true)
  | .loadClosed t k v => s.pc t = .checkClosed k v ∧ s.closed = true
  | .loadOpen t k v => s.pc t = .checkClosed k v ∧ s.closed = false
  | .pushBack t k v =>
      s.pc t = .push k v ∧ (k = .trySend → canSend c s = true) ∧
        s.buffer.length < c.dequeMaxSize
  | .pushFull t v => s.pc t = .push .trySend v ∧ canSend c s = false
  | .pushThrow t k v =>
      s.pc t = .push k v ∧ (k = .trySend → canSend c s = true) ∧
        c.dequeMaxSize ≤ s.buffer.length
  | .popFront t k v => s.pc t = .take k ∧ s.buffer.head? = some v
  | .popEmpty t k => s.pc t = .take k ∧ s.buffer = []
  | .notifyOne t x op out u op' =>
      s.pc t = .notifyOne x op out ∧ s.pc u = .waiting op' ∧
        op'.waitsOn x = true
  | .notifyNobody t x op out =>
      s.pc t = .notifyOne x op out ∧ ∀ u, (s.pc u).waitsOn x = false
  | .notifyAll t x => s.pc t = .notifyAll x
  | .unlock t op out => s.pc t = .unlock op out

variable [DecidableEq τ]

instance [Fintype τ] [DecidableEq T] (c : Config) (s : State τ T)
    (a : Action τ T) : Decidable (Enabled c s a) := by
  cases a <;> dsimp only [Enabled] <;> infer_instance

def State.goto (s : State τ T) (t : τ) (q : Pc T) : State τ T :=
  { s with pc := Function.update s.pc t q }

def next (c : Config) (s : State τ T) : Action τ T → State τ T
  | .call t op => s.goto t (afterCall op)
  | .storeClosed t => { s.goto t (.lock .close) with closed := true }
  | .lock t op => { s.goto t (afterLock c op) with mutex := some t }
  | .testTrue t op _ => s.goto t (afterWait op)
  | .testFalse t op => s.goto t (.block op)
  | .testExpired t op => s.goto t (.unlock op op.outcomeTimeout)
  | .wait t op => { s.goto t (.waiting op) with mutex := none }
  | .wake t op => s.goto t (.woken op)
  | .relock t op e => { s.goto t (.test op e) with mutex := some t }
  | .loadClosed t k v => s.goto t (.unlock (.send k v) k.outcomeClosed)
  | .loadOpen t k v => s.goto t (.push k v)
  | .pushBack t k v =>
      { s.goto t (.notifyOne .cv (.send k v) k.outcomeSent) with
        buffer := s.buffer ++ [v]
        accepted := s.accepted ++ [(t, v)] }
  | .pushFull t v => s.goto t (.unlock (.send .trySend v) (.flag false))
  | .pushThrow t k v =>
      s.goto t (.unlock (.send k v)
        (.threw "cannot create std::deque larger than max_size()"))
  | .popFront t k v =>
      { s.goto t (afterTake c k v) with
        buffer := s.buffer.tail
        received := s.received ++ [(t, v)] }
  | .popEmpty t k => s.goto t (.unlock (.receive k) k.outcomeEmpty)
  | .notifyOne t _ op out u op' =>
      (s.goto u (.notified op')).goto t (.unlock op out)
  | .notifyNobody t _ op out => s.goto t (.unlock op out)
  | .notifyAll t x =>
      { s with pc := fun u => (s.pc u).mark x }.goto t (afterNotifyAll x)
  | .unlock t op out =>
      { s.goto t .idle with
        mutex := none
        history := s.history ++ [(t, op, out)] }

def system (c : Config) (τ T : Type*) [DecidableEq τ] :
    TransitionSystem (State τ T) (Action τ T) where
  Initial s := s = initialState τ T
  Enabled := Enabled c
  next := next c

instance [Fintype τ] [DecidableEq T] (c : Config) (s : State τ T)
    (a : Action τ T) : Decidable ((system c τ T).Enabled s a) :=
  inferInstanceAs (Decidable (Enabled c s a))

end SyncChannel
end Ethreads
