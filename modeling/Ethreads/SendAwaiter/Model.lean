import Ethreads.ReceiveAwaiter.Model
import Ethreads.Support.Family
import Ethreads.SyncChannel.Model

/-!
# The timed send awaiter

This module models `timed_channel_send_awaiter` of
`shared_state/timed_awaiter.hpp` over the `try_send` of `sync_channel`.  Any
number of waits share one channel with other senders and receivers.

Each wait has two agents.  The first runs `ready_impl` and `suspend_impl`.  The
second runs `resume_impl`; it may start once `gate_` is won, which the timer or
a wake-up of the channel does after the timer is registered, or the first agent
after its re-check.  They share `value_` and `sent_`.

`try_send` takes its argument by value: the caller moves from `value_` first,
whether or not the call succeeds.  The move, the call and the store of its
result in `sent_` are steps of their own, but for those of `ready_impl`, whose
awaiter is private.  The memory of a wait is not used again after it, and a
buffer never reaches the largest size of `std::deque`.
-/

namespace Ethreads
namespace SendAwaiter

open ReceiveAwaiter (AsyncOpStatus Channel)

/-- A channel type, and what moving from a value of type `T` leaves behind. -/
structure Config (T : Type*) where
  policy : SyncChannel.BoundednessPolicy
  movedFrom : T → T

/-- Where the agent of `ready_impl` and `suspend_impl` stands: at `send` with
the argument of `try_send`, at `store` with its result. -/
inductive SuspendPc (T : Type*)
  | idle
  | ready
  | trySend
  | deadline
  | addTimer
  | addNode
  | recheck
  | send (value : T)
  | store (result : Bool)
  | testSent
  | testClosed
  | exchange
  | finished
  deriving DecidableEq, Repr

inductive ResumePc (T : Type*)
  | waiting
  | begin
  | testClosed
  | recheck
  | send (value : T)
  | store (result : Bool)
  | testSent
  | done
  deriving DecidableEq, Repr

/-- A wait.  `appended` and `returned` are not part of the program: the values
appended to the buffer on its behalf, and what `resume_impl` has returned. -/
structure Wait (T : Type*) where
  suspend : SuspendPc T
  resume : ResumePc T
  registered : Bool
  gate : Bool
  value : T
  sent : Bool
  appended : List T
  returned : Option AsyncOpStatus
  deriving DecidableEq, Repr

/-- Steps of the agents of one wait.  The prefix `re` marks those of
`suspend_impl` that follow the registration, and `last` those of
`resume_impl`. -/
inductive Step (T : Type*)
  | coAwait
  | readyClosed
  | readyOpen
  | trySend (result : Bool)
  | deadlinePassed
  | deadlineAhead
  | addTimer
  | addNode
  | reMove
  | reSend (value : T) (result : Bool)
  | reStore (result : Bool)
  | reSent
  | reNotSent
  | reClosed (closed : Bool)
  | exchange
  | fire
  | resume
  | hasSent
  | hasNotSent
  | seesClosed
  | seesOpen
  | lastMove
  | lastSend (value : T) (result : Bool)
  | lastStore (result : Bool)
  | lastTest
  deriving DecidableEq, Repr

/-- What others do with the channel. -/
inductive ChannelOp (T : Type*)
  | send (value : T)
  | receive
  | close
  deriving DecidableEq, Repr

variable {ω T : Type*}

def canSend (c : Config T) (ch : Channel T) : Bool :=
  match c.policy with
  | .bounded n => ch.buffer.length < n
  | .unbounded => true

/-- `try_send`, none if it fails. -/
def trySend (c : Config T) (ch : Channel T) (value : T) :
    Option (Channel T) :=
  if ch.closed then none
  else if canSend c ch then some { ch with buffer := ch.buffer ++ [value] }
  else none

/-- `try_receive`, none if it fails. -/
def tryReceive (ch : Channel T) : Option (Channel T) :=
  if ch.buffer.isEmpty then none
  else some { ch with buffer := ch.buffer.tail }

/-- An operation of others, none if it has to wait or throws. -/
def ChannelOp.apply (c : Config T) (ch : Channel T) :
    ChannelOp T → Option (Channel T)
  | send v => trySend c ch v
  | receive => tryReceive ch
  | close => some { ch with closed := true }

namespace Wait

def initial (value : T) : Wait T where
  suspend := .idle
  resume := .waiting
  registered := false
  gate := false
  value := value
  sent := false
  appended := []
  returned := none

def Enabled (c : Config T) (ch : Channel T) (x : Wait T) : Step T → Prop
  | .coAwait => x.suspend = .idle
  | .readyClosed => x.suspend = .ready ∧ ch.closed = true
  | .readyOpen => x.suspend = .ready ∧ ch.closed = false
  | .trySend ok =>
      x.suspend = .trySend ∧ ok = (SendAwaiter.trySend c ch x.value).isSome
  | .deadlinePassed => x.suspend = .deadline
  | .deadlineAhead => x.suspend = .deadline
  | .addTimer => x.suspend = .addTimer
  | .addNode => x.suspend = .addNode
  | .reMove => x.suspend = .recheck
  | .reSend v ok =>
      x.suspend = .send v ∧ ok = (SendAwaiter.trySend c ch v).isSome
  | .reStore ok => x.suspend = .store ok
  | .reSent => x.suspend = .testSent ∧ x.sent = true
  | .reNotSent => x.suspend = .testSent ∧ x.sent = false
  | .reClosed closed => x.suspend = .testClosed ∧ closed = ch.closed
  | .exchange => x.suspend = .exchange
  | .fire => x.registered = true ∧ x.gate = false
  | .resume => x.resume = .waiting ∧ x.gate = true
  | .hasSent => x.resume = .begin ∧ x.sent = true
  | .hasNotSent => x.resume = .begin ∧ x.sent = false
  | .seesClosed => x.resume = .testClosed ∧ ch.closed = true
  | .seesOpen => x.resume = .testClosed ∧ ch.closed = false
  | .lastMove => x.resume = .recheck
  | .lastSend v ok =>
      x.resume = .send v ∧ ok = (SendAwaiter.trySend c ch v).isSome
  | .lastStore ok => x.resume = .store ok
  | .lastTest => x.resume = .testSent

instance [DecidableEq T] (c : Config T) (ch : Channel T) (x : Wait T)
    (b : Step T) : Decidable (x.Enabled c ch b) := by
  cases b <;> dsimp only [Enabled] <;> infer_instance

/-- What a `try_send` has appended. -/
def added (value : T) (result : Bool) : List T :=
  if result then [value] else []

def next (c : Config T) (x : Wait T) : Step T → Wait T
  | .coAwait => { x with suspend := .ready }
  | .readyClosed => { x with suspend := .finished, resume := .begin }
  | .readyOpen => { x with suspend := .trySend }
  | .trySend true =>
      { x with
        suspend := .finished
        resume := .begin
        value := c.movedFrom x.value
        sent := true
        appended := x.appended ++ [x.value] }
  | .trySend false =>
      { x with
        suspend := .deadline
        value := c.movedFrom x.value
        sent := false }
  | .deadlinePassed => { x with suspend := .finished, resume := .begin }
  | .deadlineAhead => { x with suspend := .addTimer, gate := false }
  | .addTimer => { x with suspend := .addNode, registered := true }
  | .addNode => { x with suspend := .recheck }
  | .reMove =>
      { x with suspend := .send x.value, value := c.movedFrom x.value }
  | .reSend v ok =>
      { x with suspend := .store ok, appended := x.appended ++ added v ok }
  | .reStore ok => { x with suspend := .testSent, sent := ok }
  | .reSent => { x with suspend := .exchange }
  | .reNotSent => { x with suspend := .testClosed }
  | .reClosed closed =>
      { x with suspend := if closed then .exchange else .finished }
  | .exchange => { x with suspend := .finished, gate := true }
  | .fire => { x with gate := true }
  | .resume => { x with resume := .begin }
  | .hasSent =>
      { x with resume := .done, returned := some .completed }
  | .hasNotSent => { x with resume := .testClosed }
  | .seesClosed => { x with resume := .done, returned := some .closed }
  | .seesOpen => { x with resume := .recheck }
  | .lastMove =>
      { x with resume := .send x.value, value := c.movedFrom x.value }
  | .lastSend v ok =>
      { x with resume := .store ok, appended := x.appended ++ added v ok }
  | .lastStore ok => { x with resume := .testSent, sent := ok }
  | .lastTest =>
      { x with
        resume := .done
        returned := some (if x.sent then .completed else .timedOut) }

end Wait

def Step.channelAfter (c : Config T) (ch : Channel T) (x : Wait T) :
    Step T → Channel T
  | trySend _ => (SendAwaiter.trySend c ch x.value).getD ch
  | reSend v _ | lastSend v _ => (SendAwaiter.trySend c ch v).getD ch
  | _ => ch

/-- Any number of timed sends on one channel, each of its own value. -/
def waits (c : Config T) (value : ω → T) :
    Family ω (Channel T) (Wait T) (ChannelOp T) (Step T) where
  initial w := .initial (value w)
  OtherEnabled ch e := (e.apply c ch).isSome
  otherNext ch e := (e.apply c ch).getD ch
  PartEnabled _ ch x b := x.Enabled c ch b
  sharedNext _ ch x b := b.channelAfter c ch x
  partNext _ _ x b := x.next c b

instance (c : Config T) (value : ω → T) (ch : Channel T) (e : ChannelOp T) :
    Decidable ((waits c value).OtherEnabled ch e) :=
  inferInstanceAs (Decidable ((e.apply c ch).isSome = true))

instance [DecidableEq T] (c : Config T) (value : ω → T) (w : ω)
    (ch : Channel T) (x : Wait T) (b : Step T) :
    Decidable ((waits c value).PartEnabled w ch x b) :=
  inferInstanceAs (Decidable (x.Enabled c ch b))

/-! ## What is appended and what is returned -/

/-- A wait for sending `v` that returns `completed` has appended exactly one
`v`, and one that returns another status has appended nothing. -/
def Wait.Truthful (v : T) (x : Wait T) : Prop :=
  ∀ status, x.returned = some status →
    x.appended = added v (status = .completed)

/-- `resume_impl` has not tested `sent_` yet. -/
def ResumePc.isEarly : ResumePc T → Bool
  | waiting => true
  | begin => true
  | _ => false

/-- Every `try_send` that succeeds was given `v`; the re-check's succeeds only
before `resume_impl` has tested `sent_`, which it does not until that success
is stored; and the re-check does not store a failure over a success that
`resume_impl` is about to report. -/
def Wait.KeepsOut (v : T) (x : Wait T) : Step T → Prop
  | .reSend u ok => ok = true → u = v ∧ x.resume.isEarly = true
  | .lastSend u ok => ok = true → u = v
  | .hasNotSent => x.suspend ≠ .store true
  | .reStore ok => ok = false → x.resume = .testSent → x.sent = false
  | _ => True

instance [DecidableEq T] (v : T) (x : Wait T) (b : Step T) :
    Decidable (x.KeepsOut v b) := by
  cases b <;> dsimp only [Wait.KeepsOut] <;> infer_instance

end SendAwaiter
end Ethreads
