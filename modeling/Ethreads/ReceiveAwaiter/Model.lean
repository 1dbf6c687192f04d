import Ethreads.Support.TransitionSystem

/-!
# Receive-side awaiters

This module models `channel_receive_awaiter` of `shared_state/channel.hpp`,
`timed_channel_receive_awaiter` of `shared_state/timed_awaiter.hpp` and
`select_awaiter` of `select.hpp`.  Any number of waits share any number of
channels with other producers and consumers.

Each wait has two agents.  The first runs `ready_impl` and `suspend_impl`.  The
second runs `resume_impl`; it may start once the wait has been scheduled, which
the timer, a channel or the first agent does once a node or a timer is
registered.  They share `result_` and `ready_index_`.  Before the registration
an awaiter is private, so that an iteration of `ready_impl` is one step.  The
memory of a wait is not used again after it.

A call of `try_receive` is one step, and the store of its value in `result_`
another.  A bounded channel only delays `send`, so bounds are left out.
-/

namespace Ethreads
namespace ReceiveAwaiter

structure Channel (α : Type*) where
  buffer : List α
  closed : Bool
  deriving DecidableEq, Repr

/-- The awaiter of a wait: `receive_async`, `receive_async_for` or `select`. -/
inductive Await (ι : Type*)
  | receive (c : ι)
  | receiveFor (c : ι)
  | select (channels : List ι)
  deriving DecidableEq, Repr

inductive AsyncOpStatus
  | completed
  | timedOut
  | closed
  deriving DecidableEq, Repr

/-- What a `co_await` returns: `std::optional<T>`, `timed_receive_result<T>` or
`select_result<T>`, or the exception of `select`.  A `select_result` without a
value stands for one moved out of an empty optional. -/
inductive Outcome (α : Type*)
  | received (value : Option α)
  | timedReceived (status : AsyncOpStatus) (value : Option α)
  | selected (index : ℕ) (value : Option α)
  | noChannelHasData
  deriving DecidableEq, Repr

/-- Where the agent of `ready_impl` and `suspend_impl` stands: before or in one
of their loops at index `i`, or with the value that `try_receive` returned. -/
inductive SuspendPc (α : Type*)
  | idle
  | ready (i : ℕ)
  | addTimer
  | addNode (i : ℕ)
  | recheck (i : ℕ)
  | store (i : ℕ) (temp : Option α)
  | test (i : ℕ)
  | index (i : ℕ)
  | exchange
  | finished
  deriving DecidableEq, Repr

/-- Where the agent of `resume_impl` stands.  At `check` and `moveOut` an index
is that of its own loop; without one it found `result_` set when it began. -/
inductive ResumePc (α : Type*)
  | waiting
  | begin
  | receive (i : ℕ)
  | store (i : ℕ) (temp : Option α)
  | check (index : Option ℕ)
  | moveOut (index : Option ℕ)
  | done
  deriving DecidableEq, Repr

/-- A wait.  The single-channel awaiters have no `ready_index_`; for them the
field tells at which index `result_` was received, and nothing reads it.
`removed` and `returned` are not part of the program: the values taken from a
channel, with the index of the channel, and what `resume_impl` has returned. -/
structure Wait (α : Type*) where
  suspend : SuspendPc α
  resume : ResumePc α
  registered : Bool
  scheduled : Bool
  result : Option α
  readyIndex : ℕ
  removed : List (ℕ × α)
  returned : Option (Outcome α)
  deriving DecidableEq, Repr

structure State (ω ι α : Type*) where
  channel : ι → Channel α
  wait : ω → Wait α

inductive Step (ι α : Type*)
  | coAwait
  | readyReceive (i : ℕ) (c : ι) (temp : Option α)
  | readyTrue (i : ℕ)
  | readyFalse (i : ℕ)
  | addTimer
  | addNode (i : ℕ) (c : ι)
  | added (i : ℕ)
  | recheck (i : ℕ) (c : ι) (temp : Option α)
  | storeRecheck (i : ℕ) (temp : Option α)
  | found (i : ℕ)
  | notFound (i : ℕ)
  | storeIndex (i : ℕ)
  | rechecked (i : ℕ) (closed : Bool)
  | exchange
  | fire
  | resume
  | hasResult
  | hasNoResult
  | receive (i : ℕ) (c : ι) (temp : Option α)
  | storeReceived (i : ℕ) (temp : Option α)
  | checkFound (index : Option ℕ)
  | checkEmpty (index : Option ℕ)
  | moveOut (index : Option ℕ)
  | giveUp (i : ℕ) (closed : Bool)
  deriving DecidableEq, Repr

inductive Action (ω ι α : Type*)
  | send (c : ι) (v : α)
  | receive (c : ι)
  | close (c : ι)
  | step (w : ω) (b : Step ι α)
  deriving DecidableEq, Repr

variable {ω ι α : Type*}

namespace Await

/-- The channels of an awaiter, in the order of its loops. -/
def channels : Await ι → List ι
  | receive c => [c]
  | receiveFor c => [c]
  | select cs => cs

/-- `ready_impl` may return true without a value: the channel is closed, or
the deadline has passed. -/
def MayBeReady (ch : ι → Channel α) : Await ι → Prop
  | receive c => (ch c).closed = true
  | receiveFor _ => True
  | select _ => False

/-- `ready_impl` may return false when it has no value. -/
def MaySuspend (ch : ι → Channel α) : Await ι → Prop
  | receive c => (ch c).closed = false
  | receiveFor c => (ch c).closed = false
  | select _ => True

/-- What `is_closed` gives after a `try_receive` that found nothing.  Only the
timed awaiter calls it. -/
def seesClosed (ch : ι → Channel α) : Await ι → Bool
  | receive _ => false
  | receiveFor c => (ch c).closed
  | select _ => false

/-- The first registration of `suspend_impl`. -/
def firstRegistration : Await ι → SuspendPc α
  | receive _ => .addNode 0
  | receiveFor _ => .addTimer
  | select _ => .addNode 0

/-- Where `suspend_impl` goes on once its nodes are registered. -/
def afterRegistration : Await ι → SuspendPc α
  | receive _ => .finished
  | receiveFor _ => .recheck 0
  | select _ => .recheck 0

/-- Where `resume_impl` goes on when it begins with a value in `result_`. -/
def afterBegin : Await ι → ResumePc α
  | receive _ => .moveOut none
  | receiveFor _ => .check none
  | select _ => .moveOut none

/-- Where `resume_impl` goes on when it has stored what it received. -/
def afterStore (i : ℕ) : Await ι → ResumePc α
  | receive _ => .moveOut (some i)
  | receiveFor _ => .check (some i)
  | select _ => .check (some i)

/-- The outcome of a `resume_impl` that moves out `result_`. -/
def outcome (index : ℕ) (result : Option α) : Await ι → Outcome α
  | receive _ => .received result
  | receiveFor _ => .timedReceived .completed result
  | select _ => .selected index result

/-- The outcome of a `resume_impl` that has received nothing. -/
def emptyOutcome (closed : Bool) : Await ι → Outcome α
  | receive _ => .received none
  | receiveFor _ =>
      .timedReceived (if closed then .closed else .timedOut) none
  | select _ => .noChannelHasData

end Await

/-- What a `try_receive` at index `i` has taken from its channel. -/
def taken (i : ℕ) (temp : Option α) : List (ℕ × α) :=
  (temp.map fun v => (i, v)).toList

namespace Wait

def initial : Wait α where
  suspend := .idle
  resume := .waiting
  registered := false
  scheduled := false
  result := none
  readyIndex := 0
  removed := []
  returned := none

def Enabled (m : Await ι) (ch : ι → Channel α) (x : Wait α) :
    Step ι α → Prop
  | .coAwait => x.suspend = .idle
  | .readyReceive i c temp =>
      x.suspend = .ready i ∧ m.channels[i]? = some c ∧
        temp = (ch c).buffer.head?
  | .readyTrue i =>
      x.suspend = .ready i ∧ m.channels[i]? = none ∧ m.MayBeReady ch
  | .readyFalse i =>
      x.suspend = .ready i ∧ m.channels[i]? = none ∧ m.MaySuspend ch
  | .addTimer => x.suspend = .addTimer
  | .addNode i c => x.suspend = .addNode i ∧ m.channels[i]? = some c
  | .added i => x.suspend = .addNode i ∧ m.channels[i]? = none
  | .recheck i c temp =>
      x.suspend = .recheck i ∧ m.channels[i]? = some c ∧
        temp = (ch c).buffer.head?
  | .storeRecheck i temp => x.suspend = .store i temp
  | .found i => x.suspend = .test i ∧ x.result ≠ none
  | .notFound i => x.suspend = .test i ∧ x.result = none
  | .storeIndex i => x.suspend = .index i
  | .rechecked i closed =>
      x.suspend = .recheck i ∧ m.channels[i]? = none ∧
        closed = m.seesClosed ch
  | .exchange => x.suspend = .exchange
  | .fire => x.registered = true ∧ x.scheduled = false
  | .resume => x.resume = .waiting ∧ x.scheduled = true
  | .hasResult => x.resume = .begin ∧ x.result ≠ none
  | .hasNoResult => x.resume = .begin ∧ x.result = none
  | .receive i c temp =>
      x.resume = .receive i ∧ m.channels[i]? = some c ∧
        temp = (ch c).buffer.head?
  | .storeReceived i temp => x.resume = .store i temp
  | .checkFound index => x.resume = .check index ∧ x.result ≠ none
  | .checkEmpty index => x.resume = .check index ∧ x.result = none
  | .moveOut index => x.resume = .moveOut index
  | .giveUp i closed =>
      x.resume = .receive i ∧ m.channels[i]? = none ∧
        closed = m.seesClosed ch

def next (m : Await ι) (x : Wait α) : Step ι α → Wait α
  | .coAwait => { x with suspend := .ready 0 }
  | .readyReceive i _ (some v) =>
      { x with
        suspend := .finished
        resume := .begin
        result := some v
        readyIndex := i
        removed := x.removed ++ taken i (some v) }
  | .readyReceive i _ none =>
      { x with suspend := .ready (i + 1), result := none }
  | .readyTrue _ => { x with suspend := .finished, resume := .begin }
  | .readyFalse _ =>
      { x with suspend := m.firstRegistration, scheduled := false }
  | .addTimer => { x with suspend := .addNode 0, registered := true }
  | .addNode i _ => { x with suspend := .addNode (i + 1), registered := true }
  | .added _ => { x with suspend := m.afterRegistration }
  | .recheck i _ temp =>
      { x with
        suspend := .store i temp
        removed := x.removed ++ taken i temp }
  | .storeRecheck i temp => { x with suspend := .test i, result := temp }
  | .found i =>
      match m with
      | .select _ => { x with suspend := .index i }
      | _ => { x with suspend := .exchange, readyIndex := i }
  | .notFound i => { x with suspend := .recheck (i + 1) }
  | .storeIndex i => { x with suspend := .exchange, readyIndex := i }
  | .rechecked _ closed =>
      { x with suspend := if closed then .exchange else .finished }
  | .exchange => { x with suspend := .finished, scheduled := true }
  | .fire => { x with scheduled := true }
  | .resume => { x with resume := .begin }
  | .hasResult => { x with resume := m.afterBegin }
  | .hasNoResult => { x with resume := .receive 0 }
  | .receive i _ temp =>
      { x with
        resume := .store i temp
        removed := x.removed ++ taken i temp }
  | .storeReceived i temp =>
      { x with resume := m.afterStore i, result := temp }
  | .checkFound index => { x with resume := .moveOut index }
  | .checkEmpty index => { x with resume := .receive (index.elim 1 (· + 1)) }
  | .moveOut index =>
      { x with
        resume := .done
        returned := some (m.outcome (index.getD x.readyIndex) x.result) }
  | .giveUp _ closed =>
      { x with resume := .done, returned := some (m.emptyOutcome closed) }

end Wait

variable [DecidableEq ω] [DecidableEq ι]

def Channel.removeHead (ch : Channel α) : Channel α :=
  { ch with buffer := ch.buffer.tail }

def Step.channelAfter (ch : ι → Channel α) : Step ι α → ι → Channel α
  | readyReceive _ c _ => Function.update ch c (ch c).removeHead
  | recheck _ c _ => Function.update ch c (ch c).removeHead
  | receive _ c _ => Function.update ch c (ch c).removeHead
  | _ => ch

/-- When an action may be taken. -/
def Enabled (await : ω → Await ι) (s : State ω ι α) : Action ω ι α → Prop
  | .send c _ => (s.channel c).closed = false
  | .receive c => (s.channel c).buffer ≠ []
  | .close _ => True
  | .step w b => (s.wait w).Enabled (await w) s.channel b

def next (await : ω → Await ι) (s : State ω ι α) :
    Action ω ι α → State ω ι α
  | .send c v =>
      { s with
        channel := Function.update s.channel c
          { s.channel c with buffer := (s.channel c).buffer ++ [v] } }
  | .receive c =>
      { s with
        channel := Function.update s.channel c (s.channel c).removeHead }
  | .close c =>
      { s with
        channel := Function.update s.channel c
          { s.channel c with closed := true } }
  | .step w b =>
      { channel := b.channelAfter s.channel
        wait := Function.update s.wait w ((s.wait w).next (await w) b) }

/-- The waits and the channels as a transition system.  The channels start
with any buffer. -/
def system (await : ω → Await ι) :
    TransitionSystem (State ω ι α) (Action ω ι α) where
  Initial s := ∃ ch, s = { channel := ch, wait := fun _ => .initial }
  Enabled := Enabled await
  next := next await

instance (ch : ι → Channel α) (m : Await ι) : Decidable (m.MayBeReady ch) := by
  cases m <;> dsimp only [Await.MayBeReady] <;> infer_instance

instance (ch : ι → Channel α) (m : Await ι) : Decidable (m.MaySuspend ch) := by
  cases m <;> dsimp only [Await.MaySuspend] <;> infer_instance

instance [DecidableEq α] (m : Await ι) (ch : ι → Channel α) (x : Wait α)
    (b : Step ι α) : Decidable (x.Enabled m ch b) := by
  cases b <;> dsimp only [Wait.Enabled] <;> infer_instance

instance [DecidableEq α] (await : ω → Await ι) (s : State ω ι α)
    (a : Action ω ι α) : Decidable ((system await).Enabled s a) := by
  cases a <;> dsimp only [system, Enabled] <;> infer_instance

/-! ## What is removed and what is returned -/

/-- The `co_await` returned exactly the values removed; `select` also the
index of their channel. -/
def Outcome.Returns (removed : List (ℕ × α)) : Outcome α → Prop
  | received value => removed.map Prod.snd = value.toList
  | timedReceived _ value => removed.map Prod.snd = value.toList
  | selected i value => removed = taken i value
  | noChannelHasData => removed = []

/-- A wait removes at most one value, and returns what it has removed. -/
def Wait.ReturnsRemoved (x : Wait α) : Prop :=
  x.removed.length ≤ 1 ∧ ∀ out, x.returned = some out → out.Returns x.removed

/-- No wait loses a value: it returns what it has removed, and until then one
of its agents can go on. -/
def State.LosesNoValue (await : ω → Await ι) (s : State ω ι α) : Prop :=
  ∀ w, (s.wait w).ReturnsRemoved ∧
    ((s.wait w).removed ≠ [] → (s.wait w).returned = none →
      ∃ b, Enabled await s (.step w b))

/-- The value that `suspend_impl` has received and not stored yet. -/
def SuspendPc.temp : SuspendPc α → Option α
  | store _ temp => temp
  | _ => none

/-- The index that `suspend_impl` has still to store in `ready_index_`, if
there is a value in `result_`. -/
def SuspendPc.pending : SuspendPc α → Option ℕ
  | test i => some i
  | index i => some i
  | _ => none

/-- `resume_impl` has not tested `result_` yet. -/
def ResumePc.isEarly : ResumePc α → Bool
  | waiting => true
  | begin => true
  | _ => false

/-- `resume_impl` is about to test or to move out `result_`, after its first
test. -/
def ResumePc.readsResult : ResumePc α → Bool
  | check _ => true
  | moveOut _ => true
  | _ => false

/-- The re-check of `suspend_impl` does not get in the way of `resume_impl`: it
takes a value only before `resume_impl` has tested `result_`, and
`resume_impl` does not test it until that value is stored; it does not clear
`result_` while `resume_impl` is about to return it; and `select` does not
return before `ready_index_` belongs to `result_`. -/
def Wait.KeepsOut (m : Await ι) (x : Wait α) : Step ι α → Prop
  | .recheck _ _ temp => temp ≠ none → x.resume.isEarly = true
  | .hasNoResult => x.suspend.temp = none
  | .storeRecheck _ temp =>
      temp = none → x.resume.readsResult = true → x.result = none
  | .moveOut none =>
      match m with
      | .select _ => ∀ i ∈ x.suspend.pending, x.readyIndex = i
      | _ => True
  | _ => True

/-- The step keeps `suspend_impl` out of the way of `resume_impl`. -/
def KeepsOut (await : ω → Await ι) (s : State ω ι α) :
    Action ω ι α → Prop
  | .step w b => (s.wait w).KeepsOut (await w) b
  | _ => True

instance [DecidableEq α] (m : Await ι) (x : Wait α) (b : Step ι α) :
    Decidable (x.KeepsOut m b) := by
  unfold Wait.KeepsOut
  split
  · infer_instance
  · infer_instance
  · infer_instance
  · split <;> infer_instance
  · infer_instance

instance [DecidableEq α] (await : ω → Await ι) (s : State ω ι α)
    (a : Action ω ι α) : Decidable (KeepsOut await s a) := by
  cases a <;> dsimp only [KeepsOut] <;> infer_instance

end ReceiveAwaiter
end Ethreads
