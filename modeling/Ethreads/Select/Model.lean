import Ethreads.AsyncPrimitive.Ownership
import Ethreads.ReceiveAwaiter.Model

/-!
# A select among the other users of its channels

This module follows one `co_await` of `select_awaiter` of `include/select.hpp`
down to the waiter lists of its channels.  The awaiter is one of the receive-
side awaiters; here it is scheduled by whoever wins its `gate_`, which is a
thread that wakes the waiters of a list, or its own re-check.

Other threads send to, receive from, close and wait in the same channels.  The
nodes of their awaiters may have gates too, which timers and other lists fire.
All nodes and gates share one memory, so a list makes a step on the current
fields; the fields `next` and `fired` of a list itself have no meaning.  The
compare-exchange on a gate and the `schedule_coro_handle` after it are one
step.  The lists of senders hold no node of a select and are left out.
-/

namespace Ethreads
namespace Select

open ReceiveAwaiter (Channel Wait)

/-- The channels given to `select`, in the order of its loops, and the gates of
the nodes of the other awaiters. -/
structure Config (ι γ ν : Type*) where
  channels : List ι
  gate : ν → Option γ

/-- Where another thread stands: before or inside a function of the list of
receivers. -/
inductive Pc (ι : Type*)
  | idle
  | wakeOne (c : ι)
  | wakeAll (c : ι)
  | waking (c : ι)
  | adding (c : ι)
  deriving DecidableEq, Repr

/-- The channels, the wait, the lists of receivers, the memory of the nodes and
gates, and the other threads.  Node `inl i` is that of the select for its
channel at index `i`, and gate `none` is `gate_`.  In the lists the thread that
runs `suspend_impl` is `none`. -/
structure State (ι α γ ν τ : Type*) where
  channel : ι → Channel α
  wait : Wait α
  lists : ι → AsyncPrimitive.State (Option τ) (ℕ ⊕ ν) (Option γ)
  next : ℕ ⊕ ν → Option (ℕ ⊕ ν)
  fired : Option γ → Bool
  pc : τ → Pc ι

def initialState (ι γ ν τ : Type*) {α : Type*} (channel : ι → Channel α) :
    State ι α γ ν τ where
  channel := channel
  wait := .initial
  lists := fun _ => AsyncPrimitive.initialState _ _ _
  next := fun _ => none
  fired := fun _ => false
  pc := fun _ => .idle

variable {ι α γ ν τ : Type*}

def Config.await (cfg : Config ι γ ν) : ReceiveAwaiter.Await ι :=
  .select cfg.channels

def Config.nodeGate (cfg : Config ι γ ν) : ℕ ⊕ ν → Option (Option γ)
  | .inl _ => some none
  | .inr n => (cfg.gate n).map some

def State.view (s : State ι α γ ν τ) (c : ι) :
    AsyncPrimitive.State (Option τ) (ℕ ⊕ ν) (Option γ) :=
  { s.lists c with next := s.next, fired := s.fired }

/-- The function of the list in which a thread is. -/
def Pc.inside : Pc ι → Option ι
  | waking c | adding c => some c
  | _ => none

/-- A step of the awaiter that involves neither a list nor the gate.  A select
has no timer. -/
def isInner : ReceiveAwaiter.Step ι α → Bool
  | .addTimer | .addNode _ _ | .exchange | .fire => false
  | _ => true

/-! ## Atomic actions -/

inductive Action (ι α γ ν τ : Type*)
  | step (b : ReceiveAwaiter.Step ι α)
  | callAdd (i : ℕ) (c : ι)
  | exchangeWon
  | exchangeLost
  | send (t : τ) (c : ι) (v : α)
  | trySend (t : τ) (c : ι) (v : α)
  | receive (t : τ) (c : ι)
  | close (t : τ) (c : ι)
  | callWakeOne (t : τ) (c : ι)
  | callWakeAll (t : τ) (c : ι)
  | add (t : τ) (c : ι) (n : ν)
  | list (c : ι) (a : AsyncPrimitive.Action (Option τ) (ℕ ⊕ ν) (Option γ))
  | returned (t : τ) (c : ι)
  | fire (g : γ)
  | resume (c : ι) (n : ν)
  deriving DecidableEq, Repr

def State.ListEnabled (cfg : Config ι γ ν) (s : State ι α γ ν τ) (c : ι)
    (a : AsyncPrimitive.Action (Option τ) (ℕ ⊕ ν) (Option γ)) : Prop :=
  AsyncPrimitive.Enabled cfg.nodeGate (s.view c) a

def Enabled (cfg : Config ι γ ν) (s : State ι α γ ν τ) :
    Action ι α γ ν τ → Prop
  | .step b => isInner b = true ∧ s.wait.Enabled cfg.await s.channel b
  | .callAdd i c =>
      s.wait.suspend = .addNode i ∧ cfg.channels[i]? = some c ∧
        s.ListEnabled cfg c (.callAdd none (.inl i))
  | .exchangeWon => s.wait.suspend = .exchange ∧ s.fired none = false
  | .exchangeLost => s.wait.suspend = .exchange ∧ s.fired none = true
  | .send t c _ => s.pc t = .idle ∧ (s.channel c).closed = false
  | .trySend t c _ => s.pc t = .idle ∧ (s.channel c).closed = false
  | .receive t c => s.pc t = .idle ∧ (s.channel c).buffer ≠ []
  | .close t _ => s.pc t = .idle
  | .callWakeOne t c =>
      s.pc t = .wakeOne c ∧ s.ListEnabled cfg c (.callWakeOne (some t))
  | .callWakeAll t c =>
      s.pc t = .wakeAll c ∧ s.ListEnabled cfg c (.callWakeAll (some t))
  | .add t c n =>
      s.pc t = .idle ∧ s.ListEnabled cfg c (.callAdd (some t) (.inr n))
  | .list c a => a.runner.isSome = true ∧ s.ListEnabled cfg c a
  | .returned t c =>
      (s.pc t).inside = some c ∧ (s.lists c).pc (some t) = .idle
  | .fire g => s.fired (some g) = false
  | .resume c n => s.ListEnabled cfg c (.resume (.inr n))

section Effects

variable [DecidableEq ι] [DecidableEq γ] [DecidableEq ν] [DecidableEq τ]

def State.goto (s : State ι α γ ν τ) (t : τ) (q : Pc ι) :
    State ι α γ ν τ :=
  { s with pc := Function.update s.pc t q }

def State.channelTo (s : State ι α γ ν τ) (c : ι) (ch : Channel α) :
    State ι α γ ν τ :=
  { s with channel := Function.update s.channel c ch }

def State.listNext (cfg : Config ι γ ν) (s : State ι α γ ν τ) (c : ι)
    (a : AsyncPrimitive.Action (Option τ) (ℕ ⊕ ν) (Option γ)) :
    State ι α γ ν τ :=
  let l := AsyncPrimitive.next cfg.nodeGate (s.view c) a
  { s with
    lists := Function.update s.lists c l
    next := l.next
    fired := l.fired }

/-- What the step of a list means for the select: its node has been pushed, or
a thread with its node in the hands has won the gate and scheduled it. -/
def State.waitAfter (cfg : Config ι γ ν) (s : State ι α γ ν τ) (c : ι) :
    AsyncPrimitive.Action (Option τ) (ℕ ⊕ ν) (Option γ) → Wait α
  | .addCas none (.inl i) _ => s.wait.next cfg.await (.addNode i c)
  | .schedule _ (.inl _) _ => s.wait.next cfg.await .fire
  | _ => s.wait

/-- The gates after a step of the awaiter: `suspend_impl` begins with a store
to `gate_`. -/
def firedAfter (fired : Option γ → Bool) :
    ReceiveAwaiter.Step ι α → Option γ → Bool
  | .readyFalse _ => Function.update fired none false
  | _ => fired

def next (cfg : Config ι γ ν) (s : State ι α γ ν τ) :
    Action ι α γ ν τ → State ι α γ ν τ
  | .step b =>
      { s with
        channel := b.channelAfter s.channel
        wait := s.wait.next cfg.await b
        fired := firedAfter s.fired b }
  | .callAdd i c => s.listNext cfg c (.callAdd none (.inl i))
  | .exchangeWon =>
      { s with
        wait := s.wait.next cfg.await .exchange
        fired := Function.update s.fired none true }
  | .exchangeLost => { s with wait := { s.wait with suspend := .finished } }
  | .send t c v =>
      (s.channelTo c
        { s.channel c with buffer := (s.channel c).buffer ++ [v] }).goto t
          (.wakeOne c)
  | .trySend _ c v =>
      s.channelTo c
        { s.channel c with buffer := (s.channel c).buffer ++ [v] }
  | .receive _ c => s.channelTo c (s.channel c).removeHead
  | .close t c =>
      (s.channelTo c { s.channel c with closed := true }).goto t (.wakeAll c)
  | .callWakeOne t c =>
      (s.listNext cfg c (.callWakeOne (some t))).goto t (.waking c)
  | .callWakeAll t c =>
      (s.listNext cfg c (.callWakeAll (some t))).goto t (.waking c)
  | .add t c n =>
      (s.listNext cfg c (.callAdd (some t) (.inr n))).goto t (.adding c)
  | .list c a =>
      { s.listNext cfg c a with wait := s.waitAfter cfg c a }
  | .returned t _ => s.goto t .idle
  | .fire g => { s with fired := Function.update s.fired (some g) true }
  | .resume c n => s.listNext cfg c (.resume (.inr n))

/-- The select and the other threads as a transition system.  The channels
start with any buffer, closed or not. -/
def system (cfg : Config ι γ ν) (α τ : Type*) [DecidableEq τ] :
    TransitionSystem (State ι α γ ν τ) (Action ι α γ ν τ) where
  Initial s := ∃ channel, s = initialState ι γ ν τ channel
  Enabled := Enabled cfg
  next := next cfg

end Effects

/-! ## Evaluating runs -/

section Decide

variable [DecidableEq ι] [DecidableEq α] [DecidableEq γ] [DecidableEq ν]
  [DecidableEq τ]

instance (cfg : Config ι γ ν) (s : State ι α γ ν τ) (c : ι)
    (a : AsyncPrimitive.Action (Option τ) (ℕ ⊕ ν) (Option γ)) :
    Decidable (s.ListEnabled cfg c a) :=
  inferInstanceAs (Decidable (AsyncPrimitive.Enabled _ (s.view c) a))

instance (cfg : Config ι γ ν) (s : State ι α γ ν τ)
    (a : Action ι α γ ν τ) : Decidable ((system cfg α τ).Enabled s a) := by
  cases a <;> dsimp only [system, Enabled] <;> infer_instance

end Decide

end Select
end Ethreads
