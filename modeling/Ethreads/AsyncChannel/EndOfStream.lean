import Ethreads.AsyncChannel.Woken

/-!
# What a `nullopt` of `receive_async` means

A `receive_async` that finds the channel closed before it suspends tries once
more and reports the end of the stream rightly.  One that is woken by a send
tries only later, when another receiver may have taken the value; it then
returns `nullopt` although the channel is open.  In runs that leave to the
woken receivers what they were woken for, this does not happen.
-/

namespace Ethreads
namespace AsyncChannel

variable {τ T : Type*}

/-- The channel is closed, its buffer is empty and every accepted value has
been received. -/
def EndOfStream (s : SyncChannel.State τ T) : Prop :=
  s.closed = true ∧ s.buffer = [] ∧
    SyncChannel.values s.accepted = SyncChannel.values s.received

/-- Every `co_await receive_async` that returns `nullopt` has found the end of
the stream. -/
def EndsOnlyAtEnd (s : State τ T) : Prop :=
  ∀ e ∈ s.ended, EndOfStream e

variable [DecidableEq τ]

/-- A `resume_impl` that runs because the channel was found closed. -/
def ClosedSeen (s : State τ T) : Prop :=
  ∀ t, s.pc t = .resuming .receive false → s.sync.closed = true

section Steps

variable {c : Config T} {s s' : State τ T} {a : Action τ T}

theorem ClosedSeen.of_update (h : ClosedSeen s) {t : τ} {q : Pc T}
    (hpc : s'.pc = Function.update s.pc t q)
    (hclosed : s.sync.closed = true → s'.sync.closed = true)
    (hq : q = .resuming .receive false → s'.sync.closed = true) :
    ClosedSeen s' := by
  intro u hu
  by_cases hut : u = t
  · subst hut
    rw [hpc, Function.update_self] at hu
    exact hq hu
  · rw [hpc, Function.update_of_ne hut] at hu
    exact hclosed (h u hu)

omit [DecidableEq τ] in
theorem afterSync_ne_resuming (p : Pc T) (out : SyncChannel.Outcome T)
    (w : Awaiter T) (woken : Bool) :
    p.afterSync c out ≠ .resuming w woken := by
  intro heq
  have hnone := syncOp_afterSync (c := c) p out
  rw [heq] at hnone
  cases hnone

omit [DecidableEq τ] in
theorem afterList_ne_resuming (p : Pc T) (w : Awaiter T) (woken : Bool) :
    p.afterList ≠ .resuming w woken := by
  unfold Pc.afterList
  split <;> simp

theorem closedSeen_next (h : ClosedSeen s) (ha : Enabled c s a) :
    ClosedSeen (next c s a) := by
  have hclosed : s.sync.closed = true → (next c s a).sync.closed = true :=
    closed_next
  cases a with
  | sync b => exact fun t ht => hclosed (h t ht)
  | syncReturn t op out =>
      exact h.of_update rfl hclosed
        fun heq => absurd heq (afterSync_ne_resuming _ _ _ _)
  | loadClosed t => exact h.of_update rfl hclosed fun _ => hclosed ha.2.1
  | list t d b =>
      dsimp only [next] at hclosed ⊢
      split
      · exact h.of_update rfl id
          fun heq => absurd heq (afterList_ne_resuming _ _ _)
      · exact h
  | resume t w => exact h.of_update rfl hclosed fun heq => (by cases heq)
  | call t op => exact h.of_update rfl hclosed fun heq => (by cases heq)
  | coAwait t w => exact h.of_update rfl hclosed fun heq => (by cases heq)
  | loadOpen t => exact h.of_update rfl hclosed fun heq => (by cases heq)
  | callAdd t w => exact h.of_update rfl hclosed fun heq => (by cases heq)
  | callWake t all side =>
      exact h.of_update rfl hclosed fun heq => (by cases heq)

theorem closedSeen_reachable (hs : (system c τ).Reachable s) :
    ClosedSeen s := by
  refine TransitionSystem.Reachable.invariant hs ClosedSeen ?_
    fun s a h ha => closedSeen_next h ha
  rintro s rfl t ht
  cases ht

/-- A `try_receive` that finds a closed channel empty has found the end of the
stream. -/
theorem endOfStream_of_empty (hs : (system c τ).Reachable s)
    (hclosed : s.sync.closed = true) (hempty : s.sync.buffer = []) :
    EndOfStream s.sync := by
  have hqueued : SyncChannel.Queued s.sync :=
    SyncChannel.queued_reachable (sync_reachable hs)
  unfold SyncChannel.Queued at hqueued
  rw [hempty, List.append_nil] at hqueued
  exact ⟨hclosed, hempty, hqueued⟩

/-- A `co_await receive_async` that is to return `nullopt` has found the
channel closed. -/
theorem closed_of_popEmpty [Fintype τ] (hs : (system c τ).Reachable s)
    (hprovided : Provided s) {t : τ} {k : SyncChannel.ReceiveKind}
    (ha : Enabled c s (.sync (.popEmpty t k)))
    (hends : (s.pc t).endsOnEmpty = true) : s.sync.closed = true := by
  cases hq : s.pc t with
  | resuming w woken =>
      rw [hq] at hends
      cases w with
      | send v => cases hends
      | receive =>
          cases woken with
          | true =>
              have hfinds := finds_of_provided hprovided hq ha.2.1
              exact hfinds.resolve_right (not_not_intro ha.2.2)
          | false => exact closedSeen_reachable hs t hq
  | _ => rw [hq] at hends; cases hends

theorem endsOnlyAtEnd_next [Fintype τ] (hs : (system c τ).Reachable s)
    (hprovided : Provided s) (h : EndsOnlyAtEnd s) (ha : Enabled c s a) :
    EndsOnlyAtEnd (next c s a) := by
  cases a with
  | sync b =>
      intro e he
      have he' : e ∈ s.endedAfter b := he
      unfold State.endedAfter at he'
      split at he'
      · split at he'
        · rename_i hends
          rcases List.mem_append.mp he' with hold | hnew
          · exact h e hold
          · obtain rfl := List.mem_singleton.mp hnew
            exact endOfStream_of_empty hs
              (closed_of_popEmpty hs hprovided ha hends) ha.2.2
        · exact h e he'
      · exact h e he'
  | list t d b =>
      dsimp only [next]
      split <;> exact h
  | _ => exact h

/-- In every run whose steps leave to the woken receivers the values they were
woken for, `receive_async` reports the end of the stream only at its end. -/
theorem endsOnlyAtEnd_of_leavesForWoken [Fintype τ]
    (hs : (system c τ).ReachableWhere LeavesForWoken s) :
    EndsOnlyAtEnd s := by
  refine hs.invariant_of EndsOnlyAtEnd
    (fun s hs => And.intro hs.reachable (provided_reachable hs)) ?_
    fun s a hJ h ha _ => endsOnlyAtEnd_next hJ.1 hJ.2 h ha
  rintro s rfl e he
  cases he

end Steps

/-! ## A value taken before the resumption -/

def numbers : Config ℕ where
  channel := { SyncChannel.singleSlot with policy := .unbounded }
  movedFrom := id

/-- Agent `0` suspends in `receive_async`. -/
def suspendReceiver : List (Action (Fin 2) ℕ) :=
  [.coAwait 0 .receive, .sync (.lock 0 (.receive .tryReceive)),
    .sync (.popEmpty 0 .tryReceive),
    .syncReturn 0 (.receive .tryReceive) (.optional none), .loadOpen 0,
    .callAdd 0 .receive, .list 0 .receive (.addLoad 0 0),
    .list 0 .receive (.addLink 0 0 none), .list 0 .receive (.addCas 0 0 none)]

/-- Agent `1` sends `7`, which wakes agent `0`, takes the value back and only
then agent `0` is resumed. -/
def takeFromWoken : List (Action (Fin 2) ℕ) :=
  suspendReceiver ++
    ([.call 1 (.send .send 7), .sync (.lock 1 (.send .send 7)),
      .sync (.loadOpen 1 .send 7), .sync (.pushBack 1 .send 7),
      .sync (.notifyNobody 1 .cv (.send .send 7) .returned),
      .syncReturn 1 (.send .send 7) .returned, .callWake 1 false .receive,
      .list 1 .receive (.wakeLoad 1), .list 1 .receive (.wakeNext 1 0),
      .list 1 .receive (.wakeCas 1 0 none),
      .list 1 .receive (.schedule 1 0 none),
      .call 1 (.receive .tryReceive), .sync (.lock 1 (.receive .tryReceive)),
      .sync (.popFront 1 .tryReceive 7),
      .syncReturn 1 (.receive .tryReceive) (.optional (some 7)),
      .resume 0 .receive, .sync (.lock 0 (.receive .tryReceive)),
      .sync (.popEmpty 0 .tryReceive)] :
      List (Action (Fin 2) ℕ))

theorem not_forall_endsOnlyAtEnd :
    ¬∀ s, (system numbers (Fin 2)).Reachable s → EndsOnlyAtEnd s := by
  intro h
  have hreach : (system numbers (Fin 2)).Reachable
      ((system numbers (Fin 2)).after (initialState (Fin 2) ℕ)
        takeFromWoken) :=
    TransitionSystem.Executes.reachable (.init rfl) (by decide)
  have hclosed := (h _ hreach _ (List.mem_singleton_self _)).1
  revert hclosed
  decide

/-- Agent `1` sends `7` with `async_channel::send`, agent `0` is woken,
receives it and suspends again. -/
def sendToSuspended : List (Action (Fin 2) ℕ) :=
  suspendReceiver ++
    ([.call 1 (.send .send 7), .sync (.lock 1 (.send .send 7)),
      .sync (.loadOpen 1 .send 7), .sync (.pushBack 1 .send 7),
      .sync (.notifyNobody 1 .cv (.send .send 7) .returned),
      .syncReturn 1 (.send .send 7) .returned, .callWake 1 false .receive,
      .list 1 .receive (.wakeLoad 1), .list 1 .receive (.wakeNext 1 0),
      .list 1 .receive (.wakeCas 1 0 none),
      .list 1 .receive (.schedule 1 0 none), .resume 0 .receive,
      .sync (.lock 0 (.receive .tryReceive)),
      .sync (.popFront 0 .tryReceive 7),
      .syncReturn 0 (.receive .tryReceive) (.optional (some 7)),
      .coAwait 0 .receive, .sync (.lock 0 (.receive .tryReceive)),
      .sync (.popEmpty 0 .tryReceive),
      .syncReturn 0 (.receive .tryReceive) (.optional none), .loadOpen 0,
      .callAdd 0 .receive, .list 0 .receive (.addLoad 0 0),
      .list 0 .receive (.addLink 0 0 none),
      .list 0 .receive (.addCas 0 0 none)] :
      List (Action (Fin 2) ℕ))

/-- Agent `1` then closes the channel, and agent `0` is resumed. -/
def closeSuspended : List (Action (Fin 2) ℕ) :=
  sendToSuspended ++
    ([.call 1 .close, .sync (.storeClosed 1), .sync (.lock 1 .close),
      .sync (.notifyAll 1 .cv), .sync (.notifyAll 1 .sendCv),
      .syncReturn 1 .close .returned, .callWake 1 true .receive,
      .list 1 .receive (.exchange 1), .list 1 .receive (.walkNext 1 0),
      .list 1 .receive (.schedule 1 0 none), .callWake 1 true .send,
      .list 1 .send (.exchange 1),
      .resume 0 .receive, .sync (.lock 0 (.receive .tryReceive)),
      .sync (.popEmpty 0 .tryReceive)] :
      List (Action (Fin 2) ℕ))

theorem endsOnlyAtEnd_closeSuspended :
    EndsOnlyAtEnd ((system numbers (Fin 2)).after
      (initialState (Fin 2) ℕ) closeSuspended) := by
  refine endsOnlyAtEnd_of_leavesForWoken (c := numbers) ?_
  exact TransitionSystem.Executes.reachableWhere (.init rfl) (by decide)

end AsyncChannel
end Ethreads
