import Ethreads.IoUring.SendAll
import Ethreads.IoUring.SubmissionQueue
import Ethreads.Support.TransitionSystem

/-!
# One ring and its operations

This module models `src/io_uring_service.cpp` and the awaiters of
`include/io_uring_ops.hpp` for one ring: the calls of `await_suspend`, the
completion thread `run`, and `shutdown`.

An operation is an agent of its own, which stores its handle, takes its slots,
prepares them and submits.  A submit may fail, or take only some of the entries.
The kernel posts one completion for each entry that it has taken, in any order.
A handle is represented by the operation whose coroutine it is, and a user data
pointer by the completion object that it points to.
-/

namespace Ethreads
namespace IoUring

/-- `-ENOMEM`. -/
def enomem : ℤ := -12

def ringEntries : ℕ := 256

/-! ## Entries -/

/-- The completion objects: `comp` or `send_comp` of an operation, and
`timeout_comp`. -/
inductive Completion (ο : Type*)
  | main (o : ο)
  | timeout (o : ο)
  deriving DecidableEq, Repr

inductive Opcode
  | nop
  | accept (listenFd : ℤ)
  | recv (fd : ℤ) (buf : UInt64) (len : UInt32)
  | send (fd : ℤ) (request : Request)
  | linkTimeout (ts : Option (ℤ × ℤ))
  deriving DecidableEq, Repr

/-- A submission queue entry, with `IOSQE_IO_LINK`. -/
structure Sqe (ο : Type*) where
  opcode : Opcode
  userData : Option (Completion ο)
  ioLink : Bool
  deriving DecidableEq, Repr

/-- A completion queue entry. -/
structure Cqe (ο : Type*) where
  userData : Option (Completion ο)
  res : ℤ
  flags : ℕ
  deriving DecidableEq, Repr

structure IoCompletion (ο : Type*) where
  handle : Option ο
  result : ℤ
  flags : ℕ
  deriving DecidableEq, Repr

/-- The awaiters, with their members. -/
inductive Command
  | accept (listenFd : ℤ)
  | recv (fd : ℤ) (buf len : UInt64)
  | send (fd : ℤ) (buf len : UInt64)
  | sendTimeout (fd : ℤ) (buf len : UInt64) (timeout : ℤ)
  deriving DecidableEq, Repr

/-- The operation takes a pair of slots. -/
def Command.linked : Command → Bool
  | sendTimeout .. => true
  | _ => false

variable {ο : Type*}

/-- The entry of an operation that carries its own completion. -/
def Command.sqe (o : ο) : Command → Sqe ο
  | accept listenFd => ⟨.accept listenFd, some (.main o), false⟩
  | recv fd buf len => ⟨.recv fd buf len.toUInt32, some (.main o), false⟩
  | send fd buf len => ⟨.send fd (asyncSend buf len), some (.main o), false⟩
  | sendTimeout fd buf len timeout =>
      ⟨.send fd (asyncSendTimeout buf len timeout), some (.main o), true⟩

/-- The linked timeout of `async_send_timeout`. -/
def Command.timeoutSqe (o : ο) : Command → Sqe ο
  | sendTimeout _ buf len timeout =>
      ⟨.linkTimeout (asyncSendTimeout buf len timeout).linkTimeout,
        some (.timeout o), false⟩
  | _ => ⟨.nop, none, false⟩

/-- The entry that wakes the completion thread. -/
def nopSqe (ο : Type*) : Sqe ο :=
  ⟨.nop, none, false⟩

/-! ## States -/

inductive OpPc
  | idle
  | stored
  | reserved (v : ℕ) (w : Option ℕ)
  | prepared
  | suspended
  | refused
  deriving DecidableEq, Repr

inductive ReaperPc (ο : Type*)
  | loadRunning
  | waiting
  | taken (e : Cqe ο)
  | processed
  | exited
  deriving DecidableEq, Repr

/-- Where the thread that shuts the ring down stands in `shutdown`. -/
inductive CloserPc
  | idle
  | exchanged
  | holding (v : ℕ)
  | prepared
  | joining
  | joined
  | returned
  deriving DecidableEq, Repr

/-- What is known of a slot: nobody has prepared it, it has been given out for
an entry with this user data, or its entry is prepared. -/
inductive SlotStatus (ο : Type*)
  | stale
  | held (userData : Option (Completion ο))
  | ready
  deriving DecidableEq, Repr

/-- The members of the service, the kernel's side of the ring, the operations
and the threads.

For the record, `status` keeps what is known of the slots, `processed` how often
a completion object was filled in by the completion thread, `posted` the result
that the kernel has posted for an operation, and `lost` the user data of the
entries that went with the ring. -/
structure State (ο : Type*) where
  ring : Option (SubmissionQueue (Sqe ο))
  running : Bool
  inflight : List (Sqe ο)
  cq : List (Cqe ο)
  completion : Completion ο → IoCompletion ο
  op : ο → OpPc
  reaper : ReaperPc ο
  closer : CloserPc
  scheduled : ο → ℕ
  resumed : ο → Bool
  status : ℕ → SlotStatus ο
  processed : Completion ο → ℕ
  posted : ο → Option ℤ
  lost : List (Option (Completion ο))

/-- The ring is set up and its completion thread started; the slots hold
anything. -/
def initialState (sqe : ℕ → Sqe ο) : State ο where
  ring := some
    ⟨ringEntries, 0, 0, sqe, Nat.le_refl 0, Nat.zero_le _⟩
  running := true
  inflight := []
  cq := []
  completion := fun _ => ⟨none, 0, 0⟩
  op := fun _ => .idle
  reaper := .loadRunning
  closer := .idle
  scheduled := fun _ => 0
  resumed := fun _ => false
  status := fun _ => .stale
  processed := fun _ => 0
  posted := fun _ => none
  lost := []

def failedState (sqe : ℕ → Sqe ο) : State ο :=
  { initialState sqe with
    ring := none
    running := false
    reaper := .exited }

/-! ## The service -/

section Service

variable [DecidableEq ο] (s : State ο)

/-- `schedule_coro_handle`, which ignores a null handle. -/
def State.schedule : Option ο → State ο
  | none => s
  | some o =>
      { s with
        scheduled := Function.update s.scheduled o (s.scheduled o + 1) }

def State.fill (c : Completion ο) (result : ℤ) (flags : ℕ) : State ο :=
  { s with
    completion := Function.update s.completion c
      { s.completion c with result := result, flags := flags } }

/-- The operation gets no slot: its result is `-ENOMEM`, and its coroutine is
scheduled. -/
def State.refuse (o : ο) : State ο :=
  { (s.fill (.main o) enomem (s.completion (.main o)).flags).schedule
      (some o) with
    op := Function.update s.op o .refused }

def State.hold (v : ℕ) (userData : Option (Completion ο)) : State ο :=
  { s with status := Function.update s.status v (.held userData) }

def State.prep (v : ℕ) (e : Sqe ο) : State ο :=
  { s with
    ring := s.ring.map fun q => q.prep v e
    status := Function.update s.status v .ready
    lost := if s.ring.isSome then s.lost else e.userData :: s.lost }

/-- `io_uring_service::submit` of which the kernel takes `k` entries. -/
def State.submit (k : ℕ) : State ο :=
  match s.ring with
  | none => s
  | some q =>
      let r := q.submit k
      { s with ring := some r.2, inflight := s.inflight ++ r.1 }

def State.getSqe (o : ο) : State ο :=
  match (SubmissionQueue.api (Sqe ο)).serviceGetSqe s.ring with
  | (some v, ring) =>
      let s := { s with ring := ring }.hold v (some (.main o))
      { s with op := Function.update s.op o (.reserved v none) }
  | (none, ring) => { s with ring := ring }.refuse o

def State.getSqePair (o : ο) : State ο :=
  match (SubmissionQueue.api (Sqe ο)).getSqePair s.ring with
  | ((some v, some w), ring) =>
      let s := ({ s with ring := ring }.hold v (some (.main o))).hold w
        (some (.timeout o))
      { s with op := Function.update s.op o (.reserved v (some w)) }
  | (_, ring) => { s with ring := ring }.refuse o

/-- The entries that are prepared and wait for a submit. -/
def State.readyData : List (Option (Completion ο)) :=
  match s.ring with
  | none => []
  | some q =>
      (q.pending.filter fun v => s.status v = .ready).map fun v =>
        (q.sqe v).userData

/-- The completion thread's turn with a completion. -/
def State.process (e : Cqe ο) : State ο :=
  match e.userData with
  | none => s
  | some c =>
      { (s.fill c e.res e.flags).schedule (s.completion c).handle with
        processed := Function.update s.processed c (s.processed c + 1) }

/-- The kernel posts the completion of the entry with the number `i`. -/
def State.post (i : ℕ) (res : ℤ) (flags : ℕ) : State ο :=
  match s.inflight[i]? with
  | none => s
  | some e =>
      { s with
        inflight := s.inflight.eraseIdx i
        cq := s.cq ++ [⟨e.userData, res, flags⟩]
        posted := match e.userData with
          | some (.main o) => Function.update s.posted o (some res)
          | _ => s.posted }

end Service

/-! ## Atomic actions -/

inductive Action (ο : Type*)
  | call (o : ο)
  | getSqe (o : ο)
  | prep (o : ο) (v : ℕ) (w : Option ℕ)
  | submit (o : ο) (k : ℕ)
  | resume (o : ο)
  | post (i : ℕ) (res : ℤ) (flags : ℕ)
  | loadRunning
  | interrupted
  | fatal
  | waitCqe (e : Cqe ο)
  | process (e : Cqe ο)
  | seen
  | exchange
  | nopGetSqe
  | nopPrep (v : ℕ)
  | nopSubmit (k : ℕ)
  | join
  | queueExit
  deriving DecidableEq, Repr

def Enabled (s : State ο) : Action ο → Prop
  | .call o => s.op o = .idle
  | .getSqe o => s.op o = .stored
  | .prep o v w => s.op o = .reserved v w
  | .submit o _ => s.op o = .prepared
  | .resume o => 0 < s.scheduled o ∧ s.resumed o = false
  | .post i _ _ => i < s.inflight.length
  | .loadRunning => s.reaper = .loadRunning
  | .interrupted | .fatal => s.reaper = .waiting
  | .waitCqe e => s.reaper = .waiting ∧ s.cq.head? = some e
  | .process e => s.reaper = .taken e
  | .seen => s.reaper = .processed
  | .exchange => s.closer = .idle
  | .nopGetSqe => s.closer = .exchanged
  | .nopPrep v => s.closer = .holding v
  | .nopSubmit _ => s.closer = .prepared
  | .join => s.closer = .joining ∧ s.reaper = .exited
  | .queueExit => s.closer = .joined

variable [DecidableEq ο]

def next (command : ο → Command) (s : State ο) : Action ο → State ο
  | .call o =>
      { s with
        completion := Function.update s.completion (.main o)
          { s.completion (.main o) with handle := some o }
        op := Function.update s.op o .stored }
  | .getSqe o =>
      if (command o).linked = true then s.getSqePair o else s.getSqe o
  | .prep o v w =>
      let s := s.prep v ((command o).sqe o)
      let s := match w with
        | none => s
        | some w => s.prep w ((command o).timeoutSqe o)
      { s with op := Function.update s.op o .prepared }
  | .submit o k =>
      { s.submit k with op := Function.update s.op o .suspended }
  | .resume o => { s with resumed := Function.update s.resumed o true }
  | .post i res flags => s.post i res flags
  | .loadRunning =>
      { s with reaper := if s.running = true then .waiting else .exited }
  | .interrupted => { s with reaper := .loadRunning }
  | .fatal => { s with reaper := .exited }
  | .waitCqe e => { s with reaper := .taken e, cq := s.cq.tail }
  | .process e => { s.process e with reaper := .processed }
  | .seen => { s with reaper := .loadRunning }
  | .exchange =>
      { s with
        running := false
        closer := if s.running = true then .exchanged else .returned }
  | .nopGetSqe =>
      match (SubmissionQueue.api (Sqe ο)).serviceGetSqe s.ring with
      | (some v, ring) =>
          { { s with ring := ring }.hold v none with closer := .holding v }
      | (none, ring) => { s with ring := ring, closer := .joining }
  | .nopPrep v => { s.prep v (nopSqe ο) with closer := .prepared }
  | .nopSubmit k => { s.submit k with closer := .joining }
  | .join => { s with closer := .joined }
  | .queueExit =>
      { s with
        ring := none
        inflight := []
        cq := []
        closer := .returned
        lost := s.readyData ++ s.inflight.map Sqe.userData ++
          s.cq.map Cqe.userData ++ s.lost }

instance (s : State ο) (a : Action ο) : Decidable (Enabled s a) := by
  cases a <;> dsimp only [Enabled] <;> infer_instance

def system (command : ο → Command) :
    TransitionSystem (State ο) (Action ο) where
  Initial s := ∃ sqe, s = initialState sqe ∨ s = failedState sqe
  Enabled := Enabled
  next := next command

instance (command : ο → Command) (s : State ο) (a : Action ο) :
    Decidable ((system command).Enabled s a) :=
  inferInstanceAs (Decidable (Enabled s a))

end IoUring
end Ethreads
