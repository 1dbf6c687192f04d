import Ethreads.CoroTask.Model

/-!
# The result of a task

The coroutine stores its result before `ready`, `ready` before it marks the
word of the handoff, and the word before `final_suspend_reached`.  So the
program point of the coroutine determines the flags and the ready bit.
-/

namespace Ethreads
namespace CoroTask

variable {τ T E : Type*} {noop : BitVec 64}

namespace CoroPc

def ended : CoroPc T E → Bool
  | initial | running => false
  | _ => true

def stored : CoroPc T E → Bool
  | initial | running | lockState _ | storeResult _ => false
  | _ => true

def published : CoroPc T E → Bool
  | initial | running | lockState _ | storeResult _ | storeReady => false
  | _ => true

def flagged : CoroPc T E → Bool
  | getContinuation | storeFinal _ | transfer _ | finished => true
  | _ => false

def finalStored : CoroPc T E → Bool
  | transfer _ | finished => true
  | _ => false

end CoroPc

variable [DecidableEq τ]

@[simp] theorem goto_pc (s : State τ T E) (t : τ) (q : Pc T E) :
    (s.goto t q).pc = Function.update s.pc t q := rfl

/-- What the coroutine carries from one step to the next. -/
def CoroPc.Ok (s : State τ T E) : CoroPc T E → Prop
  | lockState c | storeResult c => s.completion = some c
  | casWord old => isReady old = false
  | _ => True

/-- How far the coroutine has come determines the flags, the result and the
ready bit of the word. -/
structure Published (s : State τ T E) : Prop where
  ready : s.ready = s.coro.published
  final : s.finalSuspendReached = s.coro.finalStored
  ended : s.completion.isSome = s.coro.ended
  stored : s.coro.stored = true → s.result = s.completion
  word : isReady s.word = s.coro.flagged
  ok : s.coro.Ok s

omit [DecidableEq τ] in
theorem Published.of_same {s s' : State τ T E} (h : Published s)
    (hcoro : s'.coro = s.coro) (hready : s'.ready = s.ready)
    (hfinal : s'.finalSuspendReached = s.finalSuspendReached)
    (hcompletion : s'.completion = s.completion)
    (hresult : s'.result = s.result)
    (hword : isReady s'.word = isReady s.word) : Published s' := by
  constructor
  · rw [hcoro, hready, h.ready]
  · rw [hcoro, hfinal, h.final]
  · rw [hcoro, hcompletion, h.ended]
  · rw [hcoro, hresult, hcompletion]
    exact h.stored
  · rw [hcoro, hword, h.word]
  · have hok := h.ok
    rw [hcoro]
    cases hp : s.coro <;> rw [hp] at hok <;>
      first | exact trivial | exact hcompletion.trans hok | exact hok

theorem published_next {handle : τ → Handle noop} {s : State τ T E}
    {a : Action τ T E} (h : Published s) (ha : Enabled handle s a) :
    Published (next handle s a) := by
  obtain ⟨hready, hfinal, hended, hstored, hword, hok⟩ := h
  cases a with
  | setContinuation t old =>
      refine Published.of_same ⟨hready, hfinal, hended, hstored, hword, hok⟩
        rfl rfl rfl rfl rfl ?_
      rw [ha.2.2]
      exact isReady_withContinuation old (handle t)
  | resumeTask =>
      rw [ha.1] at hready hfinal hended hword
      exact ⟨hready, hfinal, hended, nofun, hword, trivial⟩
  | complete c =>
      rw [show s.coro = .running from ha] at hready hfinal hword
      exact ⟨hready, hfinal, rfl, nofun, hword, rfl⟩
  | coroLock c =>
      rw [ha.1] at hready hfinal hended hword hok
      exact ⟨hready, hfinal, hended, nofun, hword, hok⟩
  | storeResult c =>
      rw [show s.coro = .storeResult c from ha]
        at hready hfinal hended hword hok
      exact ⟨hready, hfinal, hended, fun _ => hok.symm, hword, trivial⟩
  | storeReady =>
      rw [show s.coro = .storeReady from ha] at hfinal hended hstored hword
      exact ⟨rfl, hfinal, hended, hstored, hword, trivial⟩
  | notifyAll =>
      rw [show s.coro = .notifyAll from ha]
        at hready hfinal hended hstored hword
      exact ⟨hready, hfinal, hended, hstored, hword, trivial⟩
  | coroUnlock =>
      rw [show s.coro = .unlockState from ha]
        at hready hfinal hended hstored hword
      exact ⟨hready, hfinal, hended, hstored, hword, trivial⟩
  | coroLoadWord =>
      rw [show s.coro = .loadWord from ha]
        at hready hfinal hended hstored hword
      exact ⟨hready, hfinal, hended, hstored, hword, hword⟩
  | alreadyReady old =>
      rw [ha.1] at hok
      cases ha.2.symm.trans hok
  | setReady old =>
      rw [ha.1] at hready hfinal hended hstored
      by_cases hc : hasContinuation old = true
      · simp only [next, hc, if_true]
        exact ⟨hready, hfinal, hended, hstored, isReady_withReady old,
          trivial⟩
      · simp only [next, hc, Bool.false_eq_true, if_false]
        exact ⟨hready, hfinal, hended, hstored, isReady_withReady old,
          trivial⟩
  | setReadyFails old =>
      rw [ha.1] at hready hfinal hended hstored hword
      exact ⟨hready, hfinal, hended, hstored, hword, hword⟩
  | getContinuation =>
      rw [show s.coro = .getContinuation from ha]
        at hready hfinal hended hstored hword
      exact ⟨hready, hfinal, hended, hstored, hword, trivial⟩
  | storeFinal c =>
      rw [show s.coro = .storeFinal c from ha] at hready hended hstored hword
      exact ⟨hready, rfl, hended, hstored, hword, trivial⟩
  | transferNoop c =>
      rw [ha.1] at hready hfinal hended hstored hword
      exact ⟨hready, hfinal, hended, hstored, hword, trivial⟩
  | transferTo c t =>
      rw [ha.1] at hready hfinal hended hstored hword
      exact ⟨hready, hfinal, hended, hstored, hword, trivial⟩
  | _ =>
      exact Published.of_same ⟨hready, hfinal, hended, hstored, hword, hok⟩
        rfl rfl rfl rfl rfl rfl

theorem published_reachable {handle : τ → Handle noop} {s : State τ T E}
    (hs : (system T E handle).Reachable s) : Published s := by
  refine TransitionSystem.Reachable.invariant hs Published ?_
    fun s a h ha => published_next h ha
  rintro s rfl
  exact ⟨rfl, rfl, rfl, nofun, (by decide : isReady 0 = false), trivial⟩

end CoroTask
end Ethreads
