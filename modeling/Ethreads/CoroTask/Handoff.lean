import Mathlib.Data.BitVec

/-!
# The word of the continuation handoff

This module models the encoding used by `continuation_handoff` of
`include/shared_state/continuation_handoff.hpp`.  Bit 0 of the atomic word says
that the producer is ready, the other bits hold the address of the
continuation.  The operations that load the word and retry a weak
compare-exchange are steps of the task model; here are the pure functions they
compute.
-/

namespace Ethreads
namespace CoroTask

def readyFlag : BitVec 64 := 1

def addrMask : BitVec 64 := ~~~1

/-- The handle of a suspended coroutine: its frame is aligned, and is neither
null nor the frame of `std::noop_coroutine()`. -/
structure Handle (noop : BitVec 64) where
  address : BitVec 64
  aligned : address &&& readyFlag = 0
  ne_zero : address ≠ 0
  ne_noop : address ≠ noop

def isReady (word : BitVec 64) : Bool :=
  word &&& readyFlag != 0

def hasContinuation (word : BitVec 64) : Bool :=
  word &&& addrMask != 0

/-- The value that `set_ready` tries to store. -/
def withReady (oldVal : BitVec 64) : BitVec 64 :=
  oldVal ||| readyFlag

/-- The value that `set_continuation` tries to store. -/
def withContinuation (oldVal addr : BitVec 64) : BitVec 64 :=
  (oldVal &&& readyFlag) ||| addr

/-- What `set_continuation` returns after its compare-exchange. -/
def afterExchange (noop oldVal addr : BitVec 64) : BitVec 64 :=
  if isReady oldVal then addr else noop

def getContinuation (noop word : BitVec 64) : BitVec 64 :=
  if word &&& addrMask != 0 then word &&& addrMask else noop

/-- Storing the flag keeps the address. -/
theorem withReady_and_addrMask (word : BitVec 64) :
    withReady word &&& addrMask = word &&& addrMask := by
  apply BitVec.eq_of_getLsbD_eq
  intro i hi
  simp only [withReady, readyFlag, addrMask, BitVec.getLsbD_and,
    BitVec.getLsbD_or, BitVec.getLsbD_not]
  cases word.getLsbD i <;> cases (1 : BitVec 64).getLsbD i <;> simp [hi]

@[simp] theorem hasContinuation_withReady (word : BitVec 64) :
    hasContinuation (withReady word) = hasContinuation word := by
  simp only [hasContinuation, withReady_and_addrMask]

@[simp] theorem isReady_withReady (word : BitVec 64) :
    isReady (withReady word) = true := by
  have hflag : withReady word &&& readyFlag = readyFlag := by
    apply BitVec.eq_of_getLsbD_eq
    intro i hi
    simp only [withReady, BitVec.getLsbD_and, BitVec.getLsbD_or]
    cases readyFlag.getLsbD i <;> simp
  simp only [isReady, hflag]
  decide

/-- Storing an aligned address keeps the flag. -/
theorem isReady_withContinuation {noop : BitVec 64} (word : BitVec 64)
    (h : Handle noop) :
    isReady (withContinuation word h.address) = isReady word := by
  have hflag : withContinuation word h.address &&& readyFlag =
      word &&& readyFlag := by
    apply BitVec.eq_of_getLsbD_eq
    intro i hi
    have haligned : (h.address &&& readyFlag).getLsbD i = false := by
      rw [h.aligned]
      simp
    simp only [BitVec.getLsbD_and] at haligned
    simp only [withContinuation, BitVec.getLsbD_and, BitVec.getLsbD_or]
    cases hbit : readyFlag.getLsbD i
    · simp
    · rw [hbit, Bool.and_true] at haligned
      simp [haligned]
  simp only [isReady, hflag]

/-- An aligned address is found again under the mask. -/
theorem withContinuation_and_addrMask {noop : BitVec 64} (word : BitVec 64)
    (h : Handle noop) :
    withContinuation word h.address &&& addrMask = h.address := by
  apply BitVec.eq_of_getLsbD_eq
  intro i hi
  have haligned : (h.address &&& readyFlag).getLsbD i = false := by
    rw [h.aligned]
    simp
  simp only [BitVec.getLsbD_and] at haligned
  simp only [withContinuation, addrMask, readyFlag, BitVec.getLsbD_and,
    BitVec.getLsbD_or, BitVec.getLsbD_not] at haligned ⊢
  cases hbit : (1 : BitVec 64).getLsbD i
  · simp [hi]
  · rw [hbit, Bool.and_true] at haligned
    simp [haligned]

theorem getContinuation_of_and_addrMask {noop word : BitVec 64}
    (h : Handle noop) (hword : word &&& addrMask = h.address) :
    getContinuation noop word = h.address := by
  have hne : (h.address != 0) = true := bne_iff_ne.mpr h.ne_zero
  simp only [getContinuation, hword, hne, if_true]

end CoroTask
end Ethreads
