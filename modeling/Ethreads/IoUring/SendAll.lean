import Mathlib.Data.List.Basic
import Mathlib.Tactic.Common
import Mathlib.Tactic.Ring

/-!
# Sending a whole buffer

This module models `async_send_all` of `include/io_uring_ops.hpp`, with the
requests that `async_send` and `async_send_timeout` make for it.

The pointer `data + sent` is the offset `sent`.  The kernel answers the
operations one after the other.  A refused submission slot, which completes its
operation with `-ENOMEM`, is one of the negative answers.
-/

namespace Ethreads
namespace IoUring

/-! ## The operations -/

/-- What an operation asks of the kernel: the buffer, the length, and the
seconds and nanoseconds of the linked timeout. -/
structure Request where
  offset : UInt64
  asked : UInt32
  linkTimeout : Option (ℤ × ℤ)
  deriving DecidableEq, Repr

/-- `async_send::await_suspend`. -/
def asyncSend (buf len : UInt64) : Request :=
  ⟨buf, len.toUInt32, none⟩

/-- `async_send_timeout::await_suspend`, with the timeout in milliseconds. -/
def asyncSendTimeout (buf len : UInt64) (timeout : ℤ) : Request :=
  ⟨buf, len.toUInt32,
    some (timeout.tdiv 1000, timeout.tmod 1000 * 1000000)⟩

/-- The results of the operations.  A send of `r` bytes completes with a
negative `errno` or with at most `r` bytes, fewer than `2 ^ 31`. -/
structure Kernel where
  result : ℕ → Request → ℤ
  lawful : ∀ i r, result i r < 0 ∨
    0 ≤ result i r ∧ result i r ≤ r.asked.toNat ∧ result i r < 2 ^ 31

structure Operation where
  request : Request
  result : ℤ
  deriving DecidableEq, Repr

/-- The positions of the bytes that an operation hands over. -/
def Operation.handedOver (op : Operation) : List ℕ :=
  List.range' op.request.offset.toNat op.result.toNat

/-! ## The loop -/

/-- What `async_send_all` leaves: its result, its operations in order, and
`sent`. -/
structure Outcome where
  returned : Bool
  operations : List Operation
  sent : UInt64
  deriving DecidableEq, Repr

/-- The operation that the loop awaits next. -/
def nextRequest (timeout : ℤ) (len sent : UInt64) : Request :=
  if 0 < timeout then asyncSendTimeout sent (len - sent) timeout
  else asyncSend sent (len - sent)

@[simp] theorem nextRequest_offset (timeout : ℤ) (len sent : UInt64) :
    (nextRequest timeout len sent).offset = sent := by
  unfold nextRequest
  split <;> rfl

@[simp] theorem nextRequest_asked (timeout : ℤ) (len sent : UInt64) :
    (nextRequest timeout len sent).asked = (len - sent).toUInt32 := by
  unfold nextRequest
  split <;> rfl

/-- The next operation asks for what remains modulo `2 ^ 32`. -/
theorem asked_toNat {timeout : ℤ} {len sent : UInt64} (hlt : sent < len) :
    (nextRequest timeout len sent).asked.toNat =
      (len.toNat - sent.toNat) % 2 ^ 32 := by
  rw [nextRequest_asked, UInt64.toNat_toUInt32,
    UInt64.toNat_sub_of_le _ _ (UInt64.le_of_lt hlt)]

variable (K : Kernel) (timeout : ℤ) (len : UInt64)

def resultAt (i : ℕ) (sent : UInt64) : ℤ :=
  K.result i (nextRequest timeout len sent)

/-- `sent` after an operation that has made progress. -/
def advance (i : ℕ) (sent : UInt64) : UInt64 :=
  sent + UInt64.ofInt (resultAt K timeout len i sent)

variable {K timeout len}

theorem resultAt_le {i : ℕ} {sent : UInt64} (hlt : sent < len)
    (hpos : 0 < resultAt K timeout len i sent) :
    (resultAt K timeout len i sent).toNat ≤
      (len.toNat - sent.toNat) % 2 ^ 32 := by
  have hlaw := K.lawful i (nextRequest timeout len sent)
  rw [asked_toNat hlt] at hlaw
  unfold resultAt at hpos ⊢
  omega

/-- No overflow occurs: `sent` grows by the bytes that were handed over. -/
theorem advance_toNat {i : ℕ} {sent : UInt64} (hlt : sent < len)
    (hpos : 0 < resultAt K timeout len i sent) :
    (advance K timeout len i sent).toNat =
      sent.toNat + (resultAt K timeout len i sent).toNat := by
  have hle := resultAt_le hlt hpos
  have hlen := len.toNat_lt
  have hmod := Nat.mod_le (len.toNat - sent.toNat) (2 ^ 32)
  have hlt' := UInt64.lt_iff_toNat_lt.mp hlt
  have hint : (UInt64.ofInt (resultAt K timeout len i sent)).toNat =
      (resultAt K timeout len i sent).toNat := by
    rw [UInt64.ofInt, UInt64.toNat_ofNat']
    omega
  rw [advance, UInt64.toNat_add, hint, Nat.mod_eq_of_lt (by omega)]

/-- An operation that makes progress does not get past the end. -/
theorem advance_le {i : ℕ} {sent : UInt64} (hlt : sent < len)
    (hpos : 0 < resultAt K timeout len i sent) :
    sent.toNat < (advance K timeout len i sent).toNat ∧
      (advance K timeout len i sent).toNat ≤ len.toNat := by
  have hle := resultAt_le hlt hpos
  have hmod := Nat.mod_le (len.toNat - sent.toNat) (2 ^ 32)
  have hlt' := UInt64.lt_iff_toNat_lt.mp hlt
  rw [advance_toNat hlt hpos]
  omega

variable (K timeout len)

/-- The loop of `async_send_all` from the operation with the number `i`. -/
def sendLoop (i : ℕ) (sent : UInt64) : Outcome :=
  if hlt : sent < len then
    let n := resultAt K timeout len i sent
    let op : Operation := ⟨nextRequest timeout len sent, n⟩
    if hfail : n ≤ 0 then ⟨false, [op], sent⟩
    else
      let rest := sendLoop (i + 1) (advance K timeout len i sent)
      { rest with operations := op :: rest.operations }
  else ⟨true, [], sent⟩
termination_by len.toNat - sent.toNat
decreasing_by
  have hstep := advance_le hlt (not_le.mp hfail)
  omega

def asyncSendAll : Outcome :=
  sendLoop K timeout len 0 0

variable {K timeout len}

theorem sendLoop_done {i : ℕ} {sent : UInt64} (hend : ¬sent < len) :
    sendLoop K timeout len i sent = ⟨true, [], sent⟩ := by
  rw [sendLoop, dif_neg hend]

theorem sendLoop_fail {i : ℕ} {sent : UInt64} (hlt : sent < len)
    (hfail : resultAt K timeout len i sent ≤ 0) :
    sendLoop K timeout len i sent =
      ⟨false, [⟨nextRequest timeout len sent,
        resultAt K timeout len i sent⟩], sent⟩ := by
  rw [sendLoop, dif_pos hlt]
  exact dif_pos hfail

theorem sendLoop_next {i : ℕ} {sent : UInt64} (hlt : sent < len)
    (hpos : 0 < resultAt K timeout len i sent) :
    sendLoop K timeout len i sent =
      { sendLoop K timeout len (i + 1) (advance K timeout len i sent) with
        operations :=
          ⟨nextRequest timeout len sent, resultAt K timeout len i sent⟩ ::
            (sendLoop K timeout len (i + 1)
              (advance K timeout len i sent)).operations } := by
  rw [sendLoop, dif_pos hlt]
  exact dif_neg (not_le.mpr hpos)

variable (K timeout len)

/-- The induction over the operations of the loop. -/
theorem sendLoop_induction {P : ℕ → UInt64 → Prop}
    (done : ∀ i sent, ¬sent < len → P i sent)
    (fail : ∀ i sent, sent < len → resultAt K timeout len i sent ≤ 0 →
      P i sent)
    (next : ∀ i sent, sent < len → 0 < resultAt K timeout len i sent →
      P (i + 1) (advance K timeout len i sent) → P i sent)
    (i : ℕ) (sent : UInt64) : P i sent := by
  induction i, sent using sendLoop.induct K timeout len with
  | case1 i sent hlt n hfail => exact fail i sent hlt hfail
  | case2 i sent hlt n hfail ih =>
      exact next i sent hlt (not_le.mp hfail) ih
  | case3 i sent hend => exact done i sent hend

/-! ## What the loop hands over -/

structure Sends (sent : UInt64) (o : Outcome) : Prop where
  from_le : sent.toNat ≤ o.sent.toNat
  within : o.sent ≤ len
  handedOver : o.operations.flatMap Operation.handedOver =
    List.range' sent.toNat (o.sent.toNat - sent.toNat)
  returned_iff : o.returned = true ↔ o.sent = len

theorem sends_sendLoop (i : ℕ) (sent : UInt64) (hsent : sent ≤ len) :
    Sends len sent (sendLoop K timeout len i sent) := by
  induction i, sent using sendLoop_induction K timeout len with
  | done i sent hend =>
      rw [sendLoop_done hend]
      have heq : sent = len := UInt64.le_antisymm hsent (UInt64.not_lt.mp hend)
      exact ⟨le_rfl, hsent, by simp, iff_of_true rfl heq⟩
  | fail i sent hlt hfail =>
      rw [sendLoop_fail hlt hfail]
      have hnone : (resultAt K timeout len i sent).toNat = 0 :=
        Int.toNat_of_nonpos hfail
      refine ⟨le_rfl, hsent, ?_, iff_of_false nofun (UInt64.ne_of_lt hlt)⟩
      simp [Operation.handedOver, hnone]
  | next i sent hlt hpos ih =>
      have hadv := advance_toNat hlt hpos
      obtain ⟨hfrom, hwithin, hhanded, hreturned⟩ :=
        ih (UInt64.le_iff_toNat_le.mpr (advance_le hlt hpos).2)
      rw [sendLoop_next hlt hpos]
      rw [hadv] at hfrom hhanded
      refine ⟨le_trans (Nat.le_add_right ..) hfrom, hwithin, ?_, hreturned⟩
      have hcount : (resultAt K timeout len i sent).toNat +
          ((sendLoop K timeout len (i + 1)
              (advance K timeout len i sent)).sent.toNat -
            (sent.toNat + (resultAt K timeout len i sent).toNat)) =
          (sendLoop K timeout len (i + 1)
              (advance K timeout len i sent)).sent.toNat - sent.toNat := by
        omega
      rw [List.flatMap_cons, hhanded, Operation.handedOver,
        nextRequest_offset, List.range'_append_1]
      exact congrArg (List.range' sent.toNat) hcount

/-! ## The operations that ask for nothing -/

/-- The loop gets from one operation to another, and all operations before that
make progress. -/
inductive LoopsTo : ℕ → UInt64 → ℕ → UInt64 → Prop
  | here (i : ℕ) (sent : UInt64) : LoopsTo i sent i sent
  | next {i j : ℕ} {sent sent' : UInt64} :
      sent < len → 0 < resultAt K timeout len i sent →
        LoopsTo (i + 1) (advance K timeout len i sent) j sent' →
          LoopsTo i sent j sent'

/-- The loop starts an operation while a positive multiple of `2 ^ 32` bytes
remains. -/
def Narrows (i : ℕ) (sent : UInt64) : Prop :=
  ∃ j sent', LoopsTo K timeout len i sent j sent' ∧ sent' < len ∧
    2 ^ 32 ∣ len.toNat - sent'.toNat

/-- The loop has a reason to fail. -/
def Justified (o : Outcome) : Prop :=
  ∃ op ∈ o.operations, 0 < op.request.asked.toNat ∧ op.result ≤ 0

theorem narrows_of_next {i : ℕ} {sent : UInt64} (hlt : sent < len)
    (hpos : 0 < resultAt K timeout len i sent) :
    Narrows K timeout len (i + 1) (advance K timeout len i sent) →
      Narrows K timeout len i sent := by
  rintro ⟨j, sent', hloops, hend⟩
  exact ⟨j, sent', .next hlt hpos hloops, hend⟩

/-- A failure of the loop has a reason, or the loop has started an operation
that asks for nothing. -/
theorem justified_or_narrows (i : ℕ) (sent : UInt64)
    (hreturned : (sendLoop K timeout len i sent).returned = false) :
    Justified (sendLoop K timeout len i sent) ∨
      Narrows K timeout len i sent := by
  induction i, sent using sendLoop_induction K timeout len with
  | done i sent hend =>
      rw [sendLoop_done hend] at hreturned
      cases hreturned
  | fail i sent hlt hfail =>
      rw [sendLoop_fail hlt hfail]
      by_cases hasked : 0 < (nextRequest timeout len sent).asked.toNat
      · exact .inl ⟨_, List.mem_singleton_self _, hasked, hfail⟩
      · rw [asked_toNat hlt] at hasked
        exact .inr ⟨i, sent, .here i sent, hlt,
          Nat.dvd_of_mod_eq_zero (Nat.eq_zero_of_not_pos hasked)⟩
  | next i sent hlt hpos ih =>
      rw [sendLoop_next hlt hpos] at hreturned ⊢
      rcases ih hreturned with ⟨op, hop, hreason⟩ | hnarrows
      · exact .inl ⟨op, List.mem_cons_of_mem _ hop, hreason⟩
      · exact .inr (narrows_of_next K timeout len hlt hpos hnarrows)

/-- After an operation that asks for nothing, the loop fails without a
reason. -/
theorem not_justified_of_narrows {i : ℕ} {sent : UInt64}
    (h : Narrows K timeout len i sent) :
    (sendLoop K timeout len i sent).returned = false ∧
      ¬Justified (sendLoop K timeout len i sent) := by
  obtain ⟨j, sent', hloops, hlt', hdvd⟩ := h
  induction hloops with
  | here i sent =>
      have hasked : (nextRequest timeout len sent).asked.toNat = 0 := by
        rw [asked_toNat hlt']
        exact Nat.mod_eq_zero_of_dvd hdvd
      have hfail : resultAt K timeout len i sent ≤ 0 := by
        have hlaw := K.lawful i (nextRequest timeout len sent)
        rw [hasked] at hlaw
        unfold resultAt
        omega
      rw [sendLoop_fail hlt' hfail]
      refine ⟨rfl, ?_⟩
      rintro ⟨op, hop, hpos, -⟩
      rw [List.mem_singleton.mp hop] at hpos
      exact absurd hpos (by rw [hasked]; exact Nat.lt_irrefl 0)
  | next hlt hpos _ ih =>
      obtain ⟨hreturned, hnot⟩ := ih hlt' hdvd
      rw [sendLoop_next hlt hpos]
      refine ⟨hreturned, ?_⟩
      rintro ⟨op, hop, hasked, hresult⟩
      rcases List.mem_cons.mp hop with rfl | hop
      · exact absurd hresult (not_le.mpr hpos)
      · exact hnot ⟨op, hop, hasked, hresult⟩

/-! ## Lengths -/

/-- What remains beyond a multiple of `2 ^ 32` is all that an operation asks
for, so a length from `2 ^ 32` on never gets below `2 ^ 32`. -/
theorem advance_far {i : ℕ} {sent : UInt64} (hlt : sent < len)
    (hpos : 0 < resultAt K timeout len i sent)
    (hfar : 2 ^ 32 ≤ len.toNat - sent.toNat) :
    2 ^ 32 ≤ len.toNat - (advance K timeout len i sent).toNat := by
  have hle := resultAt_le hlt hpos
  rw [advance_toNat hlt hpos]
  omega

/-- The kernel that hands over as much as it may. -/
def Kernel.willing : Kernel where
  result _ r := min r.asked.toNat (2 ^ 31 - 1)
  lawful i r := .inr ⟨by omega, by omega, by omega⟩

/-- A willing kernel brings a long buffer to an operation that asks for
nothing. -/
theorem narrows_willing (i : ℕ) (sent : UInt64)
    (hfar : 2 ^ 32 ≤ len.toNat - sent.toNat) :
    Narrows Kernel.willing timeout len i sent := by
  induction i, sent using sendLoop_induction Kernel.willing timeout len with
  | done i sent hend =>
      rw [UInt64.lt_iff_toNat_lt] at hend
      omega
  | fail i sent hlt hfail =>
      refine ⟨i, sent, .here i sent, hlt, Nat.dvd_of_mod_eq_zero ?_⟩
      have hasked : (nextRequest timeout len sent).asked.toNat = _ :=
        asked_toNat hlt
      rw [← hasked]
      simp only [resultAt, Kernel.willing] at hfail
      omega
  | next i sent hlt hpos ih =>
      exact narrows_of_next Kernel.willing timeout len hlt hpos
        (ih (advance_far Kernel.willing timeout len hlt hpos hfar))

theorem LoopsTo.le {i j : ℕ} {sent sent' : UInt64}
    (h : LoopsTo K timeout len i sent j sent') (hlt : sent' < len) :
    len.toNat - sent'.toNat ≤ len.toNat - sent.toNat := by
  induction h with
  | here => exact le_rfl
  | next hlt' hpos _ ih =>
      have hstep := advance_le hlt' hpos
      have hrest := ih hlt
      omega

/-! ## The whole buffer or a failure -/

structure SendsAllOrFails (o : Outcome) : Prop where
  within : o.sent ≤ len
  handedOver : o.operations.flatMap Operation.handedOver =
    List.range o.sent.toNat
  returned_iff : o.returned = true ↔ o.sent = len
  justified : o.returned = false → Justified o

theorem sendsAllOrFails_iff_not_narrows :
    SendsAllOrFails len (asyncSendAll K timeout len) ↔
      ¬Narrows K timeout len 0 0 := by
  constructor
  · intro h hnarrows
    obtain ⟨hreturned, hnot⟩ :=
      not_justified_of_narrows K timeout len hnarrows
    exact hnot (h.justified hreturned)
  · intro hnot
    obtain ⟨-, hwithin, hhanded, hreturned⟩ :=
      sends_sendLoop K timeout len 0 0 (UInt64.zero_le)
    refine ⟨hwithin, ?_, hreturned, fun hfalse => ?_⟩
    · rw [List.range_eq_range']
      exact hhanded
    · exact (justified_or_narrows K timeout len 0 0 hfalse).resolve_right hnot

/-- One sequence of results is handled as it should be if and only if no
operation is started while a positive multiple of `2 ^ 32` bytes remains.  All
sequences of results are if and only if the buffer is shorter than `2 ^ 32`
bytes. -/
theorem sendsAllOrFails_iff (timeout : ℤ) (len : UInt64) :
    (∀ K : Kernel, SendsAllOrFails len (asyncSendAll K timeout len) ↔
      ¬Narrows K timeout len 0 0) ∧
    ((∀ K : Kernel, SendsAllOrFails len (asyncSendAll K timeout len)) ↔
      len.toNat < 2 ^ 32) := by
  refine ⟨fun K => sendsAllOrFails_iff_not_narrows K timeout len, ?_⟩
  constructor
  · intro hall
    by_contra hfar
    refine (sendsAllOrFails_iff_not_narrows _ _ _).mp (hall .willing) ?_
    exact narrows_willing timeout len 0 0 (not_lt.mp hfar)
  · intro hshort K
    rw [sendsAllOrFails_iff_not_narrows]
    rintro ⟨j, sent', hloops, hlt, hdvd⟩
    have hle := hloops.le K timeout len hlt
    have hpos := UInt64.lt_iff_toNat_lt.mp hlt
    have := Nat.le_of_dvd (by omega) hdvd
    omega

/-- A buffer of `2 ^ 32` bytes: the first operation asks for nothing. -/
theorem not_forall_sendsAllOrFails :
    ¬(∀ (K : Kernel) (timeout : ℤ) (len : UInt64),
      SendsAllOrFails len (asyncSendAll K timeout len)) ∧
    asyncSendAll Kernel.willing 0 4294967296 =
      ⟨false, [⟨⟨0, 0, none⟩, 0⟩], 0⟩ := by
  have houtcome : asyncSendAll Kernel.willing 0 4294967296 =
      ⟨false, [⟨⟨0, 0, none⟩, 0⟩], 0⟩ :=
    sendLoop_fail (by decide) (by decide)
  refine ⟨fun hall => ?_, houtcome⟩
  have hjustified := (hall .willing 0 4294967296).justified
  rw [houtcome] at hjustified
  obtain ⟨op, hop, hasked, -⟩ := hjustified rfl
  rw [List.mem_singleton.mp hop] at hasked
  exact absurd hasked (by decide)

end IoUring
end Ethreads
