import Mathlib.Data.List.Basic
import Mathlib.Data.List.Nodup
import Mathlib.Data.List.Range
import Mathlib.Tactic.Common

/-!
# The submission queue

This module models `get_sqe`, `get_sqe_pair` and `submit` of
`src/io_uring_service.cpp` over an interface of `io_uring_get_sqe`, and the
part of `async_send_timeout` that prepares the two slots.

A queue has slots that are reserved and not yet sent, in the order in which a
submit sends them, and free slots, in the order in which they are reserved.
-/

namespace Ethreads
namespace IoUring

variable {ρ ν δ : Type*}

/-- What the service relies on: `io_uring_get_sqe` reserves the next free slot
and leaves its contents as they are, or changes nothing when the queue is full;
a slot is prepared by writing its contents. -/
structure RingApi (ρ ν δ : Type*) where
  getSqe : ρ → Option ν × ρ
  prep : ρ → ν → δ → ρ
  pending : ρ → List ν
  free : ρ → List ν
  contents : ρ → ν → δ
  nodup : ∀ q, (pending q ++ free q).Nodup
  getSqe_full : ∀ q, free q = [] → getSqe q = (none, q)
  getSqe_next : ∀ q v vs, free q = v :: vs →
    (getSqe q).1 = some v ∧ free (getSqe q).2 = vs ∧
      pending (getSqe q).2 = pending q ++ [v] ∧
      contents (getSqe q).2 = contents q
  pending_prep : ∀ q v e, pending (prep q v e) = pending q

namespace RingApi

variable (api : RingApi ρ ν δ)

/-! ## The functions of the service -/

/-- `io_uring_service::get_sqe`, where a null `ring_` is `none`. -/
def serviceGetSqe : Option ρ → Option ν × Option ρ
  | none => (none, none)
  | some q =>
      let a := api.getSqe q
      (a.1, some a.2)

/-- `io_uring_service::get_sqe_pair`. -/
def getSqePair : Option ρ → (Option ν × Option ν) × Option ρ
  | none => ((none, none), none)
  | some q =>
      let a := api.getSqe q
      let b := api.getSqe a.2
      match a.1, b.1 with
      | some v, some w => ((some v, some w), some b.2)
      | _, _ => ((none, none), some b.2)

/-- What the next `io_uring_service::submit` sends. -/
def sends : Option ρ → List ν
  | none => []
  | some q => api.pending q

/-- `async_send_timeout::await_suspend` up to its submit, with the slots that
it has prepared. -/
def prepareTimeout (send timeout : δ) (ring : Option ρ) :
    List ν × Option ρ :=
  let r := api.getSqePair ring
  match r.1 with
  | (some v, some w) =>
      ([v, w], r.2.map fun q => api.prep (api.prep q v send) w timeout)
  | _ => ([], r.2)

/-! ## All or nothing -/

/-- Two slots are reserved, or none is and the queue is what it was; the next
submit sends what it would have sent before and what the operation has
prepared. -/
structure AllOrNothing (ring : Option ρ) : Prop where
  pair : (∃ q q' v w, ring = some q ∧
      api.getSqePair ring = ((some v, some w), some q') ∧ v ≠ w ∧
        api.pending q' = api.pending q ++ [v, w] ∧
        api.contents q' = api.contents q) ∨
    api.getSqePair ring = ((none, none), ring)
  prepared : ∀ send timeout,
    ∀ v ∈ api.sends (api.prepareTimeout send timeout ring).2,
      v ∈ api.sends ring ∨ v ∈ (api.prepareTimeout send timeout ring).1

variable {api} {q : ρ} {v w : ν} {vs : List ν}

theorem getSqePair_full (hfree : api.free q = []) :
    api.getSqePair (some q) = ((none, none), some q) := by
  simp [getSqePair, api.getSqe_full q hfree]

theorem prepareTimeout_of_none {ring ring' : Option ρ}
    (h : api.getSqePair ring = ((none, none), ring')) (send timeout : δ) :
    api.prepareTimeout send timeout ring = ([], ring') := by
  simp [prepareTimeout, h]

/-- The first slot is gone although the operation is refused. -/
theorem getSqePair_half (hfree : api.free q = [v]) :
    ∃ q', api.getSqePair (some q) = ((none, none), some q') ∧
      api.pending q' = api.pending q ++ [v] := by
  obtain ⟨hfirst, hnone, hpending, -⟩ := api.getSqe_next q v [] hfree
  have hfull := api.getSqe_full (api.getSqe q).2 hnone
  exact ⟨(api.getSqe q).2, by simp [getSqePair, hfirst, hfull], hpending⟩

theorem getSqePair_both (hfree : api.free q = v :: w :: vs) :
    ∃ q', api.getSqePair (some q) = ((some v, some w), some q') ∧
      api.pending q' = api.pending q ++ [v, w] ∧
      api.contents q' = api.contents q := by
  obtain ⟨hfirst, hrest, hpending, hcontents⟩ :=
    api.getSqe_next q v (w :: vs) hfree
  obtain ⟨hsecond, -, hpending', hcontents'⟩ :=
    api.getSqe_next (api.getSqe q).2 w vs hrest
  refine ⟨(api.getSqe (api.getSqe q).2).2, ?_, ?_, ?_⟩
  · simp [getSqePair, hfirst, hsecond]
  · rw [hpending', hpending, List.append_assoc]
    rfl
  · rw [hcontents', hcontents]

theorem ne_of_free (hfree : api.free q = v :: w :: vs) : v ≠ w := by
  have hnodup := (List.nodup_append.mp (api.nodup q)).2.1
  rw [hfree, List.nodup_cons] at hnodup
  rintro rfl
  exact hnodup.1 List.mem_cons_self

/-- A refusal that leaves the queue as it was. -/
theorem allOrNothing_of_none {ring : Option ρ}
    (h : api.getSqePair ring = ((none, none), ring)) :
    api.AllOrNothing ring := by
  refine ⟨.inr h, fun send timeout v hv => .inl ?_⟩
  rwa [prepareTimeout_of_none h] at hv

theorem allOrNothing_of_both (hfree : api.free q = v :: w :: vs) :
    api.AllOrNothing (some q) := by
  obtain ⟨q', hpair, hpending, hcontents⟩ := getSqePair_both hfree
  refine ⟨.inl ⟨q, q', v, w, rfl, hpair, ne_of_free hfree, hpending,
    hcontents⟩, fun send timeout u hu => ?_⟩
  simp only [prepareTimeout, hpair, Option.map_some, sends,
    api.pending_prep, hpending, List.mem_append] at hu ⊢
  exact hu

/-- With one free slot the operation is refused and the slot stays reserved, so
that the next submit sends what nobody has prepared. -/
theorem not_allOrNothing_of_half (hfree : api.free q = [v]) :
    ¬api.AllOrNothing (some q) := by
  intro h
  obtain ⟨q', hpair, hpending⟩ := getSqePair_half hfree
  have hnodup := List.nodup_append.mp (api.nodup q)
  have hv : v ∉ api.pending q := fun hv =>
    hnodup.2.2 v hv v (by rw [hfree]; exact List.mem_singleton_self v) rfl
  rcases h.pair with ⟨_, _, _, _, _, hboth, _⟩ | hnone
  · rw [hpair] at hboth
    cases hboth
  · rw [hpair] at hnone
    cases hnone
    rw [hpending] at hv
    exact hv (List.mem_append_right _ (List.mem_singleton_self v))

/-- `get_sqe_pair` is all-or-nothing if and only if the number of free slots is
not one. -/
theorem allOrNothing_iff (api : RingApi ρ ν δ) (ring : Option ρ) :
    api.AllOrNothing ring ↔
      ∀ q, ring = some q → (api.free q).length ≠ 1 := by
  constructor
  · rintro h q rfl hone
    obtain ⟨v, hfree⟩ := List.length_eq_one_iff.mp hone
    exact not_allOrNothing_of_half hfree h
  · intro hlength
    cases ring with
    | none => exact allOrNothing_of_none rfl
    | some q =>
        match hfree : api.free q with
        | [] => exact allOrNothing_of_none (getSqePair_full hfree)
        | [v] => exact absurd (by rw [hfree]; rfl) (hlength q rfl)
        | v :: w :: vs => exact allOrNothing_of_both hfree

end RingApi

/-! ## Queues with counters -/

/-- A submission queue.  A slot is named by the number of reservations before
it; what it holds until it is prepared is stale. -/
structure SubmissionQueue (δ : Type*) where
  capacity : ℕ
  head : ℕ
  tail : ℕ
  sqe : ℕ → δ
  head_le : head ≤ tail
  tail_le : tail ≤ head + capacity

namespace SubmissionQueue

/-- The slots that are reserved and not yet sent. -/
def pending (q : SubmissionQueue δ) : List ℕ :=
  List.range' q.head (q.tail - q.head)

/-- The slots that are free, in the order in which they are reserved. -/
def free (q : SubmissionQueue δ) : List ℕ :=
  List.range' q.tail (q.head + q.capacity - q.tail)

def advance (q : SubmissionQueue δ) (h : q.tail < q.head + q.capacity) :
    SubmissionQueue δ :=
  { q with
    tail := q.tail + 1
    head_le := Nat.le_succ_of_le q.head_le
    tail_le := h }

/-- `io_uring_get_sqe`. -/
def getSqe (q : SubmissionQueue δ) : Option ℕ × SubmissionQueue δ :=
  if h : q.tail < q.head + q.capacity then (some q.tail, q.advance h)
  else (none, q)

def prep (q : SubmissionQueue δ) (v : ℕ) (e : δ) : SubmissionQueue δ :=
  { q with sqe := Function.update q.sqe v e }

/-- `io_uring_submit` of which the kernel takes the first `k` entries: the
entries and the queue that is left. -/
def submit (q : SubmissionQueue δ) (k : ℕ) : List δ × SubmissionQueue δ :=
  ((q.pending.take k).map q.sqe,
    { q with
      head := q.head + min k (q.tail - q.head)
      head_le := by have := q.head_le; omega
      tail_le := by have := q.tail_le; omega })

theorem nodup_slots (q : SubmissionQueue δ) :
    (q.pending ++ q.free).Nodup := by
  have hhead := q.head_le
  have htail : q.free =
      List.range' (q.head + (q.tail - q.head))
        (q.head + q.capacity - q.tail) := by
    rw [free, Nat.add_sub_cancel' hhead]
  rw [htail, pending, List.range'_append_1]
  exact List.nodup_range'

theorem pending_advance (q : SubmissionQueue δ)
    (h : q.tail < q.head + q.capacity) :
    (q.advance h).pending = q.pending ++ [q.tail] := by
  have hhead := q.head_le
  have hlen : q.tail + 1 - q.head = q.tail - q.head + 1 := by omega
  simp only [pending, advance]
  rw [hlen, List.range'_concat, Nat.one_mul, Nat.add_sub_cancel' hhead]

theorem free_of_lt (q : SubmissionQueue δ)
    (h : q.tail < q.head + q.capacity) :
    q.free = q.tail :: (q.advance h).free := by
  obtain ⟨n, hn⟩ := Nat.exists_eq_succ_of_ne_zero
    (Nat.sub_ne_zero_of_lt h)
  have hn' : q.head + q.capacity - (q.tail + 1) = n := by omega
  simp only [free, advance]
  rw [hn, hn', List.range'_succ]

def api (δ : Type*) : RingApi (SubmissionQueue δ) ℕ δ where
  getSqe := getSqe
  prep := prep
  pending := pending
  free := free
  contents := sqe
  nodup := nodup_slots
  getSqe_full q hfree := by
    refine dif_neg fun h => ?_
    rw [q.free_of_lt h] at hfree
    cases hfree
  getSqe_next q v vs hfree := by
    by_cases h : q.tail < q.head + q.capacity
    · rw [q.free_of_lt h] at hfree
      cases hfree
      rw [getSqe, dif_pos h]
      exact ⟨rfl, rfl, q.pending_advance h, rfl⟩
    · rw [free, Nat.sub_eq_zero_of_le (not_lt.mp h)] at hfree
      cases hfree
  pending_prep _ _ _ := rfl

/-! ### What the operations leave -/

theorem nodup_pending (q : SubmissionQueue δ) : q.pending.Nodup :=
  (List.nodup_append.mp q.nodup_slots).1

theorem lt_tail_of_mem_pending {q : SubmissionQueue δ} {v : ℕ}
    (hv : v ∈ q.pending) : v < q.tail := by
  rw [pending, List.mem_range'_1] at hv
  omega

theorem pending_submit (q : SubmissionQueue δ) (k : ℕ) :
    (q.submit k).2.pending = q.pending.drop k := by
  simp only [submit, pending, List.drop_range']
  by_cases hk : k ≤ q.tail - q.head
  · rw [Nat.min_eq_left hk, Nat.mul_one, Nat.sub_add_eq]
  · have hall : q.tail - q.head ≤ k := Nat.le_of_not_le hk
    rw [Nat.min_eq_right hall, Nat.sub_eq_zero_of_le hall]
    have hnone : q.tail - (q.head + (q.tail - q.head)) = 0 := by omega
    rw [hnone]
    rfl

theorem serviceGetSqe_cases (ring : Option (SubmissionQueue δ)) :
    (∃ q h, ring = some q ∧ (api δ).serviceGetSqe ring =
      (some q.tail, some (q.advance h))) ∨
    (api δ).serviceGetSqe ring = (none, ring) := by
  cases ring with
  | none => exact .inr rfl
  | some q =>
      by_cases h : q.tail < q.head + q.capacity
      · exact .inl ⟨q, h, rfl, by
          simp [RingApi.serviceGetSqe, api, getSqe, h]⟩
      · exact .inr (by simp [RingApi.serviceGetSqe, api, getSqe, h])

/-- Two slots are taken, or the only free one is given away, or there is none
and nothing changes. -/
theorem getSqePair_cases (ring : Option (SubmissionQueue δ)) :
    (∃ q h h', ring = some q ∧ (api δ).getSqePair ring =
      ((some q.tail, some (q.tail + 1)), some ((q.advance h).advance h'))) ∨
    (∃ q h, ring = some q ∧ q.free.length = 1 ∧
      (api δ).getSqePair ring = ((none, none), some (q.advance h))) ∨
    (api δ).getSqePair ring = ((none, none), ring) := by
  cases ring with
  | none => exact .inr (.inr rfl)
  | some q =>
      by_cases h : q.tail < q.head + q.capacity
      · by_cases h' : (q.advance h).tail <
            (q.advance h).head + (q.advance h).capacity
        · refine .inl ⟨q, h, h', rfl, ?_⟩
          simp only [RingApi.getSqePair, api, getSqe, dif_pos h, dif_pos h']
          rfl
        · refine .inr (.inl ⟨q, h, rfl, ?_, ?_⟩)
          · rw [q.free_of_lt h, free,
              Nat.sub_eq_zero_of_le (not_lt.mp h')]
            rfl
          · simp only [RingApi.getSqePair, api, getSqe, dif_pos h, dif_neg h']
      · refine .inr (.inr ?_)
        simp only [RingApi.getSqePair, api, getSqe, dif_neg h]

end SubmissionQueue

/-- A queue of 256 slots of which 255 are reserved. -/
def almostFull : SubmissionQueue ℕ :=
  ⟨256, 0, 255, fun v => v, by decide, by decide⟩

/-- The pair is refused, and the next submit sends one slot more. -/
theorem not_forall_allOrNothing :
    (¬∀ (api : RingApi (SubmissionQueue ℕ) ℕ ℕ)
      (ring : Option (SubmissionQueue ℕ)), api.AllOrNothing ring) ∧
    ((SubmissionQueue.api ℕ).getSqePair (some almostFull)).1 = (none, none) ∧
    (SubmissionQueue.api ℕ).sends
        ((SubmissionQueue.api ℕ).prepareTimeout 0 0 (some almostFull)).2 =
      almostFull.pending ++ [255] := by
  have hfree : (SubmissionQueue.api ℕ).free almostFull = [255] := rfl
  obtain ⟨q', hpair, hpending⟩ := RingApi.getSqePair_half hfree
  refine ⟨fun hall => ?_, by rw [hpair], ?_⟩
  · exact RingApi.not_allOrNothing_of_half hfree (hall _ _)
  · rw [RingApi.prepareTimeout_of_none hpair]
    exact hpending

end IoUring
end Ethreads
