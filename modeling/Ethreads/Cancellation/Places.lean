import Ethreads.Cancellation.Winner
import Mathlib.Data.List.InsertIdx
import Mathlib.Data.List.Perm.Basic

/-!
# Where a callback is

A callback is still to be registered, or has been invoked by its registration,
or is in `callbacks_`, or in the vector that a call of `cancel` runs through, or
has been invoked by that call, or was erased.  The invariant says that each
callback is in one place only, and that the two vectors, the calls and the
record agree with it.
-/

namespace Ethreads
namespace Cancellation

variable {ρ υ κ : Type*}

inductive Place (κ : Type*)
  | fresh
  | itself
  | listed
  | collected (c : κ)
  | invoked (c : κ)
  | erased
  deriving DecidableEq, Repr

/-- Who has invoked the callback in a place. -/
def Place.invocations : Place κ → List (Invoker κ)
  | itself => [.itself]
  | invoked c => [.canceller c]
  | _ => []

def Place.wasListed : Place κ → Bool
  | fresh | itself => false
  | _ => true

/-- The vector of a call of `cancel` takes the listed callbacks. -/
def Place.collectedBy (c : κ) : Place κ → Place κ
  | listed => collected c
  | p => p

/-- The callbacks that a call of `cancel` still has to start. -/
def CancelPc.cbs : CancelPc ρ → List ρ
  | unlock cbs | run cbs | running _ cbs => cbs
  | _ => []

/-- Where the callback of a registration can be. -/
def RegisterPc.Allows (p : Place κ) : RegisterPc → Prop
  | idle | lock | load | invoke | push => p = .fresh
  | running => p = .itself
  | unlock id | returned id =>
      (id = 0 → p = .itself) ∧ (id ≠ 0 → p.wasListed = true)

structure Placed (s : State ρ υ κ) (place : ρ → Place κ) : Prop where
  nodup : s.callbacks.Nodup
  listed : ∀ r, r ∈ s.callbacks ↔ place r = .listed
  nodupCbs : ∀ c, (s.cancel c).cbs.Nodup
  collected : ∀ c r, r ∈ (s.cancel c).cbs ↔ place r = .collected c
  invocations : ∀ r, s.invocations r = (place r).invocations
  erased : ∀ r, s.erased r = true ↔ place r = .erased
  register : ∀ r, (s.register r).Allows (place r)

def RegisterPc.id : RegisterPc → ℕ
  | unlock id | returned id => id
  | _ => 0

/-- `callback_ids_` holds the ids of `callbacks_`, and each id was handed out
once. -/
structure Identified (s : State ρ υ κ) : Prop where
  ids : s.callbackIds = s.callbacks.map fun r => (s.register r).id
  positive : 0 < s.nextId
  below : ∀ r, (s.register r).id < s.nextId
  distinct : ∀ r q, (s.register r).id ≠ 0 →
    (s.register r).id = (s.register q).id → r = q

theorem Identified.length {s : State ρ υ κ} (h : Identified s) :
    s.callbacks.length = s.callbackIds.length := by
  rw [h.ids, List.length_map]

theorem collectedBy_eq_listed {c : κ} {p : Place κ} :
    ¬p.collectedBy c = .listed := by
  cases p <;> simp [Place.collectedBy]

theorem collectedBy_eq_collected {c d : κ} {p : Place κ} :
    p.collectedBy c = .collected d ↔
      p = .collected d ∨ p = .listed ∧ c = d := by
  cases p <;> simp [Place.collectedBy]

theorem collectedBy_eq_erased {c : κ} {p : Place κ} :
    p.collectedBy c = .erased ↔ p = .erased := by
  cases p <;> simp [Place.collectedBy]

theorem invocations_collectedBy (c : κ) (p : Place κ) :
    (p.collectedBy c).invocations = p.invocations := by
  cases p <;> rfl

theorem allows_collectedBy {c : κ} {p : Place κ} {q : RegisterPc}
    (h : q.Allows p) : q.Allows (p.collectedBy c) := by
  cases p with
  | listed =>
      cases q with
      | unlock id | returned id =>
          exact ⟨fun hid => absurd (h.1 hid) nofun, fun _ => rfl⟩
      | _ => exact nomatch h
  | _ => exact h

/-- Once collected, a callback can be invoked without a step of its
registration. -/
theorem allows_invoked {c : κ} {q : RegisterPc}
    (h : q.Allows (.collected c)) : q.Allows (.invoked c) := by
  cases q with
  | unlock id | returned id =>
      exact ⟨fun hid => absurd (h.1 hid) nofun, fun _ => rfl⟩
  | _ => exact nomatch h

/-- Once listed, a callback can be erased without a step of its
registration. -/
theorem allows_erased {q : RegisterPc}
    (h : q.Allows (.listed : Place κ)) : q.Allows (.erased : Place κ) := by
  cases q with
  | unlock id | returned id =>
      exact ⟨fun hid => absurd (h.1 hid) nofun, fun _ => rfl⟩
  | _ => exact nomatch h

section Steps

variable [DecidableEq ρ] [DecidableEq υ] [DecidableEq κ] {s s' : State ρ υ κ}
  {a : Action ρ υ κ} {place : ρ → Place κ}

omit [DecidableEq ρ] [DecidableEq υ] [DecidableEq κ] in
theorem Placed.of_same (h : Placed s place)
    (hcallbacks : s'.callbacks = s.callbacks)
    (hcbs : ∀ c, (s'.cancel c).cbs = (s.cancel c).cbs)
    (hinvocations : s'.invocations = s.invocations)
    (herased : s'.erased = s.erased)
    (hregister : ∀ r, (s.register r).Allows (place r) →
      (s'.register r).Allows (place r)) : Placed s' place where
  nodup := hcallbacks ▸ h.nodup
  listed := hcallbacks ▸ h.listed
  nodupCbs c := by
    rw [hcbs]
    exact h.nodupCbs c
  collected c r := by
    rw [hcbs]
    exact h.collected c r
  invocations := hinvocations ▸ h.invocations
  erased := herased ▸ h.erased
  register r := hregister r (h.register r)

omit [DecidableEq υ] [DecidableEq κ] in
theorem Placed.of_register (h : Placed s place) {r : ρ} {q : RegisterPc}
    (hregister : s'.register = Function.update s.register r q)
    (hcallbacks : s'.callbacks = s.callbacks) (hcancel : s'.cancel = s.cancel)
    (hinvocations : s'.invocations = s.invocations)
    (herased : s'.erased = s.erased)
    (hq : (s.register r).Allows (place r) → q.Allows (place r)) :
    Placed s' place := by
  refine h.of_same hcallbacks (fun c => by rw [hcancel]) hinvocations herased ?_
  intro r' hr'
  rw [hregister]
  by_cases hrr : r' = r
  · subst hrr
    rw [Function.update_self]
    exact hq hr'
  · rwa [Function.update_of_ne hrr]

omit [DecidableEq ρ] [DecidableEq υ] in
theorem Placed.of_cancel (h : Placed s place) {c : κ} {p q : CancelPc ρ}
    (hp : s.cancel c = p) (hcancel : s'.cancel = Function.update s.cancel c q)
    (hregister : s'.register = s.register)
    (hcallbacks : s'.callbacks = s.callbacks)
    (hinvocations : s'.invocations = s.invocations)
    (herased : s'.erased = s.erased) (hq : q.cbs = p.cbs) :
    Placed s' place := by
  refine h.of_same hcallbacks (fun d => ?_) hinvocations herased ?_
  · rw [hcancel]
    by_cases hdc : d = c
    · subst hdc
      rw [Function.update_self, hp, hq]
    · rw [Function.update_of_ne hdc]
  · rw [hregister]
    exact fun _ => id

omit [DecidableEq υ] [DecidableEq κ] in
/-- Where the callbacks are after one has moved. -/
theorem eq_iff_update_eq {r r' : ρ} {p p' q : Place κ} (hq : place r = q)
    (hnew : p ≠ p') (hold : q ≠ p') :
    place r' = p' ↔ Function.update place r p r' = p' := by
  by_cases hrr : r' = r
  · subst hrr
    rw [Function.update_self, hq]
    exact iff_of_false hold hnew
  · rw [Function.update_of_ne hrr]

omit [DecidableEq υ] [DecidableEq κ] in
/-- Where the callbacks are after one has moved to that place. -/
theorem update_eq_self_iff {r r' : ρ} {p : Place κ} :
    Function.update place r p r' = p ↔ r' = r ∨ place r' = p := by
  by_cases hrr : r' = r
  · subst hrr
    simp
  · simp [hrr]

theorem Placed.of_invoke (h : Placed s place) {r : ρ}
    (hr : s.register r = .invoke) :
    Placed (next s (.invoke r)) (Function.update place r .itself) := by
  have hplace : place r = .fresh := by
    have hallows := h.register r
    rw [hr] at hallows
    exact hallows
  refine ⟨h.nodup, fun r' => ?_, h.nodupCbs, fun c r' => ?_, fun r' => ?_,
    fun r' => ?_, fun r' => ?_⟩
  · exact (h.listed r').trans (eq_iff_update_eq hplace nofun nofun)
  · exact (h.collected c r').trans (eq_iff_update_eq hplace nofun nofun)
  · by_cases hrr : r' = r
    · subst hrr
      have hnone := h.invocations r'
      rw [hplace] at hnone
      simp [next, State.invokedBy, hnone, Place.invocations]
    · have hother : (next s (.invoke r)).invocations r' = s.invocations r' :=
        Function.update_of_ne hrr _ _
      rw [hother, Function.update_of_ne hrr]
      exact h.invocations r'
  · exact (h.erased r').trans
      (eq_iff_update_eq hplace (by simp) (by simp))
  · by_cases hrr : r' = r
    · subst hrr
      simp [next, State.registerTo, RegisterPc.Allows]
    · have hother : (next s (.invoke r)).register r' = s.register r' :=
        Function.update_of_ne hrr _ _
      rw [hother, Function.update_of_ne hrr]
      exact h.register r'

theorem Placed.of_push (h : Placed s place) (hpos : 0 < s.nextId) {r : ρ}
    (hr : s.register r = .push) :
    Placed (next s (.push r)) (Function.update place r .listed) := by
  have hplace : place r = .fresh := by
    have hallows := h.register r
    rw [hr] at hallows
    exact hallows
  have hout : r ∉ s.callbacks := by
    rw [h.listed, hplace]
    nofun
  refine ⟨?_, fun r' => ?_, h.nodupCbs, fun c r' => ?_, fun r' => ?_,
    fun r' => ?_, fun r' => ?_⟩
  · exact List.nodup_append.mpr ⟨h.nodup, List.nodup_singleton r,
      fun x hx y hy hxy => hout (List.mem_singleton.mp hy ▸ hxy ▸ hx)⟩
  · rw [update_eq_self_iff, ← h.listed r', or_comm]
    exact List.mem_append.trans (or_congr_right List.mem_singleton)
  · exact (h.collected c r').trans (eq_iff_update_eq hplace nofun nofun)
  · by_cases hrr : r' = r
    · subst hrr
      have hnone := h.invocations r'
      rw [hplace] at hnone
      simp [next, hnone, State.registerTo, Place.invocations]
    · rw [Function.update_of_ne hrr]
      exact h.invocations r'
  · exact (h.erased r').trans
      (eq_iff_update_eq hplace (by simp) (by simp))
  · by_cases hrr : r' = r
    · subst hrr
      simp [next, State.registerTo, RegisterPc.Allows, Place.wasListed,
        hpos.ne']
    · have hother : (next s (.push r)).register r' = s.register r' :=
        Function.update_of_ne hrr _ _
      rw [hother, Function.update_of_ne hrr]
      exact h.register r'

theorem Placed.of_swap (h : Placed s place) {c : κ}
    (hc : s.cancel c = .swap) :
    Placed (next s (.swap c)) fun r => (place r).collectedBy c := by
  have hself : (next s (.swap c)).cancel c = .unlock s.callbacks :=
    Function.update_self ..
  have hother : ∀ d, d ≠ c → (next s (.swap c)).cancel d = s.cancel d :=
    fun d hd => Function.update_of_ne hd _ _
  refine ⟨List.nodup_nil, fun r => ?_, fun d => ?_, fun d r => ?_,
    fun r => ?_, fun r => ?_, fun r => allows_collectedBy (h.register r)⟩
  · exact iff_of_false List.not_mem_nil collectedBy_eq_listed
  · by_cases hd : d = c
    · subst hd
      rw [hself]
      exact h.nodup
    · rw [hother d hd]
      exact h.nodupCbs d
  · rw [collectedBy_eq_collected]
    by_cases hd : d = c
    · subst hd
      have hbefore : place r ≠ .collected d := by
        rw [Ne, ← h.collected d r, hc]
        exact List.not_mem_nil
      rw [hself, or_iff_right hbefore, and_iff_left rfl]
      exact h.listed r
    · rw [hother d hd, h.collected d r]
      simp [Ne.symm hd]
  · rw [invocations_collectedBy]
    exact h.invocations r
  · rw [collectedBy_eq_erased]
    exact h.erased r

theorem Placed.of_start (h : Placed s place) {c : κ} {r : ρ} {cbs : List ρ}
    (hc : s.cancel c = .run (r :: cbs)) :
    Placed (next s (.start c r cbs))
      (Function.update place r (.invoked c)) := by
  have hself : (next s (.start c r cbs)).cancel c = .running r cbs :=
    Function.update_self ..
  have hother : ∀ d, d ≠ c → (next s (.start c r cbs)).cancel d =
      s.cancel d := fun d hd => Function.update_of_ne hd _ _
  have hnodup := h.nodupCbs c
  rw [hc] at hnodup
  have hplace : place r = .collected c := by
    rw [← h.collected c r, hc]
    exact List.mem_cons_self
  refine ⟨h.nodup, fun r' => ?_, fun d => ?_, fun d r' => ?_, fun r' => ?_,
    fun r' => ?_, fun r' => ?_⟩
  · exact (h.listed r').trans (eq_iff_update_eq hplace nofun nofun)
  · by_cases hd : d = c
    · subst hd
      rw [hself]
      exact (List.nodup_cons.mp hnodup).2
    · rw [hother d hd]
      exact h.nodupCbs d
  · by_cases hd : d = c
    · subst hd
      rw [hself]
      have hbefore := h.collected d r'
      rw [hc] at hbefore
      by_cases hrr : r' = r
      · subst hrr
        rw [Function.update_self]
        exact iff_of_false (List.nodup_cons.mp hnodup).1 nofun
      · rw [Function.update_of_ne hrr, ← hbefore]
        exact (List.mem_cons.trans (or_iff_right hrr)).symm
    · rw [hother d hd]
      refine (h.collected d r').trans (eq_iff_update_eq hplace nofun ?_)
      exact fun hcd => hd (Place.collected.inj hcd).symm
  · by_cases hrr : r' = r
    · subst hrr
      have hnone := h.invocations r'
      rw [hplace] at hnone
      simp [next, State.invokedBy, hnone, Place.invocations]
    · have hsame : (next s (.start c r cbs)).invocations r' =
          s.invocations r' := Function.update_of_ne hrr _ _
      rw [hsame, Function.update_of_ne hrr]
      exact h.invocations r'
  · exact (h.erased r').trans
      (eq_iff_update_eq hplace (by simp) (by simp))
  · by_cases hrr : r' = r
    · subst hrr
      have hallows := h.register r'
      rw [hplace] at hallows
      rw [Function.update_self]
      exact allows_invoked hallows
    · rw [Function.update_of_ne hrr]
      exact h.register r'

omit [DecidableEq υ] [DecidableEq κ] in
/-- The loop of `unregister_callback` finds nothing, or removes one callback
with its id. -/
theorem erase_spec (hlength : s.callbacks.length = s.callbackIds.length)
    (id : ℕ) :
    (id ∉ s.callbackIds ∧ s.erase id = s) ∨
    ∃ i r, s.callbacks[i]? = some r ∧ s.callbackIds[i]? = some id ∧
      s.erase id =
        { s with
          callbacks := s.callbacks.eraseIdx i
          callbackIds := s.callbackIds.eraseIdx i
          erased := Function.update s.erased r true } := by
  cases hindex : s.indexOf id with
  | none =>
      refine .inl ⟨fun hmem => ?_, by simp [State.erase, hindex]⟩
      have hnone := List.findIdx?_eq_none_iff.mp hindex id hmem
      simp at hnone
  | some i =>
      obtain ⟨hi, hid, -⟩ := List.findIdx?_eq_some_iff_getElem.mp hindex
      have hr : s.callbacks[i]? = some (s.callbacks.get ⟨i, hlength ▸ hi⟩) :=
        List.getElem?_eq_getElem _
      refine .inr ⟨i, _, hr, ?_, ?_⟩
      · rw [List.getElem?_eq_getElem hi, of_decide_eq_true hid]
      · simp [State.erase, hindex, State.erasedAt, hr]

omit [DecidableEq υ] [DecidableEq κ] in
theorem Placed.of_erase (h : Placed s place)
    (hlength : s.callbacks.length = s.callbackIds.length) (id : ℕ) :
    ∃ place', Placed (s.erase id) place' := by
  rcases erase_spec hlength id with ⟨-, hsame⟩ | ⟨i, r, hr, -, hnew⟩
  · rw [hsame]
    exact ⟨place, h⟩
  obtain ⟨hi, hri⟩ := List.getElem?_eq_some_iff.mp hr
  have hperm : (r :: s.callbacks.eraseIdx i).Perm s.callbacks :=
    hri ▸ List.getElem_cons_eraseIdx_perm hi
  have hnodup := List.nodup_cons.mp (hperm.nodup_iff.mpr h.nodup)
  have hplace : place r = .listed :=
    (h.listed r).mp (hperm.mem_iff.mp List.mem_cons_self)
  refine ⟨Function.update place r .erased, ?_⟩
  rw [hnew]
  refine ⟨hnodup.2, fun r' => ?_, h.nodupCbs, fun c r' => ?_, fun r' => ?_,
    fun r' => ?_, fun r' => ?_⟩
  · by_cases hrr : r' = r
    · subst hrr
      rw [Function.update_self]
      exact iff_of_false hnodup.1 nofun
    · rw [Function.update_of_ne hrr, ← h.listed r', ← hperm.mem_iff]
      exact (List.mem_cons.trans (or_iff_right hrr)).symm
  · exact (h.collected c r').trans (eq_iff_update_eq hplace nofun nofun)
  · by_cases hrr : r' = r
    · subst hrr
      have hnone := h.invocations r'
      rw [hplace] at hnone
      simpa [Place.invocations] using hnone
    · rw [Function.update_of_ne hrr]
      exact h.invocations r'
  · by_cases hrr : r' = r
    · subst hrr
      simp
    · have hother : Function.update s.erased r true r' = s.erased r' :=
        Function.update_of_ne hrr _ _
      rw [Function.update_of_ne hrr, ← h.erased r', ← hother]
  · by_cases hrr : r' = r
    · subst hrr
      have hallows := h.register r'
      rw [hplace] at hallows
      rw [Function.update_self]
      exact allows_erased hallows
    · rw [Function.update_of_ne hrr]
      exact h.register r'

/-! ## The ids -/

omit [DecidableEq ρ] [DecidableEq υ] [DecidableEq κ] in
theorem Identified.of_same (h : Identified s)
    (hcallbacks : s'.callbacks = s.callbacks)
    (hids : s'.callbackIds = s.callbackIds) (hnext : s'.nextId = s.nextId)
    (hid : ∀ r, (s'.register r).id = (s.register r).id) : Identified s' := by
  have hsame : (fun r => (s'.register r).id) = fun r => (s.register r).id :=
    funext hid
  constructor
  · rw [hids, hcallbacks, hsame]
    exact h.ids
  · rw [hnext]
    exact h.positive
  · intro r
    rw [hid, hnext]
    exact h.below r
  · intro r q
    rw [hid, hid]
    exact h.distinct r q

omit [DecidableEq υ] [DecidableEq κ] in
theorem Identified.of_register (h : Identified s) {r : ρ}
    {p q : RegisterPc} (hp : s.register r = p)
    (hregister : s'.register = Function.update s.register r q)
    (hcallbacks : s'.callbacks = s.callbacks)
    (hids : s'.callbackIds = s.callbackIds) (hnext : s'.nextId = s.nextId)
    (hid : q.id = p.id) : Identified s' := by
  refine h.of_same hcallbacks hids hnext fun r' => ?_
  rw [hregister]
  by_cases hrr : r' = r
  · subst hrr
    rw [Function.update_self, hp, hid]
  · rw [Function.update_of_ne hrr]

theorem Identified.of_push (h : Identified s) (hplaced : Placed s place)
    {r : ρ} (hr : s.register r = .push) : Identified (next s (.push r)) := by
  have hself : (next s (.push r)).register r = .unlock s.nextId :=
    Function.update_self ..
  have hother : ∀ q, q ≠ r → (next s (.push r)).register q = s.register q :=
    fun q hq => Function.update_of_ne hq _ _
  have hout : r ∉ s.callbacks := by
    have hallows := hplaced.register r
    rw [hr] at hallows
    rw [hplaced.listed, hallows]
    nofun
  have hbelow : ∀ q, q ≠ r → ((next s (.push r)).register q).id < s.nextId := by
    intro q hq
    rw [hother q hq]
    exact h.below q
  refine ⟨?_, Nat.succ_pos _, fun q => ?_, fun q q' hq hqq => ?_⟩
  · change s.callbackIds ++ [s.nextId] = (s.callbacks ++ [r]).map _
    rw [List.map_append, List.map_singleton, hself, h.ids]
    congr 1
    refine List.map_congr_left fun q hq => ?_
    rw [hother q fun hqr => hout (hqr ▸ hq)]
  · by_cases hqr : q = r
    · subst hqr
      rw [hself]
      exact Nat.lt_succ_self _
    · exact (hbelow q hqr).trans (Nat.lt_succ_self _)
  · by_cases hqr : q = r
    · by_cases hqr' : q' = r
      · rw [hqr, hqr']
      · have hlt := hbelow q' hqr'
        rw [← hqq, hqr, hself] at hlt
        exact absurd hlt (lt_irrefl _)
    · by_cases hqr' : q' = r
      · have hlt := hbelow q hqr
        rw [hqq, hqr', hself] at hlt
        exact absurd hlt (lt_irrefl _)
      · rw [hother q hqr] at hq hqq
        rw [hother q' hqr'] at hqq
        exact h.distinct q q' hq hqq

omit [DecidableEq υ] [DecidableEq κ] in
theorem Identified.of_erase (h : Identified s) (id : ℕ) :
    Identified (s.erase id) := by
  rcases erase_spec h.length id with ⟨-, hsame⟩ | ⟨i, r, -, -, hnew⟩
  · rwa [hsame]
  · rw [hnew]
    refine ⟨?_, h.positive, h.below, h.distinct⟩
    change s.callbackIds.eraseIdx i = (s.callbacks.eraseIdx i).map _
    rw [h.ids, List.eraseIdx_map]

theorem identified_next (h : Identified s) (hplaced : Placed s place)
    (ha : Enabled s a) : Identified (next s a) := by
  cases a with
  | callRegister r | invoke r | invoked r | unlockRegister r id =>
      exact h.of_register ha rfl rfl rfl rfl rfl
  | lockRegister r => exact h.of_register ha.1 rfl rfl rfl rfl rfl
  | loadRegister r =>
      refine h.of_register ha rfl rfl rfl rfl ?_
      cases s.cancelled <;> rfl
  | push r => exact h.of_push hplaced ha
  | swap c => exact ⟨rfl, h.positive, h.below, h.distinct⟩
  | erase u id => exact (h.of_erase id).of_same rfl rfl rfl fun _ => rfl
  | _ => exact h.of_same rfl rfl rfl fun _ => rfl

/-! ## Runs -/

theorem placed_next (h : Placed s place) (hid : Identified s)
    (ha : Enabled s a) : ∃ place', Placed (next s a) place' := by
  cases a with
  | callRegister r =>
      have hr : s.register r = .idle := ha
      exact ⟨place, h.of_register rfl rfl rfl rfl rfl (hr ▸ fun hp => hp)⟩
  | lockRegister r =>
      exact ⟨place, h.of_register rfl rfl rfl rfl rfl (ha.1 ▸ fun hp => hp)⟩
  | loadRegister r =>
      have hr : s.register r = .load := ha
      refine ⟨place, h.of_register rfl rfl rfl rfl rfl ?_⟩
      rw [hr]
      cases s.cancelled <;> exact fun hp => hp
  | invoke r => exact ⟨_, h.of_invoke ha⟩
  | invoked r =>
      have hr : s.register r = .running := ha
      refine ⟨place, h.of_register rfl rfl rfl rfl rfl ?_⟩
      rw [hr]
      exact fun hp => ⟨fun _ => hp, fun hne => absurd rfl hne⟩
  | push r => exact ⟨_, h.of_push hid.positive ha⟩
  | unlockRegister r id =>
      have hr : s.register r = .unlock id := ha
      exact ⟨place, h.of_register rfl rfl rfl rfl rfl (hr ▸ fun hp => hp)⟩
  | callUnregister u id | testZero u id | loadFast u id | lockUnregister u id
  | loadUnregister u id | unlockUnregister u id =>
      exact ⟨place, h.of_same rfl (fun _ => rfl) rfl rfl fun _ hr => hr⟩
  | erase u id =>
      obtain ⟨place', h'⟩ := h.of_erase hid.length id
      exact ⟨place', h'.of_same rfl (fun _ => rfl) rfl rfl fun _ hr => hr⟩
  | callCancel c | unlockCancel c cbs | finish c r cbs | runDone c
  | wakeAll c =>
      exact ⟨place, h.of_cancel ha rfl rfl rfl rfl rfl rfl⟩
  | exchange c =>
      refine ⟨place, h.of_cancel ha rfl rfl rfl rfl rfl ?_⟩
      cases s.cancelled <;> rfl
  | lockCancel c => exact ⟨place, h.of_cancel ha.1 rfl rfl rfl rfl rfl rfl⟩
  | swap c => exact ⟨_, h.of_swap ha⟩
  | start c r cbs => exact ⟨_, h.of_start ha⟩

/-- The callbacks are placed and identified in every reachable state. -/
theorem placed_reachable (hs : (system ρ υ κ).Reachable s) :
    Identified s ∧ ∃ place, Placed s place := by
  refine hs.invariant (fun s => Identified s ∧ ∃ place, Placed s place) ?_ ?_
  · rintro s rfl
    refine ⟨⟨rfl, Nat.one_pos, fun _ => Nat.one_pos,
      fun _ _ hid => absurd rfl hid⟩, fun _ => .fresh, ?_⟩
    exact ⟨List.nodup_nil, fun _ => iff_of_false List.not_mem_nil nofun,
      fun _ => List.nodup_nil,
      fun _ _ => iff_of_false List.not_mem_nil nofun, fun _ => rfl,
      fun _ => iff_of_false nofun nofun, fun _ => rfl⟩
  · rintro s a ⟨hid, place, h⟩ ha
    exact ⟨identified_next hid h ha, placed_next h hid ha⟩

end Steps

end Cancellation
end Ethreads
