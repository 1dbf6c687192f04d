import Ethreads.ContinuationHandoff.Model

/-!
# Who resumes the continuation

The ready flag is set by exactly one `set_ready`, and the address is stored by
exactly one `set_continuation`.  Whichever of the two exchanges comes second
finds the other's part in the word it replaces, and its call is the one told to
resume.
-/

namespace Ethreads
namespace ContinuationHandoff

open CoroTask (Handle isReady hasContinuation withReady withContinuation
  afterExchange addrMask readyFlag)

variable {π κ : Type*} {noop : BitVec 64}

/-! ## What a call is told -/

/-- The call is told to resume the continuation. -/
def ProducerPc.told : ProducerPc → Bool
  | returned resume => resume
  | resuming _ => true
  | _ => false

def ProducerPc.ended : ProducerPc → Bool
  | returned _ | resuming _ => true
  | _ => false

/-- The call is told to resume the handle with the address it was given. -/
def ConsumerPc.told (address : BitVec 64) : ConsumerPc → Bool
  | returned toResume => toResume = address
  | _ => false

def ConsumerPc.ended : ConsumerPc → Bool
  | returned _ => true
  | _ => false

def Told (handle : κ → Handle noop) (s : State π κ) : π ⊕ κ → Prop
  | .inl p => (s.producer p).told = true
  | .inr c => (s.consumer c).told (handle c).address = true

def storedAddress (handle : κ → Handle noop) : Option κ → BitVec 64
  | none => 0
  | some c => (handle c).address

/-! ## The word -/

theorem hasContinuation_eq_isSome {handle : κ → Handle noop}
    {word : BitVec 64} {first : Option κ}
    (h : word &&& addrMask = storedAddress handle first) :
    hasContinuation word = first.isSome := by
  unfold hasContinuation
  rw [h]
  cases first with
  | none => rfl
  | some c => exact bne_iff_ne.mpr (handle c).ne_zero

/-- The word and what the calls have seen of it. -/
structure Stored (handle : κ → Handle noop) (s : State π κ) : Prop where
  word : s.word &&& addrMask = storedAddress handle s.first
  seenReady : ∀ p old, s.producer p = .loop old → isReady old = true →
    isReady s.word = true
  seenContinuation : ∀ c old, s.consumer c = .loop old →
    hasContinuation old = true → s.first.isSome = true
  producers : ∀ p, (s.producer p).ended = true → isReady s.word = true
  consumers : ∀ c, (s.consumer c).ended = true → s.first.isSome = true

/-- Exactly one call is told to resume once both sides have stored their
part. -/
structure OneTold (handle : κ → Handle noop) (s : State π κ) : Prop where
  both : ∀ x, Told handle s x → isReady s.word = true ∧ s.first.isSome = true
  unique : ∀ x y, Told handle s x → Told handle s y → x = y
  exists_told : isReady s.word = true → s.first.isSome = true →
    ∃ x, Told handle s x
  consumer : ∀ c, Told handle s (.inr c) → s.first = some c
  resuming : ∀ p a, s.producer p = .resuming a →
    ∃ c, s.first = some c ∧ a = (handle c).address

variable [DecidableEq π] [DecidableEq κ] {handle : κ → Handle noop}
  {s s' : State π κ}

/-! ## The step lemmas -/

section Steps

variable {p : π} {c : κ} {q : ProducerPc} {r : ConsumerPc}

omit [DecidableEq κ] in
/-- A call of `set_ready` goes on, and the word only gains the flag. -/
theorem Stored.of_producer (h : Stored handle s)
    (hproducer : s'.producer = Function.update s.producer p q)
    (hconsumer : s'.consumer = s.consumer) (hfirst : s'.first = s.first)
    (hword : s'.word &&& addrMask = s.word &&& addrMask)
    (hready : isReady s.word = true → isReady s'.word = true)
    (hseen : ∀ old, q = .loop old → isReady old = true →
      isReady s'.word = true)
    (hended : q.ended = true → isReady s'.word = true) :
    Stored handle s' := by
  constructor
  · rw [hword, hfirst, h.word]
  · intro u old hu hold
    rw [hproducer] at hu
    by_cases hup : u = p
    · subst hup
      rw [Function.update_self] at hu
      exact hseen old hu hold
    · rw [Function.update_of_ne hup] at hu
      exact hready (h.seenReady u old hu hold)
  · rw [hconsumer, hfirst]
    exact h.seenContinuation
  · intro u hu
    rw [hproducer] at hu
    by_cases hup : u = p
    · subst hup
      rw [Function.update_self] at hu
      exact hended hu
    · rw [Function.update_of_ne hup] at hu
      exact hready (h.producers u hu)
  · rw [hconsumer, hfirst]
    exact h.consumers

omit [DecidableEq π] in
/-- A call of `set_continuation` goes on, and the flag stays. -/
theorem Stored.of_consumer (h : Stored handle s)
    (hproducer : s'.producer = s.producer)
    (hconsumer : s'.consumer = Function.update s.consumer c r)
    (hword : s'.word &&& addrMask = storedAddress handle s'.first)
    (hready : isReady s'.word = isReady s.word)
    (hfirst : s.first.isSome = true → s'.first.isSome = true)
    (hseen : ∀ old, r = .loop old → hasContinuation old = true →
      s'.first.isSome = true)
    (hended : r.ended = true → s'.first.isSome = true) :
    Stored handle s' := by
  constructor
  · exact hword
  · rw [hproducer, hready]
    exact h.seenReady
  · intro u old hu hold
    rw [hconsumer] at hu
    by_cases huc : u = c
    · subst huc
      rw [Function.update_self] at hu
      exact hseen old hu hold
    · rw [Function.update_of_ne huc] at hu
      exact hfirst (h.seenContinuation u old hu hold)
  · rw [hproducer, hready]
    exact h.producers
  · intro u hu
    rw [hconsumer] at hu
    by_cases huc : u = c
    · subst huc
      rw [Function.update_self] at hu
      exact hended hu
    · rw [Function.update_of_ne huc] at hu
      exact hfirst (h.consumers u hu)

theorem told_update_producer
    (hproducer : s'.producer = Function.update s.producer p q)
    (hconsumer : s'.consumer = s.consumer) : ∀ x, Told handle s' x ↔
      if x = .inl p then q.told = true else Told handle s x := by
  intro x
  cases x with
  | inl u =>
      by_cases hu : u = p
      · subst hu
        simp [Told, hproducer]
      · simp [Told, hproducer, hu]
  | inr c => simp [Told, hconsumer]

theorem told_update_consumer (hproducer : s'.producer = s.producer)
    (hconsumer : s'.consumer = Function.update s.consumer c r) :
    ∀ x, Told handle s' x ↔
      if x = .inr c then r.told (handle c).address = true
        else Told handle s x := by
  intro x
  cases x with
  | inl u => simp [Told, hproducer]
  | inr u =>
      by_cases hu : u = c
      · subst hu
        simp [Told, hconsumer]
      · simp [Told, hconsumer, hu]

omit [DecidableEq π] [DecidableEq κ] in
/-- A step that stores nothing and tells nobody. -/
theorem OneTold.of_same (h : OneTold handle s)
    (htold : ∀ x, Told handle s' x ↔ Told handle s x)
    (hword : s'.word = s.word) (hfirst : s'.first = s.first)
    (hresuming : ∀ p a, s'.producer p = .resuming a →
      ∃ c, s'.first = some c ∧ a = (handle c).address) :
    OneTold handle s' := by
  refine ⟨?_, ?_, ?_, ?_, hresuming⟩
  · intro x hx
    rw [hword, hfirst]
    exact h.both x ((htold x).mp hx)
  · intro x y hx hy
    exact h.unique x y ((htold x).mp hx) ((htold y).mp hy)
  · intro hready hsome
    rw [hword] at hready
    rw [hfirst] at hsome
    obtain ⟨x, hx⟩ := h.exists_told hready hsome
    exact ⟨x, (htold x).mpr hx⟩
  · intro c hc
    rw [hfirst]
    exact h.consumer c ((htold _).mp hc)

/-- A step that stores one of the two parts and tells its call `x` exactly if
the other part is there. -/
theorem OneTold.of_store (h : OneTold handle s) {x : π ⊕ κ} {b : Bool}
    (hbefore : ¬(isReady s.word = true ∧ s.first.isSome = true))
    (htold : ∀ y, Told handle s' y ↔
      if y = x then b = true else Told handle s y)
    (hboth : b = true ↔ isReady s'.word = true ∧ s'.first.isSome = true)
    (hconsumer : ∀ c, x = .inr c → s'.first = some c)
    (hresuming : ∀ p a, s'.producer p ≠ .resuming a) : OneTold handle s' := by
  have hnobody : ∀ y, ¬Told handle s y := fun y hy => hbefore (h.both y hy)
  have honly : ∀ y, Told handle s' y → y = x ∧ b = true := by
    intro y hy
    by_cases hyx : y = x
    · have hb := (htold y).mp hy
      rw [if_pos hyx] at hb
      exact ⟨hyx, hb⟩
    · have hb := (htold y).mp hy
      rw [if_neg hyx] at hb
      exact absurd hb (hnobody y)
  constructor
  · intro y hy
    exact hboth.mp (honly y hy).2
  · intro y z hy hz
    rw [(honly y hy).1, (honly z hz).1]
  · intro hready hsome
    refine ⟨x, (htold x).mpr ?_⟩
    rw [if_pos rfl]
    exact hboth.mpr ⟨hready, hsome⟩
  · intro c hc
    exact hconsumer c (honly _ hc).1.symm
  · intro p a hp
    exact absurd hp (hresuming p a)

end Steps

theorem stored_next {a : Action π κ} (h : Stored handle s) (ha : Enabled s a) :
    Stored handle (next handle s a) := by
  cases a with
  | loadReady p =>
      refine h.of_producer rfl rfl rfl rfl id ?_ nofun
      rintro old heq hold
      cases heq
      exact hold
  | alreadyReady p old =>
      have hready := h.seenReady p old ha.1 ha.2
      exact h.of_producer rfl rfl rfl rfl id nofun fun _ => hready
  | setReady p old =>
      obtain ⟨-, -, rfl⟩ := ha
      have hset : isReady (withReady s.word) = true :=
        CoroTask.isReady_withReady _
      refine h.of_producer rfl rfl rfl ?_ (fun _ => hset) nofun fun _ => hset
      exact CoroTask.withReady_and_addrMask s.word
  | setReadyFails p old =>
      refine h.of_producer rfl rfl rfl rfl id ?_ nofun
      rintro old' heq hold
      cases heq
      exact hold
  | getContinuation p =>
      have hready : isReady s.word = true := by
        apply h.producers p
        rw [show s.producer p = .returned true from ha]
        rfl
      exact h.of_producer rfl rfl rfl rfl id nofun fun _ => hready
  | loadContinuation c =>
      refine h.of_consumer rfl rfl h.word rfl id ?_ nofun
      rintro old heq hold
      cases heq
      rwa [hasContinuation_eq_isSome h.word] at hold
  | continuationTaken c old =>
      have hsome := h.seenContinuation c old ha.1 ha.2
      exact h.of_consumer rfl rfl h.word rfl id nofun fun _ => hsome
  | setContinuation c old =>
      obtain ⟨-, hnone, rfl⟩ := ha
      have hsome : (s.first.or (some c)).isSome = true := by
        cases s.first <;> rfl
      rw [hasContinuation_eq_isSome h.word, Option.isSome_eq_false_iff,
        Option.isNone_iff_eq_none] at hnone
      refine h.of_consumer rfl rfl ?_ ?_ (fun _ => hsome) nofun fun _ => hsome
      · change withContinuation s.word (handle c).address &&& addrMask =
          storedAddress handle (s.first.or (some c))
        rw [hnone, CoroTask.withContinuation_and_addrMask]
        rfl
      · exact CoroTask.isReady_withContinuation s.word (handle c)
  | setContinuationFails c old =>
      refine h.of_consumer rfl rfl h.word rfl id ?_ nofun
      rintro old' heq hold
      cases heq
      rwa [hasContinuation_eq_isSome h.word] at hold

theorem told_iff_of_producer {p : π} {q : ProducerPc}
    (hproducer : s'.producer = Function.update s.producer p q)
    (hconsumer : s'.consumer = s.consumer)
    (hq : q.told = (s.producer p).told) :
    ∀ x, Told handle s' x ↔ Told handle s x := by
  intro x
  rw [told_update_producer hproducer hconsumer]
  split
  · rename_i hx
    subst hx
    rw [hq]
    rfl
  · rfl

theorem told_iff_of_consumer {c : κ} {r : ConsumerPc}
    (hproducer : s'.producer = s.producer)
    (hconsumer : s'.consumer = Function.update s.consumer c r)
    (hr : r.told (handle c).address =
      (s.consumer c).told (handle c).address) :
    ∀ x, Told handle s' x ↔ Told handle s x := by
  intro x
  rw [told_update_consumer hproducer hconsumer]
  split
  · rename_i hx
    subst hx
    rw [hr]
    rfl
  · rfl

omit [DecidableEq κ] in
theorem resuming_update {p : π} {q : ProducerPc} (h : OneTold handle s)
    (hq : ∀ a, q = .resuming a →
      ∃ c, s.first = some c ∧ a = (handle c).address) (u : π)
    (a : BitVec 64) (hu : Function.update s.producer p q u = .resuming a) :
    ∃ c, s.first = some c ∧ a = (handle c).address := by
  by_cases hup : u = p
  · subst hup
    rw [Function.update_self] at hu
    exact hq a hu
  · rw [Function.update_of_ne hup] at hu
    exact h.resuming u a hu

theorem oneTold_setReady {p : π} (hstored : Stored handle s)
    (h : OneTold handle s) (hnot : isReady s.word = false) :
    OneTold handle (next handle s (.setReady p s.word)) := by
  have hset : isReady (withReady s.word) = true :=
    CoroTask.isReady_withReady _
  have htells := hasContinuation_eq_isSome hstored.word
  refine h.of_store (x := .inl p) (b := hasContinuation s.word) ?_ ?_ ?_
    nofun ?_
  · rw [hnot]
    simp
  · exact told_update_producer (q := .returned (hasContinuation s.word))
      rfl rfl
  · rw [htells]
    exact ⟨fun hsome => ⟨hset, hsome⟩, fun hboth => hboth.2⟩
  · intro u a hu
    have hready : isReady s.word = true := by
      have hup : u ≠ p := by
        rintro rfl
        exact nomatch (Function.update_self _ _ _).symm.trans hu
      have hold : s.producer u = .resuming a :=
        (Function.update_of_ne hup _ _).symm.trans hu
      apply hstored.producers u
      rw [hold]
      rfl
    cases hnot.symm.trans hready

theorem oneTold_setContinuation {c : κ} (hstored : Stored handle s)
    (h : OneTold handle s) (hnot : hasContinuation s.word = false) :
    OneTold handle (next handle s (.setContinuation c s.word)) := by
  rw [hasContinuation_eq_isSome hstored.word, Option.isSome_eq_false_iff,
    Option.isNone_iff_eq_none] at hnot
  have hfirst : (next handle s (.setContinuation c s.word)).first = some c := by
    change s.first.or (some c) = some c
    rw [hnot]
    rfl
  refine h.of_store (x := .inr c) (b := isReady s.word) ?_ ?_ ?_ ?_ ?_
  · rw [hnot]
    simp
  · have htells : ConsumerPc.told (handle c).address
        (.returned (afterExchange noop s.word (handle c).address)) =
          isReady s.word := by
      unfold ConsumerPc.told afterExchange
      cases isReady s.word with
      | true => simp
      | false => simpa using (handle c).ne_noop.symm
    rw [← htells]
    exact told_update_consumer rfl rfl
  · have hready : isReady (withContinuation s.word (handle c).address) =
        isReady s.word := CoroTask.isReady_withContinuation _ _
    change isReady s.word = true ↔
      isReady (withContinuation s.word (handle c).address) = true ∧ _
    rw [hready, hfirst]
    simp
  · rintro d heq
    cases heq
    exact hfirst
  · intro u a hu
    obtain ⟨d, hd, -⟩ := h.resuming u a hu
    cases hnot.symm.trans hd

theorem oneTold_next {a : Action π κ} (hstored : Stored handle s)
    (h : OneTold handle s) (ha : Enabled s a) :
    OneTold handle (next handle s a) := by
  have hresumes : ∀ {p : π} {q : ProducerPc}, (∀ a, q ≠ .resuming a) →
      ∀ u a, Function.update s.producer p q u = .resuming a →
        ∃ c, s.first = some c ∧ a = (handle c).address := by
    intro p q hq
    exact resuming_update h fun a heq => absurd heq (hq a)
  cases a with
  | loadReady p =>
      refine h.of_same ?_ rfl rfl (hresumes (p := p) nofun)
      refine told_iff_of_producer rfl rfl ?_
      rw [show s.producer p = .idle from ha]
      rfl
  | alreadyReady p old =>
      refine h.of_same ?_ rfl rfl (hresumes (p := p) nofun)
      refine told_iff_of_producer rfl rfl ?_
      rw [ha.1]
      rfl
  | setReadyFails p old =>
      refine h.of_same ?_ rfl rfl (hresumes (p := p) nofun)
      refine told_iff_of_producer rfl rfl ?_
      rw [ha.1]
      rfl
  | setReady p old =>
      obtain ⟨-, hnot, rfl⟩ := ha
      exact oneTold_setReady hstored h hnot
  | getContinuation p =>
      have hpc : s.producer p = .returned true := ha
      have hsome := (h.both (.inl p) (by rw [Told, hpc]; rfl)).2
      obtain ⟨c, hc⟩ := Option.isSome_iff_exists.mp hsome
      have hword := hstored.word
      rw [hc] at hword
      refine h.of_same ?_ rfl rfl (resuming_update h ?_)
      · refine told_iff_of_producer rfl rfl ?_
        rw [hpc]
        rfl
      · rintro a heq
        cases heq
        exact ⟨c, hc, CoroTask.getContinuation_of_and_addrMask _ hword⟩
  | loadContinuation c =>
      refine h.of_same ?_ rfl rfl h.resuming
      refine told_iff_of_consumer rfl rfl ?_
      rw [show s.consumer c = .idle from ha]
      rfl
  | continuationTaken c old =>
      refine h.of_same ?_ rfl rfl h.resuming
      refine told_iff_of_consumer rfl rfl ?_
      rw [ha.1]
      exact decide_eq_false (handle c).ne_noop.symm
  | setContinuation c old =>
      obtain ⟨-, hnot, rfl⟩ := ha
      exact oneTold_setContinuation hstored h hnot
  | setContinuationFails c old =>
      refine h.of_same ?_ rfl rfl h.resuming
      refine told_iff_of_consumer rfl rfl ?_
      rw [ha.1]
      rfl

/-! ## The handoff -/

theorem oneTold_reachable (hs : (system π handle).Reachable s) :
    Stored handle s ∧ OneTold handle s := by
  refine TransitionSystem.Reachable.invariant hs
    (fun s => Stored handle s ∧ OneTold handle s) ?_
    fun s a h ha => ⟨stored_next h.1 ha, oneTold_next h.1 h.2 ha⟩
  rintro s rfl
  refine ⟨⟨BitVec.zero_and, nofun, nofun, nofun, nofun⟩, ?_⟩
  have hnobody : ∀ x, ¬Told handle (initialState π κ) x := by
    intro x
    cases x <;> simp [Told, initialState, ProducerPc.told, ConsumerPc.told]
  exact ⟨fun x hx => absurd hx (hnobody x), fun x _ hx => absurd hx (hnobody x),
    nofun, fun c hc => absurd hc (hnobody _), nofun⟩

/-- What the handoff promises in a state. -/
structure PicksResumer (handle : κ → Handle noop) (s : State π κ) : Prop where
  /-- At most one call is told to resume. -/
  unique : ∀ x y, Told handle s x → Told handle s y → x = y
  /-- Once both sides have returned, a call has been told so. -/
  exists_told : ∀ p c, (s.producer p).ended = true →
    (s.consumer c).ended = true → ∃ x, Told handle s x
  /-- A consumer told to resume was the first to store its handle. -/
  consumer : ∀ c, Told handle s (.inr c) → s.first = some c
  /-- A producer told to resume finds the handle stored first. -/
  producer : ∀ p, Told handle s (.inl p) → ∃ c, s.first = some c ∧
    CoroTask.getContinuation noop s.word = (handle c).address ∧
    ∀ a, s.producer p = .resuming a → a = (handle c).address

/-- The flag, the address and what a call was told stay. -/
structure Keeps (handle : κ → Handle noop) (s s' : State π κ) : Prop where
  ready : isReady s.word = true → isReady s'.word = true
  address : hasContinuation s.word = true →
    s'.word &&& addrMask = s.word &&& addrMask ∧ s'.first = s.first
  told : ∀ x, Told handle s x → Told handle s' x

theorem told_next {a : Action π κ} (ha : Enabled s a) (x : π ⊕ κ)
    (hx : Told handle s x) : Told handle (next handle s a) x := by
  have hproducer : ∀ {p : π} {q : ProducerPc},
      ((s.producer p).told = true → q.told = true) →
      ∀ u, (s.producer u).told = true →
        (Function.update s.producer p q u).told = true := by
    intro p q hq u hu
    by_cases hup : u = p
    · subst hup
      rw [Function.update_self]
      exact hq hu
    · rwa [Function.update_of_ne hup]
  have hconsumer : ∀ {c : κ} {r : ConsumerPc},
      (s.consumer c).told (handle c).address = false →
      ∀ u, (s.consumer u).told (handle u).address = true →
        (Function.update s.consumer c r u).told (handle u).address =
          true := by
    intro c r hr u hu
    have huc : u ≠ c := by
      rintro rfl
      cases hr.symm.trans hu
    rwa [Function.update_of_ne huc]
  cases a with
  | loadReady p =>
      have hpc : s.producer p = .idle := ha
      cases x with
      | inl u => exact hproducer (by rw [hpc]; exact nofun) u hx
      | inr u => exact hx
  | getContinuation p =>
      cases x with
      | inl u => exact hproducer (fun _ => rfl) u hx
      | inr u => exact hx
  | alreadyReady p old =>
      cases x with
      | inl u => exact hproducer (by rw [ha.1]; exact nofun) u hx
      | inr u => exact hx
  | setReady p old =>
      cases x with
      | inl u => exact hproducer (by rw [ha.1]; exact nofun) u hx
      | inr u => exact hx
  | setReadyFails p old =>
      cases x with
      | inl u => exact hproducer (by rw [ha.1]; exact nofun) u hx
      | inr u => exact hx
  | loadContinuation c =>
      have hpc : s.consumer c = .idle := ha
      cases x with
      | inl u => exact hx
      | inr u => exact hconsumer (by rw [hpc]; rfl) u hx
  | continuationTaken c old =>
      cases x with
      | inl u => exact hx
      | inr u => exact hconsumer (by rw [ha.1]; rfl) u hx
  | setContinuation c old =>
      cases x with
      | inl u => exact hx
      | inr u => exact hconsumer (by rw [ha.1]; rfl) u hx
  | setContinuationFails c old =>
      cases x with
      | inl u => exact hx
      | inr u => exact hconsumer (by rw [ha.1]; rfl) u hx

theorem keeps_next {a : Action π κ} (ha : Enabled s a) :
    Keeps handle s (next handle s a) := by
  cases a with
  | setReady p old =>
      obtain ⟨hpc, hnot, rfl⟩ := ha
      refine ⟨fun _ => CoroTask.isReady_withReady _, fun _ => ⟨?_, rfl⟩,
        told_next ⟨hpc, hnot, rfl⟩⟩
      exact CoroTask.withReady_and_addrMask s.word
  | setContinuation c old =>
      obtain ⟨hpc, hnot, rfl⟩ := ha
      refine ⟨fun hready => ?_, fun hsome => ?_,
        told_next ⟨hpc, hnot, rfl⟩⟩
      · exact (CoroTask.isReady_withContinuation s.word (handle c)).trans hready
      · cases hnot.symm.trans hsome
  | _ => exact ⟨id, fun _ => ⟨rfl, rfl⟩, told_next ha⟩

theorem keeps_of_leads (hss : (system π handle).Leads s s') :
    Keeps handle s s' := by
  induction hss with
  | refl => exact ⟨id, fun _ => ⟨rfl, rfl⟩, fun _ => id⟩
  | @step s' a hss ha ih =>
      have hstep : Keeps handle s' (next handle s' a) := keeps_next ha
      refine ⟨fun hready => hstep.ready (ih.ready hready), fun hsome => ?_,
        fun x hx => hstep.told x (ih.told x hx)⟩
      obtain ⟨hword, hfirst⟩ := ih.address hsome
      have hsome' : hasContinuation s'.word = true := by
        unfold hasContinuation
        rw [hword]
        exact hsome
      obtain ⟨hword', hfirst'⟩ := hstep.address hsome'
      exact ⟨hword'.trans hword, hfirst'.trans hfirst⟩

/-- In every run, whatever is stored stays, and exactly one call resumes the
handle that was stored first. -/
theorem picksResumer_of_reachable (handle : κ → Handle noop) :
    ∀ s, (system π handle).Reachable s → PicksResumer handle s ∧
      ∀ s', (system π handle).Leads s s' → Keeps handle s s' := by
  intro s hs
  obtain ⟨hstored, htold⟩ := oneTold_reachable hs
  refine ⟨⟨htold.unique, ?_, htold.consumer, ?_⟩,
    fun s' hss => keeps_of_leads hss⟩
  · intro p c hp hc
    exact htold.exists_told (hstored.producers p hp) (hstored.consumers c hc)
  · intro p hp
    have hsome := (htold.both (.inl p) hp).2
    obtain ⟨c, hc⟩ := Option.isSome_iff_exists.mp hsome
    have hword := hstored.word
    rw [hc] at hword
    refine ⟨c, hc, CoroTask.getContinuation_of_and_addrMask _ hword, ?_⟩
    intro a ha
    obtain ⟨d, hd, heq⟩ := htold.resuming p a ha
    cases hc.symm.trans hd
    exact heq

/-- Two coroutines, at the addresses `16` and `32`; the frame of
`std::noop_coroutine()` is at `8`. -/
def twoHandles : Fin 2 → Handle 8
  | 0 => ⟨16, by decide, by decide, by decide⟩
  | 1 => ⟨32, by decide, by decide, by decide⟩

/-- Coroutine `1` stores its handle between the load and the exchange of
coroutine `0`, and before the second of two `set_ready`. -/
def handoffRun : List (Action (Fin 2) (Fin 2)) :=
  [.loadContinuation 0, .loadContinuation 1, .setContinuationFails 1 0,
    .setContinuation 1 0, .setContinuationFails 0 0, .continuationTaken 0 32,
    .loadReady 0, .loadReady 1, .setReady 1 32, .setReadyFails 0 32,
    .alreadyReady 0 33, .getContinuation 1]

theorem picksResumer_handoffRun :
    PicksResumer twoHandles ((system (Fin 2) twoHandles).after
      (initialState (Fin 2) (Fin 2)) handoffRun) :=
  (picksResumer_of_reachable twoHandles _
    (TransitionSystem.Executes.reachable (.init rfl) (by decide))).1

end ContinuationHandoff
end Ethreads
