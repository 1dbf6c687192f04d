import Ethreads.AsyncChannel.Components

/-!
# What `send_async` delivers

`ready_impl` moves from the value it tries to send, whether or not the channel
accepts it, and `resume_impl` sends what is left and ignores the result.  We
show that a suspended `send_async` delivers its value exactly when the second
attempt is accepted and moving has left the value as it was.
-/

namespace Ethreads
namespace AsyncChannel

variable {τ T : Type*}

/-- For every `co_await send_async(v)` that has returned normally exactly one
value was appended to the buffer, and it is `v`. -/
def DeliversOnce (s : State τ T) : Prop :=
  ∀ e ∈ s.sent, e.2 = [e.1]

instance [DecidableEq T] (s : State τ T) : Decidable (DeliversOnce s) :=
  inferInstanceAs (Decidable (∀ e ∈ s.sent, e.2 = [e.1]))

def Pc.resumesSend : Pc T → Option T
  | resuming (.send v) _ => some v
  | _ => none

/-- The `try_send` of a `resume_impl` neither finds the channel closed nor
finds the buffer full, and it sends the value of the `co_await`. -/
def ResumesDeliver (c : Config T) (s : State τ T) : Action τ T → Prop
  | .sync (.loadClosed t .trySend _) => (s.pc t).resumesSend = none
  | .sync (.pushFull t _) => (s.pc t).resumesSend = none
  | .sync (.pushBack t .trySend _) =>
      ∀ v ∈ (s.pc t).resumesSend, c.movedFrom v = v
  | _ => True

instance [DecidableEq T] (c : Config T) (s : State τ T) (a : Action τ T) :
    Decidable (ResumesDeliver c s a) := by
  induction a using Action.casesOn with
  | sync b =>
      induction b using SyncChannel.Action.casesOn with
      | loadClosed t kind v | pushBack t kind v =>
          induction kind using SyncChannel.SendKind.casesOn <;>
            dsimp only [ResumesDeliver] <;> infer_instance
      | _ => dsimp only [ResumesDeliver]; infer_instance
  | _ => exact inferInstanceAs (Decidable True)

/-! ## What was appended for a `co_await` -/

/-- The value of a `co_await send_async` in progress. -/
def Pc.sending : Pc T → Option T
  | ready (.send v) | suspend (.send v) | adding (.send v)
  | suspended (.send v) | resuming (.send v) _ => some v
  | _ => none

variable [DecidableEq τ]

/-- No call made for a `co_await send_async` in progress has yet reported that
it was accepted. -/
def Unreported (s : State τ T) : Prop :=
  ∀ t, (s.pc t).sending ≠ none →
    SyncChannel.reported SyncChannel.acceptedOf t s.sync = s.before t

section Steps

variable {c : Config T} {s s' : State τ T} {a : Action τ T} {t : τ}
  {p q : Pc T}

theorem Unreported.of_update (h : Unreported s) (hp : s.pc t = p)
    (hpc : s'.pc = Function.update s.pc t q)
    (hbefore : s'.before = s.before)
    (hrep : ∀ u, SyncChannel.reported SyncChannel.acceptedOf u s'.sync =
      SyncChannel.reported SyncChannel.acceptedOf u s.sync)
    (hq : q.sending ≠ none → p.sending ≠ none) : Unreported s' := by
  intro u hu
  rw [hbefore, hrep]
  by_cases hut : u = t
  · subst hut
    rw [hpc, Function.update_self] at hu
    exact h u (by rw [hp]; exact hq hu)
  · rw [hpc, Function.update_of_ne hut] at hu
    exact h u hu

omit [DecidableEq τ] in
theorem sending_afterList (p : Pc T) (hp : p.afterList.sending ≠ none) :
    p.sending ≠ none := by
  unfold Pc.afterList at hp
  split at hp
  · rename_i w
    cases w
    · exact absurd rfl hp
    · simp [Pc.sending]
  · exact absurd rfl hp
  · exact absurd rfl hp

omit [DecidableEq τ] in
/-- A `co_await` goes on after a call only if the call has refused the
value. -/
theorem refused_of_sending_afterSync {out : SyncChannel.Outcome T}
    (hp : (p.afterSync c out).sending ≠ none) :
    ∃ v, p = .ready (.send v) ∧ out = .flag false := by
  revert hp
  unfold Pc.afterSync
  split
  · intro hp
    unfold afterCall at hp
    split at hp
    · exact absurd rfl hp
    · split at hp <;> exact absurd rfl hp
    · exact absurd rfl hp
    · exact absurd rfl hp
  · intro hp
    exact absurd rfl hp
  · intro _
    exact ⟨_, rfl, rfl⟩
  all_goals
    intro hp
    exact absurd rfl hp

theorem unreported_syncReturn {op : SyncChannel.Op T}
    {out : SyncChannel.Outcome T} (hal : SyncAligned c s) (h : Unreported s)
    (hpc : s.sync.pc t = .unlock op out) :
    Unreported (next c s (.syncReturn t op out)) := by
  intro u hu
  by_cases hut : u = t
  · subst hut
    have hafter : (next c s (.syncReturn u op out)).pc u =
        (s.pc u).afterSync c out := Function.update_self _ _ _
    rw [hafter] at hu
    obtain ⟨v, hp, rfl⟩ := refused_of_sending_afterSync hu
    have hop := hal u
    rw [hpc, hp] at hop
    obtain rfl : op = .send .trySend v := Option.some.inj hop
    have hreport : SyncChannel.reported SyncChannel.acceptedOf u
        (next c s (.syncReturn u (.send .trySend v) (.flag false))).sync =
          SyncChannel.reported SyncChannel.acceptedOf u s.sync ++ [] :=
      SyncChannel.reported_unlock c.channel u _ _
    rw [hreport, List.append_nil]
    refine h u ?_
    rw [hp]
    simp [Pc.sending]
  · have hkept : (next c s (.syncReturn t op out)).pc u = s.pc u :=
      Function.update_of_ne hut _ _
    rw [hkept] at hu
    refine Eq.trans ?_ (h u hu)
    exact SyncChannel.reported_of_ne hut

theorem unreported_next (hal : Aligned c s)
    (hrep : SyncChannel.Reported s.sync) (h : Unreported s)
    (ha : Enabled c s a) : Unreported (next c s a) := by
  have hnone : ∀ {q : Pc T} {P : Prop}, q.sending = none →
      q.sending ≠ none → P := fun heq hne => absurd heq hne
  cases a with
  | call t op =>
      exact h.of_update ha.1 rfl rfl (fun _ => rfl) (hnone rfl)
  | loadOpen t =>
      exact h.of_update ha.1 rfl rfl (fun _ => rfl) (hnone rfl)
  | loadClosed t =>
      exact h.of_update ha.1 rfl rfl (fun _ => rfl) (hnone rfl)
  | callWake t all side =>
      exact h.of_update ha.1 rfl rfl (fun _ => rfl) (hnone rfl)
  | callAdd t w =>
      refine h.of_update ha.1 rfl rfl (fun _ => rfl) ?_
      cases w <;> exact id
  | resume t w =>
      refine h.of_update ha.1 rfl rfl (fun _ => rfl) ?_
      cases w <;> exact id
  | sync b =>
      intro u hu
      exact (SyncChannel.reported_of_internal ha.1 u).trans (h u hu)
  | syncReturn t op out => exact unreported_syncReturn hal.sync h ha
  | list t d b =>
      dsimp only [next]
      split
      · exact h.of_update rfl rfl rfl (fun _ => rfl) (sending_afterList _)
      · exact h
  | coAwait t w =>
      intro u hu
      by_cases hut : u = t
      · subst hut
        have hidle : s.sync.pc u = .idle := ha.2
        have hlog := hrep.accepted u
        rw [hidle] at hlog
        have hbefore : (next c s (.coAwait u w)).before u =
            SyncChannel.valuesOf u s.sync.accepted := Function.update_self _ _ _
        rw [hbefore, hlog]
        exact (List.append_nil _).symm
      · have hkept : (next c s (.coAwait t w)).pc u = s.pc u :=
          Function.update_of_ne hut _ _
        rw [hkept] at hu
        have hbefore : (next c s (.coAwait t w)).before u = s.before u :=
          Function.update_of_ne hut _ _
        rw [hbefore]
        exact h u hu

theorem unreported_reachable (hs : (system c τ).Reachable s) :
    Unreported s := by
  refine TransitionSystem.Reachable.invariant_of hs Unreported
    (fun s hs => And.intro (aligned_reachable hs)
      (SyncChannel.reported_reachable (sync_reachable hs))) ?_
    fun s a hJ h ha => unreported_next hJ.1 hJ.2 h ha
  rintro s rfl t ht
  exact absurd rfl ht

/-- When the last call made for a `co_await` returns, the value it has added
to the buffer is all that was appended for the `co_await`. -/
theorem appended_eq (hs : (system c τ).Reachable s) {op : SyncChannel.Op T}
    {out : SyncChannel.Outcome T} (hp : (s.pc t).sending ≠ none)
    (hpc : s.sync.pc t = .unlock op out) :
    s.appended t = (SyncChannel.acceptedOf op out).toList := by
  have hlog := (SyncChannel.reported_reachable (sync_reachable hs)).accepted t
  rw [unreported_reachable hs t hp, hpc] at hlog
  unfold State.appended
  rw [hlog]
  exact List.drop_left

end Steps

/-! ## The second attempt -/

/-- The `try_send` of a `resume_impl` is not going to report a refusal, nor
the acceptance of another value. -/
def Delivering (c : Config T) (s : State τ T) : Prop :=
  ∀ t v, (s.pc t).resumesSend = some v →
    ∀ sent, (s.sync.pc t).outcome = some (.flag sent) →
      sent = true ∧ c.movedFrom v = v

section Attempt

variable {c : Config T} {s : State τ T} {a : Action τ T}

omit [DecidableEq τ] in
theorem resumesSend_afterSync (p : Pc T) (out : SyncChannel.Outcome T) :
    (p.afterSync c out).resumesSend = none := by
  unfold Pc.afterSync
  split <;> try rfl
  unfold afterCall
  split <;> try rfl
  split <;> rfl

omit [DecidableEq τ] in
theorem resumesSend_afterList (p : Pc T) : p.afterList.resumesSend = none := by
  unfold Pc.afterList
  split <;> rfl

omit [DecidableEq τ] in
theorem syncOp_of_resumesSend {p : Pc T} {v : T}
    (hp : p.resumesSend = some v) :
    p.syncOp c = some (.send .trySend (c.movedFrom v)) := by
  cases p with
  | resuming w woken =>
      cases w with
      | receive => cases hp
      | send v' => cases hp; rfl
  | _ => cases hp

/-- A step of `sync_channel` inside the `try_send` of a `resume_impl`. -/
theorem delivering_sync {b : SyncChannel.Action τ T} (hal : SyncAligned c s)
    (htries : SyncChannel.TriesDoNotWait s.sync) (h : Delivering c s)
    (ha : Enabled c s (.sync b)) (hP : ResumesDeliver c s (.sync b)) :
    Delivering c (next c s (.sync b)) := by
  have hb : SyncChannel.Enabled c.channel s.sync b := ha.2
  intro t v hv sent hsent
  change (s.pc t).resumesSend = some v at hv
  by_cases ht : t = b.thread
  swap
  · refine h t v hv sent ?_
    rw [← hsent]
    exact (SyncChannel.outcome_next_of_ne hb ht).symm
  have hop : (s.sync.pc t).op = some (.send .trySend (c.movedFrom v)) :=
    (hal t).trans (syncOp_of_resumesSend hv)
  have hset : ∀ {f : τ → SyncChannel.Pc T} {q : SyncChannel.Pc T},
      (Function.update f t q t).outcome = some (.flag sent) →
        q.outcome = some (.flag sent) := by
    intro f q hq
    rwa [Function.update_self] at hq
  have hrun : ∀ {p : SyncChannel.Pc T}, s.sync.pc t = p →
      p.op = some (.send .trySend (c.movedFrom v)) := by
    intro p hp
    rw [← hp, hop]
  subst ht
  cases b with
  | call u op => cases ha.1
  | unlock u op out => cases ha.1
  | lock u op =>
      have hnone := hset hsent
      rw [SyncChannel.outcome_afterLock] at hnone
      cases hnone
  | testTrue u op e =>
      have hnone := hset hsent
      rw [SyncChannel.outcome_afterWait] at hnone
      cases hnone
  | testExpired u op =>
      obtain rfl : op = .send .trySend (c.movedFrom v) :=
        Option.some.inj (hrun hb.1)
      have hwaits : (s.sync.pc u).waitOp =
          some (.send .trySend (c.movedFrom v)) := by
        rw [hb.1]
        rfl
      cases htries u _ hwaits
  | loadClosed u k w =>
      obtain ⟨rfl, -⟩ := SyncChannel.Op.send.inj
        (Option.some.inj (hrun hb.1))
      cases hv.symm.trans hP
  | pushFull u w => cases hv.symm.trans hP
  | pushBack u k w =>
      obtain ⟨rfl, -⟩ := SyncChannel.Op.send.inj
        (Option.some.inj (hrun hb.1))
      cases hset hsent
      exact ⟨rfl, hP v hv⟩
  | popFront u k w => cases hrun hb.1
  | popEmpty u k => cases hrun hb.1
  | notifyAll u x => cases hrun hb
  | notifyOne u x op out w op' =>
      have hout : some out = some (.flag sent) := hset hsent
      exact h u v hv sent ((congrArg SyncChannel.Pc.outcome hb.1).trans hout)
  | notifyNobody u x op out =>
      have hout : some out = some (.flag sent) := hset hsent
      exact h u v hv sent ((congrArg SyncChannel.Pc.outcome hb.1).trans hout)
  | _ => cases hset hsent

theorem Delivering.of_update (h : Delivering c s) {s' : State τ T} {t : τ}
    {q : Pc T} (hpc : s'.pc = Function.update s.pc t q)
    (hother : ∀ u, u ≠ t →
      (s'.sync.pc u).outcome = (s.sync.pc u).outcome)
    (hself : q.resumesSend = none ∨ (s'.sync.pc t).outcome = none) :
    Delivering c s' := by
  intro u v hv sent hsent
  by_cases hut : u = t
  · subst hut
    rw [hpc, Function.update_self] at hv
    rcases hself with hnone | hnone
    · cases hnone.symm.trans hv
    · cases hnone.symm.trans hsent
  · rw [hpc, Function.update_of_ne hut] at hv
    exact h u v hv sent ((hother u hut).symm.trans hsent)

theorem delivering_next (hal : SyncAligned c s)
    (htries : SyncChannel.TriesDoNotWait s.sync) (h : Delivering c s)
    (ha : Enabled c s a) (hP : ResumesDeliver c s a) :
    Delivering c (next c s a) := by
  cases a with
  | sync b => exact delivering_sync hal htries h ha hP
  | call t op =>
      exact h.of_update rfl
        (fun u hu => SyncChannel.outcome_next_of_ne ha.2 hu) (Or.inl rfl)
  | coAwait t w =>
      exact h.of_update rfl
        (fun u hu => SyncChannel.outcome_next_of_ne ha.2 hu) (Or.inl rfl)
  | loadClosed t =>
      exact h.of_update rfl
        (fun u hu => SyncChannel.outcome_next_of_ne ha.2.2 hu) (Or.inl rfl)
  | syncReturn t op out =>
      have hunlock : SyncChannel.Enabled c.channel s.sync
        (.unlock t op out) := ha
      exact h.of_update rfl
        (fun u hu => SyncChannel.outcome_next_of_ne hunlock hu)
        (Or.inl (resumesSend_afterSync _ _))
  | resume t w =>
      refine h.of_update rfl
        (fun u hu => SyncChannel.outcome_next_of_ne ha.2.2 hu) (Or.inr ?_)
      exact SyncChannel.outcome_call_self c.channel s.sync t (w.resumeOp c)
  | loadOpen t => exact h.of_update rfl (fun _ _ => rfl) (Or.inl rfl)
  | callAdd t w => exact h.of_update rfl (fun _ _ => rfl) (Or.inl rfl)
  | callWake t all side =>
      exact h.of_update rfl (fun _ _ => rfl) (Or.inl rfl)
  | list t d b =>
      dsimp only [next]
      split
      · exact h.of_update rfl (fun _ _ => rfl)
          (Or.inl (resumesSend_afterList _))
      · exact h

theorem delivering_reachable
    (hs : (system c τ).ReachableWhere (ResumesDeliver c) s) :
    Delivering c s := by
  refine hs.invariant_of (Delivering c)
    (fun s hs => And.intro (aligned_reachable hs.reachable)
      (SyncChannel.triesDoNotWait_reachable (sync_reachable hs.reachable))) ?_
    fun s a hJ h ha hP => delivering_next hJ.1.sync hJ.2 h ha hP
  rintro s rfl t v hv
  cases hv

end Attempt

/-! ## Delivery -/

section Delivery

variable {c : Config T} {s : State τ T} {a : Action τ T} {t : τ}

omit [DecidableEq τ] in
theorem sentValue_cases {p : Pc T} {out : SyncChannel.Outcome T} {v : T}
    (h : p.sentValue out = some v) :
    (p = .ready (.send v) ∧ out = .flag true) ∨
      (p.resumesSend = some v ∧ ∃ b, out = .flag b) := by
  unfold Pc.sentValue at h
  split at h
  · cases h
    exact Or.inl ⟨rfl, rfl⟩
  · cases h
    exact Or.inr ⟨rfl, _, rfl⟩
  · cases h

omit [DecidableEq τ] in
theorem sending_of_resumesSend {p : Pc T} {v : T}
    (h : p.resumesSend = some v) : p.sending = some v := by
  cases p with
  | resuming w woken =>
      cases w with
      | receive => cases h
      | send v' => exact h
  | _ => cases h

/-- The `co_await` that returns in this step has delivered its value. -/
theorem appended_of_sentValue (hs : (system c τ).Reachable s)
    (hdel : Delivering c s) {op : SyncChannel.Op T}
    {out : SyncChannel.Outcome T} (ha : Enabled c s (.syncReturn t op out))
    {v : T} (hv : (s.pc t).sentValue out = some v) : s.appended t = [v] := by
  have hpc : s.sync.pc t = .unlock op out := ha
  have hop := (aligned_reachable hs).sync t
  rw [hpc] at hop
  rcases sentValue_cases hv with ⟨hp, rfl⟩ | ⟨hp, b, rfl⟩
  · have hsending : (s.pc t).sending ≠ none := by
      rw [hp]
      simp [Pc.sending]
    rw [hp] at hop
    obtain rfl : op = .send .trySend v := Option.some.inj hop
    exact appended_eq hs hsending hpc
  · have hsending : (s.pc t).sending ≠ none := by
      rw [sending_of_resumesSend hp]
      simp
    rw [syncOp_of_resumesSend hp] at hop
    obtain rfl : op = .send .trySend (c.movedFrom v) := Option.some.inj hop
    obtain ⟨rfl, hmoved⟩ := hdel t v hp b (by rw [hpc]; rfl)
    refine (appended_eq hs hsending hpc).trans ?_
    simp [SyncChannel.acceptedOf, hmoved]

theorem deliversOnce_next (hs : (system c τ).Reachable s)
    (hdel : Delivering c s) (h : DeliversOnce s) (ha : Enabled c s a) :
    DeliversOnce (next c s a) := by
  cases a with
  | syncReturn t op out =>
      intro e he
      have he' : e ∈ s.sentAfter t out := he
      unfold State.sentAfter at he'
      split at he'
      · rename_i v hv
        rcases List.mem_append.mp he' with hold | hnew
        · exact h e hold
        · obtain rfl := List.mem_singleton.mp hnew
          exact appended_of_sentValue hs hdel ha hv
      · exact h e he'
  | list t d b =>
      dsimp only [next]
      split <;> exact h
  | _ => exact h

theorem deliversOnce_reachable
    (hs : (system c τ).ReachableWhere (ResumesDeliver c) s) :
    DeliversOnce s := by
  refine hs.invariant_of DeliversOnce
    (fun s hs => And.intro hs.reachable (delivering_reachable hs)) ?_
    fun s a hJ h ha _ => deliversOnce_next hJ.1 hJ.2 h ha
  rintro s rfl e he
  cases he

/-- The `co_await` whose `resume_impl` has finished its attempt returns. -/
theorem leads_not_deliversOnce (hs : (system c τ).Reachable s) {v : T}
    (hp : (s.pc t).resumesSend = some v) {op : SyncChannel.Op T} {b : Bool}
    (hpc : s.sync.pc t = .unlock op (.flag b))
    (hbad : (SyncChannel.acceptedOf op (.flag b)).toList ≠ [v]) :
    ∃ s', (system c τ).Leads s s' ∧ ¬DeliversOnce s' := by
  refine ⟨next c s (.syncReturn t op (.flag b)), ?_, fun h => hbad ?_⟩
  · have ha : (system c τ).Enabled s (.syncReturn t op (.flag b)) := hpc
    exact .step (.refl s) ha
  · have hsent : (s.pc t).sentValue (.flag b) = some v := by
      cases hq : s.pc t with
      | resuming w woken =>
          rw [hq] at hp
          cases w with
          | receive => cases hp
          | send v' => exact hp
      | _ => rw [hq] at hp; cases hp
    have hsending : (s.pc t).sending ≠ none := by
      rw [sending_of_resumesSend hp]
      simp
    rw [← appended_eq hs hsending hpc]
    refine h (v, s.appended t) ?_
    change (v, s.appended t) ∈ s.sentAfter t (.flag b)
    unfold State.sentAfter
    rw [hsent]
    exact List.mem_append_right _ (List.mem_singleton_self _)

/-- A thread that is about to notify can always go on to its return. -/
theorem leads_unlock {x : SyncChannel.CondVar} {op : SyncChannel.Op T}
    {out : SyncChannel.Outcome T} (hpc : s.sync.pc t = .notifyOne x op out) :
    ∃ s', (system c τ).Leads s s' ∧ s'.pc = s.pc ∧
      s'.sync.pc t = .unlock op out := by
  by_cases hw : ∃ u, (s.sync.pc u).waitsOn x = true
  · obtain ⟨u, hu⟩ := hw
    obtain ⟨op', hop', hx⟩ : ∃ op', s.sync.pc u = .waiting op' ∧
        op'.waitsOn x = true := by
      cases hq : s.sync.pc u with
      | waiting op' => exact ⟨op', rfl, by rwa [hq] at hu⟩
      | _ => rw [hq] at hu; cases hu
    have ha : (system c τ).Enabled s
        (.sync (.notifyOne t x op out u op')) := ⟨rfl, hpc, hop', hx⟩
    exact ⟨_, .step (.refl s) ha, rfl, Function.update_self _ _ _⟩
  · have hnobody : ∀ u, (s.sync.pc u).waitsOn x = false := by
      intro u
      exact Bool.eq_false_iff.mpr fun hu => hw ⟨u, hu⟩
    have ha : (system c τ).Enabled s (.sync (.notifyNobody t x op out)) :=
      ⟨rfl, hpc, hnobody⟩
    exact ⟨_, .step (.refl s) ha, rfl, Function.update_self _ _ _⟩

theorem leads_not_deliversOnce_of_push (hs : (system c τ).Reachable s)
    {v w : T} (hp : (s.pc t).resumesSend = some v)
    (ha : Enabled c s (.sync (.pushBack t .trySend w)))
    (hmoved : c.movedFrom v ≠ v) :
    ∃ s', (system c τ).Leads (next c s (.sync (.pushBack t .trySend w))) s' ∧
      ¬DeliversOnce s' := by
  have hop := (aligned_reachable hs).sync t
  rw [show s.sync.pc t = .push .trySend w from ha.2.1,
    syncOp_of_resumesSend hp] at hop
  obtain ⟨-, rfl⟩ := SyncChannel.Op.send.inj (Option.some.inj hop)
  have hpush : (system c τ).Enabled s
    (.sync (.pushBack t .trySend (c.movedFrom v))) := ha
  have hs₁ : (system c τ).Reachable ((system c τ).next s
      (.sync (.pushBack t .trySend (c.movedFrom v)))) :=
    .step hs hpush trivial
  obtain ⟨s₂, hleads, hpc₂, hunlock⟩ := leads_unlock (c := c)
    (s := next c s (.sync (.pushBack t .trySend (c.movedFrom v))))
    (Function.update_self _ _ _)
  have hp₂ : (s₂.pc t).resumesSend = some v := by
    rw [hpc₂]
    exact hp
  obtain ⟨s', hleads', hfails⟩ := leads_not_deliversOnce
    (hs₁.leads hleads) hp₂ hunlock (by simpa [SyncChannel.acceptedOf])
  exact ⟨s', hleads.trans hleads', hfails⟩

/-- `send_async` delivers its value exactly once in every run in which the
`try_send` of `resume_impl` always finds an open channel with room and a value
that moving has not changed, and after every other `try_send` it may fail to. -/
theorem deliversOnce_of_resumesDeliver_and_leads_not (c : Config T) (τ : Type*)
    [DecidableEq τ] :
    (∀ s, (system c τ).ReachableWhere (ResumesDeliver c) s →
      DeliversOnce s) ∧
    (∀ s a, (system c τ).Reachable s → (system c τ).Enabled s a →
      ¬ResumesDeliver c s a →
        ∃ s', (system c τ).Leads ((system c τ).next s a) s' ∧
          ¬DeliversOnce s') := by
  constructor
  · intro s hs
    exact deliversOnce_reachable hs
  · intro s a hs ha hfails
    unfold ResumesDeliver at hfails
    split at hfails
    · obtain ⟨v, hv⟩ := Option.ne_none_iff_exists'.mp hfails
      exact leads_not_deliversOnce (.step hs ha trivial) hv
        (Function.update_self _ _ _) (by simp [SyncChannel.acceptedOf])
    · obtain ⟨v, hv⟩ := Option.ne_none_iff_exists'.mp hfails
      exact leads_not_deliversOnce (.step hs ha trivial) hv
        (Function.update_self _ _ _) (by simp [SyncChannel.acceptedOf])
    · push Not at hfails
      obtain ⟨v, hv, hmoved⟩ := hfails
      exact leads_not_deliversOnce_of_push hs hv ha hmoved
    · exact absurd trivial hfails

end Delivery

/-! ## A full channel that is received from -/

def singleSlot (movedFrom : T → T) : Config T where
  channel := SyncChannel.singleSlot
  movedFrom := movedFrom

/-- Agent `1` fills the channel, agent `0` suspends in `send_async`, agent `1`
receives and wakes it, and its `resume_impl` sends `left`. -/
def sendToFull (first value left : T) : List (Action (Fin 2) T) :=
  [.call 1 (.send .trySend first), .sync (.lock 1 (.send .trySend first)),
    .sync (.loadOpen 1 .trySend first), .sync (.pushBack 1 .trySend first),
    .sync (.notifyNobody 1 .cv (.send .trySend first) (.flag true)),
    .syncReturn 1 (.send .trySend first) (.flag true),
    .coAwait 0 (.send value), .sync (.lock 0 (.send .trySend value)),
    .sync (.loadOpen 0 .trySend value), .sync (.pushFull 0 value),
    .syncReturn 0 (.send .trySend value) (.flag false),
    .callAdd 0 (.send value), .list 0 .send (.addLoad 0 0),
    .list 0 .send (.addLink 0 0 none), .list 0 .send (.addCas 0 0 none),
    .call 1 (.receive .receive), .sync (.lock 1 (.receive .receive)),
    .sync (.testTrue 1 (.receive .receive) false),
    .sync (.popFront 1 .receive first),
    .sync (.notifyNobody 1 .sendCv (.receive .receive) (.value first)),
    .syncReturn 1 (.receive .receive) (.value first),
    .callWake 1 false .send, .list 1 .send (.wakeLoad 1),
    .list 1 .send (.wakeNext 1 0), .list 1 .send (.wakeCas 1 0 none),
    .list 1 .send (.schedule 1 0 none),
    .resume 0 (.send value), .sync (.lock 0 (.send .trySend left)),
    .sync (.loadOpen 0 .trySend left), .sync (.pushBack 0 .trySend left),
    .sync (.notifyNobody 0 .cv (.send .trySend left) (.flag true)),
    .syncReturn 0 (.send .trySend left) (.flag true)]

/-- Vectors, which are empty after they were moved from. -/
def vectors : Config (List ℕ) :=
  singleSlot fun _ => []

/-- The vector `[7]` is to be sent, and an empty one arrives. -/
theorem not_forall_deliversOnce :
    ¬∀ s, (system vectors (Fin 2)).Reachable s → DeliversOnce s := by
  intro h
  have hreach : (system vectors (Fin 2)).Reachable
      ((system vectors (Fin 2)).after (initialState (Fin 2) (List ℕ))
        (sendToFull [1] [7] [])) :=
    TransitionSystem.Executes.reachable (.init rfl) (by decide)
  have hdelivers := h _ hreach
  revert hdelivers
  decide

theorem deliversOnce_sendToFull :
    DeliversOnce ((system (singleSlot id) (Fin 2)).after
      (initialState (Fin 2) ℕ) (sendToFull 1 7 7)) := by
  refine (deliversOnce_of_resumesDeliver_and_leads_not (singleSlot id)
    (Fin 2)).1 _ ?_
  exact TransitionSystem.Executes.reachableWhere (.init rfl) (by decide)

end AsyncChannel
end Ethreads
