import Ethreads.IoUring.Entries

/-!
# What the completion thread delivers

The coroutine of an operation has been scheduled once for each time its
completion object was filled in, or once if the operation was refused, and its
result is the one that the kernel has posted for it.
-/

namespace Ethreads
namespace IoUring

variable {ο : Type*}

/-- The operation got no slot and has scheduled its own coroutine. -/
def OpPc.refusals : OpPc → ℕ
  | refused => 1
  | _ => 0

/-- The completion is in the queue or in the hands of the completion thread. -/
def State.HasCqe (s : State ο) (e : Cqe ο) : Prop :=
  e ∈ s.cq ∨ s.reaper = .taken e

/-- Handle, schedules and result of an operation agree. -/
structure Delivers (s : State ο) (o : ο) : Prop where
  handle : s.op o ≠ .idle → (s.completion (.main o)).handle = some o
  timeoutHandle : (s.completion (.timeout o)).handle = none
  scheduled : s.scheduled o = s.processed (.main o) + (s.op o).refusals
  posted : ∀ e, s.HasCqe e → e.userData = some (.main o) →
    s.posted o = some e.res
  result : 0 < s.processed (.main o) →
    s.posted o = some (s.completion (.main o)).result
  refused : s.op o = .refused → (s.completion (.main o)).result = enomem
  unposted : (s.op o).issued = 0 → s.posted o = none

variable {command : ο → Command} {s s' : State ο} {o : ο}

theorem OpPc.refusals_eq_zero {p : OpPc} (hp : p ≠ .refused) :
    p.refusals = 0 := by
  cases p with
  | refused => exact absurd rfl hp
  | idle | stored | reserved | prepared | suspended => rfl

theorem OpPc.of_issued {p : OpPc} (hp : p.issued = 1) :
    p ≠ .idle ∧ p ≠ .refused := by
  cases p with
  | prepared | suspended => exact ⟨nofun, nofun⟩
  | idle | stored | reserved | refused => cases hp

theorem OpPc.issued_le (p : OpPc) : p.issued ≤ 1 := by
  unfold OpPc.issued
  split <;> decide

theorem Delivers.frame (h : Delivers s o)
    (hmain : s'.completion (.main o) = s.completion (.main o))
    (htimeout : s'.completion (.timeout o) = s.completion (.timeout o))
    (hscheduled : s'.scheduled o = s.scheduled o)
    (hprocessed : s'.processed (.main o) = s.processed (.main o))
    (hposted : s'.posted o = s.posted o)
    (hcqes : ∀ e, e.userData = some (.main o) → s'.HasCqe e → s.HasCqe e)
    (hop : s'.op o = s.op o ∨ s.op o ≠ .idle ∧
      (s.op o).issued ≤ (s'.op o).issued ∧ s.op o ≠ .refused ∧
        s'.op o ≠ .refused) : Delivers s' o where
  handle ho := by
    rw [hmain]
    rcases hop with heq | ⟨hidle, -⟩
    · exact h.handle (heq ▸ ho)
    · exact h.handle hidle
  timeoutHandle := by
    rw [htimeout]
    exact h.timeoutHandle
  scheduled := by
    rw [hscheduled, hprocessed, h.scheduled]
    rcases hop with heq | ⟨-, -, hold, hnew⟩
    · rw [heq]
    · rw [OpPc.refusals_eq_zero hold, OpPc.refusals_eq_zero hnew]
  posted e he heo := by
    rw [hposted]
    exact h.posted e (hcqes e heo he) heo
  result ho := by
    rw [hprocessed] at ho
    rw [hposted, hmain]
    exact h.result ho
  refused ho := by
    rw [hmain]
    rcases hop with heq | ⟨-, -, -, hnew⟩
    · exact h.refused (heq ▸ ho)
    · exact absurd ho hnew
  unposted ho := by
    rw [hposted]
    rcases hop with heq | ⟨-, hle, -⟩
    · exact h.unposted (heq ▸ ho)
    · exact h.unposted (Nat.le_zero.mp (ho ▸ hle))

theorem delivers_of_idle (hop : s.op o = .idle)
    (htimeout : (s.completion (.timeout o)).handle = none)
    (hscheduled : s.scheduled o = 0) (hprocessed : s.processed (.main o) = 0)
    (hposted : s.posted o = none) (hcqes : ∀ e, ¬s.HasCqe e) :
    Delivers s o where
  handle ho := absurd hop ho
  timeoutHandle := htimeout
  scheduled := by rw [hscheduled, hprocessed, hop]; rfl
  posted e he := absurd he (hcqes e)
  result ho := absurd ho (by rw [hprocessed]; exact Nat.lt_irrefl 0)
  refused ho := by rw [hop] at ho; cases ho
  unposted _ := hposted

variable [DecidableEq ο]

/-! ## Entries that are not processed -/

theorem Accounts.main (h : Accounts command s) (o : ο) :
    (entries s).count (some (.main o)) + s.processed (.main o) =
      (s.op o).issued :=
  h (.main o)

/-- The operation of an entry has prepared it, and it was not processed. -/
theorem Accounts.of_mem (h : Accounts command s)
    (hmem : some (.main o) ∈ entries s) :
    (s.op o).issued = 1 ∧ (entries s).count (some (.main o)) = 1 ∧
      s.processed (.main o) = 0 := by
  have hpos := List.count_pos_iff.mpr hmem
  have haccount := h.main o
  have hle := (s.op o).issued_le
  omega

theorem mem_entries_of_inflight {e : Sqe ο} (he : e ∈ s.inflight) :
    e.userData ∈ entries s := by
  have hmem := List.mem_map_of_mem (f := Sqe.userData) he
  simp [entries, hmem]

theorem mem_entries_of_cqe {e : Cqe ο} (he : s.HasCqe e) :
    e.userData ∈ entries s := by
  rcases he with he | he
  · have hmem := List.mem_map_of_mem (f := Cqe.userData) he
    simp [entries, hmem]
  · simp [entries, he, ReaperPc.data]

/-- An entry that is with the kernel has no completion yet. -/
theorem not_hasCqe_of_inflight (h : Accounts command s) {e : Sqe ο}
    (he : e ∈ s.inflight) (hdata : e.userData = some (.main o)) {e' : Cqe ο}
    (he' : s.HasCqe e') : e'.userData ≠ some (.main o) := by
  intro hdata'
  have hone := (h.of_mem (hdata ▸ mem_entries_of_inflight he)).2.1
  have hinflight : 0 < (s.inflight.map Sqe.userData).count
      (some (.main o)) :=
    List.count_pos_iff.mpr (List.mem_map.mpr ⟨e, he, hdata⟩)
  have hcqe : 0 < (s.cq.map Cqe.userData).count (some (.main o)) +
      s.reaper.data.count (some (.main o)) := by
    rcases he' with he' | he'
    · have hcq : 0 < (s.cq.map Cqe.userData).count (some (.main o)) :=
        List.count_pos_iff.mpr (List.mem_map.mpr ⟨e', he', hdata'⟩)
      omega
    · rw [he', ReaperPc.data, hdata']
      simp
  unfold entries at hone
  simp only [List.count_append] at hone
  omega

/-! ## Steps -/

theorem delivers_call (h : ∀ o, Delivers s o) {o : ο} (ha : s.op o = .idle)
    (o' : ο) : Delivers (next command s (.call o)) o' := by
  by_cases ho : o' = o
  · subst ho
    have hself : (next command s (.call o')).completion (.main o') =
        { s.completion (.main o') with handle := some o' } :=
      Function.update_self ..
    have hop : (next command s (.call o')).op o' = .stored :=
      Function.update_self ..
    refine ⟨fun _ => ?_, (h o').timeoutHandle, ?_, (h o').posted, ?_, ?_,
      fun _ => (h o').unposted (by rw [ha]; rfl)⟩
    · rw [hself]
    · rw [hop]
      have hscheduled := (h o').scheduled
      rwa [ha] at hscheduled
    · rw [hself]
      exact (h o').result
    · rw [hop]
      exact nofun
  · refine (h o').frame ?_ rfl rfl rfl rfl (fun _ _ he => he) (.inl ?_)
    · exact Function.update_of_ne (by simpa using ho) ..
    · exact Function.update_of_ne ho ..

theorem delivers_refuse (h : ∀ o, Delivers s o) (haccounts : Accounts command s)
    {o : ο} (ha : s.op o = .stored) (o' : ο) : Delivers (s.refuse o) o' := by
  by_cases ho : o' = o
  · subst ho
    have hself : (s.refuse o').completion (.main o') =
        { s.completion (.main o') with result := enomem } :=
      Function.update_self ..
    have hop : (s.refuse o').op o' = .refused := Function.update_self ..
    have hscheduled : (s.refuse o').scheduled o' = s.scheduled o' + 1 :=
      Function.update_self ..
    have hprocessed : s.processed (.main o') = 0 := by
      have haccount := haccounts.main o'
      rw [ha] at haccount
      exact Nat.eq_zero_of_add_eq_zero_left haccount
    refine ⟨fun _ => ?_, (h o').timeoutHandle, ?_, (h o').posted,
      fun hpos => ?_, fun _ => ?_, fun _ => (h o').unposted (by rw [ha]; rfl)⟩
    · rw [hself]
      exact (h o').handle (by rw [ha]; exact nofun)
    · rw [hscheduled, hop, (h o').scheduled, ha]
      rfl
    · exact absurd hpos (by
        change ¬0 < s.processed (.main o')
        rw [hprocessed]
        exact Nat.lt_irrefl 0)
    · rw [hself]
  · refine (h o').frame ?_ rfl ?_ rfl rfl (fun _ _ he => he) (.inl ?_)
    · exact Function.update_of_ne (by simpa using ho) ..
    · exact Function.update_of_ne ho ..
    · exact Function.update_of_ne ho ..

theorem delivers_move (h : ∀ o, Delivers s o) {o o' : ο} {p : OpPc}
    (hcompletion : s'.completion = s.completion)
    (hscheduled : s'.scheduled = s.scheduled)
    (hprocessed : s'.processed = s.processed)
    (hposted : s'.posted = s.posted) (hcq : s'.cq = s.cq)
    (hreaper : s'.reaper = s.reaper)
    (hop : s'.op = Function.update s.op o p) (hidle : s.op o ≠ .idle)
    (hissued : (s.op o).issued ≤ p.issued) (hold : s.op o ≠ .refused)
    (hnew : p ≠ .refused) : Delivers s' o' := by
  refine (h o').frame (by rw [hcompletion]) (by rw [hcompletion])
    (by rw [hscheduled]) (by rw [hprocessed]) (by rw [hposted])
    (fun e _ he => ?_) ?_
  · unfold State.HasCqe at he ⊢
    rwa [hcq, hreaper] at he
  · rw [hop]
    by_cases ho : o' = o
    · subst ho
      rw [Function.update_self]
      exact .inr ⟨hidle, hissued, hold, hnew⟩
    · exact .inl (Function.update_of_ne ho ..)

theorem delivers_getSqe (h : ∀ o, Delivers s o)
    (haccounts : Accounts command s) {o : ο} (ha : s.op o = .stored) (o' : ο) :
    Delivers (next command s (.getSqe o)) o' := by
  have hidle : s.op o ≠ .idle := by rw [ha]; exact nofun
  have hold : s.op o ≠ .refused := by rw [ha]; exact nofun
  have hissued : ∀ v w, (s.op o).issued ≤ (OpPc.reserved v w).issued := by
    rw [ha]
    exact fun _ _ => le_rfl
  rcases next_getSqe_cases s command o with
    ⟨q, hfree, hq, hlinked, hnext⟩ | ⟨q, hfree, hfree', hq, hlinked, hnext⟩ |
      ⟨q, hfree, hq, -, -, hnext⟩ | hnext
  · rw [hnext]
    exact delivers_move h rfl rfl rfl rfl rfl rfl rfl hidle (hissued _ _) hold
      nofun
  · rw [hnext]
    exact delivers_move h rfl rfl rfl rfl rfl rfl rfl hidle (hissued _ _) hold
      nofun
  · have hrefuse := delivers_refuse h haccounts ha o'
    rw [hnext]
    exact hrefuse.frame rfl rfl rfl rfl rfl (fun _ _ he => he) (.inl rfl)
  · rw [hnext]
    exact delivers_refuse h haccounts ha o'

theorem delivers_post (h : ∀ o, Delivers s o) (haccounts : Accounts command s)
    (i : ℕ) (res : ℤ) (flags : ℕ) (o : ο) :
    Delivers (s.post i res flags) o := by
  cases hi : s.inflight[i]? with
  | none =>
      rw [State.post, hi]
      exact h o
  | some e =>
      have hmem := List.mem_of_getElem? hi
      have hpost : s.post i res flags = { s with
          inflight := s.inflight.eraseIdx i
          cq := s.cq ++ [⟨e.userData, res, flags⟩]
          posted := (s.post i res flags).posted } := by
        rw [State.post, hi]
      have hcqes : ∀ e', (s.post i res flags).HasCqe e' →
          s.HasCqe e' ∨ e' = ⟨e.userData, res, flags⟩ := by
        intro e' he'
        rw [hpost] at he'
        rcases he' with he' | he'
        · rcases List.mem_append.mp he' with he' | he'
          · exact .inl (.inl he')
          · exact .inr (List.mem_singleton.mp he')
        · exact .inl (.inr he')
      by_cases hdata : e.userData = some (.main o)
      · have hposted : (s.post i res flags).posted o = some res := by
          rw [State.post, hi]
          simp only [hdata, Function.update_self]
        obtain ⟨hissued, -, hprocessed⟩ :=
          haccounts.of_mem (hdata ▸ mem_entries_of_inflight hmem)
        rw [hpost]
        refine ⟨(h o).handle, (h o).timeoutHandle, (h o).scheduled,
          fun e' he' hdata' => ?_, fun hpos => ?_, (h o).refused, fun hno => ?_⟩
        · rw [← hpost] at he'
          change (s.post i res flags).posted o = _
          rcases hcqes e' he' with he' | rfl
          · exact absurd hdata'
              (not_hasCqe_of_inflight haccounts hmem hdata he')
          · exact hposted
        · change 0 < s.processed _ at hpos
          omega
        · change (s.op o).issued = 0 at hno
          omega
      · have hposted : (s.post i res flags).posted o = s.posted o := by
          rw [State.post, hi]
          cases hd : e.userData with
          | none => simp only [hd]
          | some c =>
              cases c with
              | timeout d => simp only [hd]
              | main d =>
                  simp only [hd]
                  refine Function.update_of_ne ?_ ..
                  rintro rfl
                  exact hdata hd
        refine (h o).frame ?_ ?_ ?_ ?_ hposted (fun e' hdata' he' => ?_) ?_
        · rw [hpost]
        · rw [hpost]
        · rw [hpost]
        · rw [hpost]
        · refine (hcqes e' he').resolve_right ?_
          rintro rfl
          exact hdata hdata'
        · rw [hpost]
          exact .inl rfl

/-! ## The completion thread's turn -/

theorem process_none {e : Cqe ο} (he : e.userData = none) :
    s.process e = s := by
  rw [State.process, he]

theorem process_some {e : Cqe ο} {c : Completion ο}
    (he : e.userData = some c) :
    s.process e =
      { (s.fill c e.res e.flags).schedule (s.completion c).handle with
        processed := Function.update s.processed c (s.processed c + 1) } := by
  rw [State.process, he]

theorem delivers_processTimeout (h : ∀ o, Delivers s o) {e : Cqe ο} {d : ο}
    (he : e.userData = some (.timeout d)) (o : ο) :
    Delivers (s.process e) o := by
  have hnext := process_some (s := s) he
  rw [(h d).timeoutHandle] at hnext
  rw [hnext]
  refine ⟨(h o).handle, ?_, ?_, (h o).posted, ?_, (h o).refused,
    (h o).unposted⟩
  · change (Function.update s.completion (.timeout d) _ (.timeout o)).handle =
      none
    by_cases ho : o = d
    · subst ho
      rw [Function.update_self]
      exact (h o).timeoutHandle
    · rw [Function.update_of_ne (by simpa using ho)]
      exact (h o).timeoutHandle
  · exact (h o).scheduled
  · exact (h o).result

theorem delivers_processMain (h : ∀ o, Delivers s o)
    (haccounts : Accounts command s) {e : Cqe ο} {d : ο}
    (hreaper : s.reaper = .taken e) (he : e.userData = some (.main d)) (o : ο) :
    Delivers (s.process e) o := by
  have hcqe : s.HasCqe e := .inr hreaper
  obtain ⟨hissued, -, hprocessed⟩ :=
    haccounts.of_mem (he ▸ mem_entries_of_cqe hcqe)
  obtain ⟨hidle, hrefused⟩ := OpPc.of_issued hissued
  have hnext := process_some (s := s) he
  rw [(h d).handle hidle] at hnext
  rw [hnext]
  by_cases ho : o = d
  · subst ho
    refine ⟨fun _ => ?_, (h o).timeoutHandle, ?_, (h o).posted, fun _ => ?_,
      fun hno => absurd hno hrefused, (h o).unposted⟩
    · change (Function.update s.completion (.main o) _ (.main o)).handle = _
      rw [Function.update_self]
      exact (h o).handle hidle
    · change Function.update s.scheduled o (s.scheduled o + 1) o =
        Function.update s.processed (.main o) (s.processed (.main o) + 1)
          (.main o) + (s.op o).refusals
      rw [Function.update_self, Function.update_self, (h o).scheduled]
      exact Nat.add_right_comm ..
    · change s.posted o =
        some (Function.update s.completion (.main o) _ (.main o)).result
      rw [Function.update_self]
      exact (h o).posted e hcqe he
  · have hne : Completion.main o ≠ .main d := by simpa using ho
    refine (h o).frame ?_ rfl ?_ ?_ rfl (fun _ _ he => he) (.inl rfl)
    · exact Function.update_of_ne hne ..
    · exact Function.update_of_ne ho ..
    · exact Function.update_of_ne hne ..

theorem delivers_process (h : ∀ o, Delivers s o)
    (haccounts : Accounts command s) {e : Cqe ο}
    (hreaper : s.reaper = .taken e) (o : ο) :
    Delivers (next command s (.process e)) o := by
  have hprocess : Delivers (s.process e) o := by
    cases he : e.userData with
    | none =>
        rw [process_none he]
        exact h o
    | some c =>
        cases c with
        | main d => exact delivers_processMain h haccounts hreaper he o
        | timeout d => exact delivers_processTimeout h he o
  refine hprocess.frame rfl rfl rfl rfl rfl (fun e' _ he' => ?_) (.inl rfl)
  exact he'.elim .inl nofun

theorem delivers_next {a : Action ο} (h : ∀ o, Delivers s o)
    (haccounts : Accounts command s) (ha : Enabled s a) (o : ο) :
    Delivers (next command s a) o := by
  cases a with
  | call d => exact delivers_call h ha o
  | getSqe d => exact delivers_getSqe h haccounts ha o
  | prep d v w =>
      refine delivers_move (p := .prepared) h ?_ ?_ ?_ ?_ ?_ ?_ ?_
        (by rw [ha]; exact nofun) (by rw [ha]; exact Nat.zero_le _)
          (by rw [ha]; exact nofun) nofun <;> cases w <;> rfl
  | submit d k =>
      have hmove : Delivers
          { s with op := Function.update s.op d .suspended } o :=
        delivers_move h rfl rfl rfl rfl rfl rfl rfl (by rw [ha]; exact nofun)
          (by rw [ha]; exact le_rfl) (by rw [ha]; exact nofun) nofun
      change Delivers
        { s.submit k with op := Function.update s.op d .suspended } o
      rw [submit_eq]
      exact hmove.frame rfl rfl rfl rfl rfl (fun _ _ he => he) (.inl rfl)
  | post i res flags => exact delivers_post h haccounts i res flags o
  | process e => exact delivers_process h haccounts ha o
  | resume | exchange | nopPrep | join =>
      exact (h o).frame rfl rfl rfl rfl rfl (fun _ _ he => he) (.inl rfl)
  | loadRunning =>
      refine (h o).frame rfl rfl rfl rfl rfl (fun e _ he => ?_) (.inl rfl)
      refine he.elim .inl fun he => ?_
      change (if s.running = true then ReaperPc.waiting else .exited) =
        .taken e at he
      split at he <;> cases he
  | interrupted | fatal | seen =>
      refine (h o).frame rfl rfl rfl rfl rfl (fun e _ he => ?_) (.inl rfl)
      exact he.elim .inl nofun
  | waitCqe e =>
      refine (h o).frame rfl rfl rfl rfl rfl (fun e' _ he => ?_) (.inl rfl)
      rcases he with he | he
      · exact .inl (List.mem_of_mem_tail he)
      · cases he
        exact .inl (List.mem_of_head? ha.2)
  | nopGetSqe =>
      rcases next_nopGetSqe_cases s command with ⟨q, hfree, hq, hnext⟩ | hnext
      all_goals
        rw [hnext]
        exact (h o).frame rfl rfl rfl rfl rfl (fun _ _ he => he) (.inl rfl)
  | nopSubmit k =>
      change Delivers { s.submit k with closer := .joining } o
      rw [submit_eq]
      exact (h o).frame rfl rfl rfl rfl rfl (fun _ _ he => he) (.inl rfl)
  | queueExit =>
      refine (h o).frame rfl rfl rfl rfl rfl (fun e _ he => ?_) (.inl rfl)
      exact he.elim nofun .inr

/-- In a run in which a submit sends only entries that are prepared, handles,
schedules and results agree. -/
theorem delivers_reachable
    (hs : (system command).ReachableWhere SendsPrepared s) (o : ο) :
    Delivers s o := by
  refine hs.invariant_of (fun s => ∀ o, Delivers s o)
    (fun s hs => accounts_reachable hs) ?_
    (fun s a hJ h ha _ => delivers_next h hJ.2 ha) o
  rintro s ⟨sqe, rfl | rfl⟩ o
  · exact delivers_of_idle rfl rfl rfl rfl rfl fun e he => he.elim nofun nofun
  · exact delivers_of_idle rfl rfl rfl rfl rfl fun e he => he.elim nofun nofun

end IoUring
end Ethreads
