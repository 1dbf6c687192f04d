import Ethreads.Support.TransitionSystem
import Mathlib.Data.List.Basic

/-!
# Linearizability

A sequential object says what each operation may return and what it leaves of
the data.  The users of a concurrent object see calls and returns.  Their
history is linearizable if the operations, put in a suitable order, form a run
of the sequential object, and this order is compatible with the history: at
each moment all operations that have returned come first, and none that has
not been called yet comes before the others.

The atomic object performs each operation in one step between its call and its
return.  Its histories are linearizable, so a program is linearizable as soon
as its steps can be read as steps of the atomic object.
-/

namespace Ethreads

/-- A sequential object with data of type `δ`: what an operation of type `ο`
by a user of type `τ` may return, and what it leaves of the data. -/
structure SequentialObject (τ δ ο ρ : Type*) where
  Step : τ → ο → δ → ρ → δ → Prop

namespace SequentialObject

/-! ## Histories -/

/-- What the users see. -/
inductive HistoryEvent (τ ο ρ : Type*)
  | call (t : τ) (op : ο)
  | ret (t : τ) (op : ο) (result : ρ)
  deriving DecidableEq, Repr

/-- An operation with its user and its result. -/
structure Entry (τ ο ρ : Type*) where
  thread : τ
  op : ο
  result : ρ
  deriving DecidableEq, Repr

section Histories

variable {τ δ ο ρ : Type*} [DecidableEq τ]

/-- The operations that a user has called. -/
def callsOf (t : τ) (H : List (HistoryEvent τ ο ρ)) : List ο :=
  H.filterMap fun
    | .call u op => if u = t then some op else none
    | .ret _ _ _ => none

/-- The operations of a user that have returned, with their results. -/
def returnsOf (t : τ) (H : List (HistoryEvent τ ο ρ)) : List (ο × ρ) :=
  H.filterMap fun
    | .call _ _ => none
    | .ret u op r => if u = t then some (op, r) else none

/-- The operations of a user in a sequence of operations. -/
def performedBy (t : τ) (S : List (Entry τ ο ρ)) : List (ο × ρ) :=
  S.filterMap fun e => if e.thread = t then some (e.op, e.result) else none

omit [DecidableEq τ] in
theorem filterMap_cons_toList {α β : Type*} (f : α → Option β) (a : α)
    (l : List α) : (a :: l).filterMap f = (f a).toList ++ l.filterMap f := by
  rw [List.filterMap_eq_flatMap_toList, List.filterMap_eq_flatMap_toList]
  rfl

/-- A sequence of operations agrees with a history: it has all that have
returned, with their results, and none that has not been called. -/
structure Agrees (H : List (HistoryEvent τ ο ρ)) (S : List (Entry τ ο ρ)) :
    Prop where
  returned : ∀ t, returnsOf t H <+: performedBy t S
  called : ∀ t, (performedBy t S).map Prod.fst <+: callsOf t H

/-- The sequence of operations is a run of the sequential object. -/
inductive Legal (O : SequentialObject τ δ ο ρ) (d : δ) :
    List (Entry τ ο ρ) → δ → Prop
  | nil : Legal O d [] d
  | snoc {S : List (Entry τ ο ρ)} {d' d'' : δ} {t : τ} {op : ο} {r : ρ} :
      Legal O d S d' → O.Step t op d' r d'' →
        Legal O d (S ++ [⟨t, op, r⟩]) d''

/-- The sequence of operations explains the history, and so does some part at
its front explain each part at the front of the history: what has returned
there precedes what is called later. -/
structure Linearizes (O : SequentialObject τ δ ο ρ) (d : δ)
    (H : List (HistoryEvent τ ο ρ)) (S : List (Entry τ ο ρ)) : Prop where
  legal : ∃ d', O.Legal d S d'
  agrees : Agrees H S
  realTime : ∀ H₁, H₁ <+: H → ∃ S₁, S₁ <+: S ∧ Agrees H₁ S₁

/-- Some order of the operations explains the history. -/
def Linearizable (O : SequentialObject τ δ ο ρ) (d : δ)
    (H : List (HistoryEvent τ ο ρ)) : Prop :=
  ∃ S, O.Linearizes d H S

omit [DecidableEq τ] in
theorem Legal.mono {O O' : SequentialObject τ δ ο ρ} {d d' : δ}
    {S : List (Entry τ ο ρ)}
    (hstep : ∀ t op e r e', O.Step t op e r e' → O'.Step t op e r e')
    (h : O.Legal d S d') : O'.Legal d S d' := by
  induction h with
  | nil => exact .nil
  | snoc _ hlast ih => exact .snoc ih (hstep _ _ _ _ _ hlast)

/-- An object that allows more explains more. -/
theorem Linearizable.mono {O O' : SequentialObject τ δ ο ρ} {d : δ}
    {H : List (HistoryEvent τ ο ρ)}
    (hstep : ∀ t op e r e', O.Step t op e r e' → O'.Step t op e r e')
    (h : O.Linearizable d H) : O'.Linearizable d H := by
  obtain ⟨S, ⟨d', hlegal⟩, hagrees, htime⟩ := h
  exact ⟨S, ⟨d', hlegal.mono hstep⟩, hagrees, htime⟩

end Histories

/-! ## The atomic object -/

/-- Where a user stands. -/
inductive Status (ο ρ : Type*)
  | idle
  | called (op : ο)
  | performed (op : ο) (result : ρ)
  deriving DecidableEq, Repr

/-- The data and the users of the atomic object. -/
structure AtomicState (τ δ ο ρ : Type*) where
  data : δ
  status : τ → Status ο ρ

inductive AtomicAction (τ δ ο ρ : Type*)
  | call (t : τ) (op : ο)
  | perform (t : τ) (op : ο) (result : ρ) (d : δ)
  | ret (t : τ) (op : ο) (result : ρ)

/-- What the users see of a step. -/
def AtomicAction.visible {τ δ ο ρ : Type*} :
    AtomicAction τ δ ο ρ → Option (HistoryEvent τ ο ρ)
  | call t op => some (.call t op)
  | perform _ _ _ _ => none
  | ret t op r => some (.ret t op r)

/-- The operation that a step performs. -/
def AtomicAction.entry {τ δ ο ρ : Type*} :
    AtomicAction τ δ ο ρ → Option (Entry τ ο ρ)
  | perform t op r _ => some ⟨t, op, r⟩
  | _ => none

def atomicInitial {δ : Type*} (τ ο ρ : Type*) (d : δ) :
    AtomicState τ δ ο ρ where
  data := d
  status := fun _ => .idle

section Atomic

variable {τ δ ο ρ : Type*} [DecidableEq τ]

/-- The object that performs each operation in one step. -/
def atomic (O : SequentialObject τ δ ο ρ) (d : δ) :
    TransitionSystem (AtomicState τ δ ο ρ) (AtomicAction τ δ ο ρ) where
  Initial s := s = atomicInitial τ ο ρ d
  Enabled
    | s, .call t _ => s.status t = .idle
    | s, .perform t op r d' =>
        s.status t = .called op ∧ O.Step t op s.data r d'
    | s, .ret t op r => s.status t = .performed op r
  next
    | s, .call t op =>
        { s with status := Function.update s.status t (.called op) }
    | s, .perform t op r d' =>
        { data := d'
          status := Function.update s.status t (.performed op r) }
    | s, .ret t _ _ =>
        { s with status := Function.update s.status t .idle }

/-- What is known of a user from its calls, its returns and the operations
performed for it. -/
def Status.Tracks (calls : List ο) (returns performed : List (ο × ρ)) :
    Status ο ρ → Prop
  | idle => returns = performed ∧ performed.map Prod.fst = calls
  | called op => returns = performed ∧ performed.map Prod.fst ++ [op] = calls
  | .performed op r =>
      returns ++ [(op, r)] = performed ∧ performed.map Prod.fst = calls

/-- The operations performed so far explain the history so far. -/
structure Explained (O : SequentialObject τ δ ο ρ) (d : δ)
    (s : AtomicState τ δ ο ρ) (H : List (HistoryEvent τ ο ρ))
    (S : List (Entry τ ο ρ)) : Prop where
  legal : O.Legal d S s.data
  status : ∀ t, (s.status t).Tracks (callsOf t H) (returnsOf t H)
    (performedBy t S)
  realTime : ∀ H₁, H₁ <+: H → ∃ S₁, S₁ <+: S ∧ Agrees H₁ S₁

variable {O : SequentialObject τ δ ο ρ} {d : δ} {s : AtomicState τ δ ο ρ}
  {H : List (HistoryEvent τ ο ρ)} {S : List (Entry τ ο ρ)}

omit [DecidableEq τ] in
theorem Status.Tracks.returned {calls : List ο}
    {returns performed : List (ο × ρ)} {p : Status ο ρ}
    (h : p.Tracks calls returns performed) : returns <+: performed := by
  cases p with
  | idle => exact h.1 ▸ List.prefix_refl _
  | called op => exact h.1 ▸ List.prefix_refl _
  | performed op r => exact h.1 ▸ List.prefix_append _ _

omit [DecidableEq τ] in
theorem Status.Tracks.called {calls : List ο}
    {returns performed : List (ο × ρ)} {p : Status ο ρ}
    (h : p.Tracks calls returns performed) :
    performed.map Prod.fst <+: calls := by
  cases p with
  | idle => exact h.2 ▸ List.prefix_refl _
  | called op => exact h.2 ▸ List.prefix_append _ _
  | performed op r => exact h.2 ▸ List.prefix_refl _

theorem agrees_of_tracks {status : τ → Status ο ρ}
    (h : ∀ t, (status t).Tracks (callsOf t H) (returnsOf t H)
      (performedBy t S)) : Agrees H S where
  returned t := (h t).returned
  called t := (h t).called

/-- One more event of a history that is still explained. -/
theorem realTime_snoc {e : HistoryEvent τ ο ρ}
    (h : ∀ H₁, H₁ <+: H → ∃ S₁, S₁ <+: S ∧ Agrees H₁ S₁)
    (hall : Agrees (H ++ [e]) S) :
    ∀ H₁, H₁ <+: H ++ [e] → ∃ S₁, S₁ <+: S ∧ Agrees H₁ S₁ := by
  intro H₁ hH₁
  rcases List.prefix_concat_iff.mp hH₁ with rfl | hold
  · exact ⟨S, List.prefix_refl _, hall⟩
  · exact h H₁ hold

theorem explained_call {t : τ} (op : ο) (h : Explained O d s H S)
    (hidle : s.status t = .idle) :
    Explained O d ((O.atomic d).next s (.call t op)) (H ++ [.call t op]) S := by
  have hstatus : ∀ u, (((O.atomic d).next s (.call t op)).status u).Tracks
      (callsOf u (H ++ [.call t op])) (returnsOf u (H ++ [.call t op]))
      (performedBy u S) := by
    intro u
    have hu := h.status u
    simp only [callsOf, returnsOf, List.filterMap_append, atomic] at hu ⊢
    by_cases hut : u = t
    · subst hut
      rw [hidle] at hu
      simp only [Function.update_self, List.filterMap_cons,
        List.filterMap_nil, if_true, List.append_nil]
      exact ⟨hu.1, by rw [hu.2]⟩
    · rw [Function.update_of_ne hut]
      simpa [Ne.symm hut] using hu
  exact ⟨h.legal, hstatus, realTime_snoc h.realTime (agrees_of_tracks hstatus)⟩

theorem explained_perform {t : τ} {op : ο} {r : ρ} {d' : δ}
    (h : Explained O d s H S) (hcalled : s.status t = .called op)
    (hstep : O.Step t op s.data r d') :
    Explained O d ((O.atomic d).next s (.perform t op r d')) H
      (S ++ [⟨t, op, r⟩]) := by
  refine ⟨h.legal.snoc hstep, fun u => ?_, fun H₁ hH₁ => ?_⟩
  · have hu := h.status u
    simp only [performedBy, List.filterMap_append, atomic] at hu ⊢
    by_cases hut : u = t
    · subst hut
      rw [hcalled] at hu
      simp only [Function.update_self, List.filterMap_cons,
        List.filterMap_nil, if_true]
      refine ⟨by rw [hu.1], ?_⟩
      rw [List.map_append]
      exact hu.2
    · rw [Function.update_of_ne hut]
      simpa [Ne.symm hut] using hu
  · obtain ⟨S₁, hS₁, hagrees⟩ := h.realTime H₁ hH₁
    exact ⟨S₁, hS₁.trans (List.prefix_append _ _), hagrees⟩

theorem explained_ret {t : τ} {op : ο} {r : ρ} (h : Explained O d s H S)
    (hperformed : s.status t = .performed op r) :
    Explained O d ((O.atomic d).next s (.ret t op r)) (H ++ [.ret t op r])
      S := by
  have hstatus : ∀ u, (((O.atomic d).next s (.ret t op r)).status u).Tracks
      (callsOf u (H ++ [.ret t op r])) (returnsOf u (H ++ [.ret t op r]))
      (performedBy u S) := by
    intro u
    have hu := h.status u
    simp only [callsOf, returnsOf, List.filterMap_append, atomic] at hu ⊢
    by_cases hut : u = t
    · subst hut
      rw [hperformed] at hu
      simp only [Function.update_self, List.filterMap_cons,
        List.filterMap_nil, if_true, List.append_nil]
      exact hu
    · rw [Function.update_of_ne hut]
      simpa [Ne.symm hut] using hu
  exact ⟨h.legal, hstatus, realTime_snoc h.realTime (agrees_of_tracks hstatus)⟩

/-- A step of the atomic object, with what the users see of it and the
operation that it performs. -/
theorem explained_next {a : AtomicAction τ δ ο ρ} (h : Explained O d s H S)
    (ha : (O.atomic d).Enabled s a) :
    Explained O d ((O.atomic d).next s a) (H ++ a.visible.toList)
      (S ++ a.entry.toList) := by
  cases a with
  | call t op =>
      have hnext := explained_call op h ha
      rwa [← List.append_nil S] at hnext
  | perform t op r d' =>
      have hnext := explained_perform h ha.1 ha.2
      rwa [← List.append_nil H] at hnext
  | ret t op r =>
      have hnext := explained_ret h ha
      rwa [← List.append_nil S] at hnext

theorem explained_initial : Explained O d (atomicInitial τ ο ρ d) [] [] where
  legal := .nil
  status _ := ⟨rfl, rfl⟩
  realTime := by
    intro H₁ hH₁
    obtain rfl := List.prefix_nil.mp hH₁
    exact ⟨[], List.prefix_refl _, fun _ => List.prefix_refl _,
      fun _ => List.prefix_refl _⟩

/-- Steps of the atomic object, with what the users see of them and the
operations that they perform. -/
theorem explained_after {l : List (AtomicAction τ δ ο ρ)}
    (h : Explained O d s H S) (hl : (O.atomic d).Executes s l) :
    Explained O d ((O.atomic d).after s l)
      (H ++ l.filterMap AtomicAction.visible)
      (S ++ l.filterMap AtomicAction.entry) := by
  induction l generalizing s H S with
  | nil =>
      rw [List.filterMap_nil, List.filterMap_nil, List.append_nil,
        List.append_nil]
      exact h
  | cons a l ih =>
      have hrest := ih (explained_next h hl.1) hl.2
      rw [List.append_assoc, List.append_assoc] at hrest
      rw [filterMap_cons_toList, filterMap_cons_toList]
      exact hrest

/-! ## Steps that the users do not tell apart -/

/-- The atomic object gets from `x` to `y` by steps of which the users see
`v`. -/
def Moves (O : SequentialObject τ δ ο ρ) (d : δ) (x y : AtomicState τ δ ο ρ)
    (v : Option (HistoryEvent τ ο ρ)) : Prop :=
  ∃ l, (O.atomic d).Executes x l ∧ (O.atomic d).after x l = y ∧
    l.filterMap AtomicAction.visible = v.toList

theorem Moves.refl {x y : AtomicState τ δ ο ρ} (h : y = x) :
    Moves O d x y none :=
  ⟨[], trivial, h.symm, rfl⟩

theorem Moves.of_step {x y : AtomicState τ δ ο ρ} {b : AtomicAction τ δ ο ρ}
    (hb : (O.atomic d).Enabled x b) (hy : y = (O.atomic d).next x b) :
    Moves O d x y b.visible := by
  refine ⟨[b], ⟨hb, trivial⟩, hy.symm, ?_⟩
  rw [filterMap_cons_toList]
  exact List.append_nil _

/-- A step that the users see after one that they do not see. -/
theorem Moves.trans {x y z : AtomicState τ δ ο ρ}
    {v : Option (HistoryEvent τ ο ρ)} (hxy : Moves O d x y none)
    (hyz : Moves O d y z v) : Moves O d x z v := by
  obtain ⟨l, hl, rfl, hvisible⟩ := hxy
  obtain ⟨l', hl', rfl, hvisible'⟩ := hyz
  refine ⟨l ++ l', hl.append hl', (O.atomic d).after_append x l l', ?_⟩
  rw [List.filterMap_append, hvisible, hvisible']
  rfl

/-- The atomic object whose users stand where their program points say. -/
def standing {π : Type*} (status : π → Status ο ρ) (d : δ) (pc : τ → π) :
    AtomicState τ δ ο ρ where
  data := d
  status t := status (pc t)

section Points

variable {π : Type*} {status : π → Status ο ρ} {e : δ} {pc pc' : τ → π} {t : τ}
  {p q : π} {op : ο} {r : ρ}

theorem standing_update (hpc : pc' = Function.update pc t q) :
    standing status e pc' =
      { data := e
        status :=
          Function.update (standing status d pc).status t (status q) } := by
  subst hpc
  unfold standing
  congr 1
  funext u
  by_cases hu : u = t
  · subst hu
    rw [Function.update_self, Function.update_self]
  · rw [Function.update_of_ne hu, Function.update_of_ne hu]

/-- A thread moves between two program points at which its operation stands
alike. -/
theorem standing_same (hp : pc t = p) (hpc : pc' = Function.update pc t q)
    (hstatus : status q = status p) :
    standing status d pc' = standing status d pc := by
  have hold : (standing status d pc).status t = status q := by
    rw [hstatus, ← hp]
    rfl
  rw [standing_update hpc (d := d), ← hold, Function.update_eq_self]
  rfl

variable {c : δ}

theorem moves_hidden (hp : pc t = p) (hpc : pc' = Function.update pc t q)
    (hstatus : status q = status p) :
    Moves O c (standing status d pc) (standing status d pc') none :=
  .refl (standing_same hp hpc hstatus)

theorem moves_call (hp : pc t = p) (hpc : pc' = Function.update pc t q)
    (hidle : status p = .idle) (hcalled : status q = .called op) :
    Moves O c (standing status d pc) (standing status d pc')
      (some (.call t op)) := by
  have hstands : (standing status d pc).status t = .idle :=
    (congrArg status hp).trans hidle
  refine Moves.of_step (b := .call t op) hstands ?_
  rw [standing_update hpc (d := d), hcalled]
  rfl

theorem moves_perform (hp : pc t = p) (hpc : pc' = Function.update pc t q)
    (hcalled : status p = .called op) (hperformed : status q = .performed op r)
    (hstep : O.Step t op d r e) :
    Moves O c (standing status d pc) (standing status e pc') none := by
  have hstands : (standing status d pc).status t = .called op :=
    (congrArg status hp).trans hcalled
  refine Moves.of_step (b := .perform t op r e) ⟨hstands, hstep⟩ ?_
  rw [standing_update hpc (d := d), hperformed]
  rfl

theorem moves_ret (hp : pc t = p) (hpc : pc' = Function.update pc t q)
    (hperformed : status p = .performed op r) (hidle : status q = .idle) :
    Moves O c (standing status d pc) (standing status d pc')
      (some (.ret t op r)) := by
  have hstands : (standing status d pc).status t = .performed op r :=
    (congrArg status hp).trans hperformed
  refine Moves.of_step (b := .ret t op r) hstands ?_
  rw [standing_update hpc (d := d), hidle]
  rfl

/-- An operation takes effect and returns in one step. -/
theorem moves_perform_ret {m : π} (hp : pc t = p)
    (hpc : pc' = Function.update pc t q) (hcalled : status p = .called op)
    (hperformed : status m = .performed op r) (hidle : status q = .idle)
    (hstep : O.Step t op d r e) :
    Moves O c (standing status d pc) (standing status e pc')
      (some (.ret t op r)) := by
  have hlast : pc' = Function.update (Function.update pc t m) t q := by
    rw [hpc, Function.update_idem]
  have hmid : Moves O c (standing status d pc)
      (standing status e (Function.update pc t m)) none :=
    moves_perform hp rfl hcalled hperformed hstep
  exact hmid.trans
    (moves_ret (Function.update_self _ _ _) hlast hperformed hidle)

end Points

/-! ## Reading a program as the atomic object -/

/-- Each step of the program can be read as steps of the atomic object that the
users see in the same way. -/
structure ReadsAs {σ α : Type*} (M : TransitionSystem σ α)
    (see : σ → α → Option (HistoryEvent τ ο ρ)) (O : SequentialObject τ δ ο ρ)
    (d : δ) (f : σ → AtomicState τ δ ο ρ) : Prop where
  initial : ∀ s, M.Initial s → f s = atomicInitial τ ο ρ d
  step : ∀ s a, M.Reachable s → M.Enabled s a →
    Moves O d (f s) (f (M.next s a)) (see s a)

/-- What the users see of a run. -/
def history {σ α ε : Type*} (M : TransitionSystem σ α) (see : σ → α → Option ε)
    (s : σ) : List α → List ε
  | [] => []
  | a :: l => (see s a).toList ++ history M see (M.next s a) l

variable {σ α : Type*} {M : TransitionSystem σ α}
  {see : σ → α → Option (HistoryEvent τ ο ρ)} {f : σ → AtomicState τ δ ο ρ}

omit [DecidableEq τ] in
/-- What the users see may depend on the step alone. -/
theorem history_filterMap (visible : α → Option (HistoryEvent τ ο ρ)) (s : σ)
    (l : List α) : history M (fun _ => visible) s l = l.filterMap visible := by
  induction l generalizing s with
  | nil => rfl
  | cons a l ih =>
      rw [filterMap_cons_toList, ← ih (M.next s a)]
      rfl

omit [DecidableEq τ] in
theorem history_restrict (P : σ → α → Prop) (s : σ) (l : List α) :
    history (M.restrict P) see s l = history M see s l := by
  induction l generalizing s with
  | nil => rfl
  | cons a l ih => exact congrArg ((see s a).toList ++ ·) (ih (M.next s a))

/-- Every run of the program goes on explaining its history. -/
theorem ReadsAs.explained (h : ReadsAs M see O d f) {s : σ} {l : List α}
    (hs : M.Reachable s) (hl : M.Executes s l)
    (hexplained : Explained O d (f s) H S) :
    ∃ S', Explained O d (f (M.after s l)) (H ++ history M see s l)
      (S ++ S') := by
  induction l generalizing s H S with
  | nil =>
      refine ⟨[], ?_⟩
      rw [List.append_nil]
      exact (List.append_nil H).symm ▸ hexplained
  | cons a l ih =>
      obtain ⟨bs, hbs, hafter, hvisible⟩ := h.step s a hs hl.1
      have hnext := explained_after hexplained hbs
      rw [hafter, hvisible] at hnext
      obtain ⟨S', hS'⟩ := ih (.step hs hl.1 trivial) hl.2 hnext
      rw [List.append_assoc, List.append_assoc] at hS'
      exact ⟨bs.filterMap AtomicAction.entry ++ S', hS'⟩

/-- A program whose steps can be read as steps of the atomic object is
linearizable. -/
theorem ReadsAs.linearizable_seen (h : ReadsAs M see O d f) {s : σ}
    {l : List α} (hs : M.Initial s) (hl : M.Executes s l) :
    O.Linearizable d (history M see s l) := by
  have hinitial : Explained O d (f s) [] [] := by
    rw [h.initial s hs]
    exact explained_initial
  obtain ⟨S, hS⟩ := h.explained (.init hs) hl hinitial
  simp only [List.nil_append] at hS
  exact ⟨S, ⟨_, hS.legal⟩, agrees_of_tracks hS.status, hS.realTime⟩

theorem ReadsAs.linearizable {visible : α → Option (HistoryEvent τ ο ρ)}
    (h : ReadsAs M (fun _ => visible) O d f) {s : σ} {l : List α}
    (hs : M.Initial s) (hl : M.Executes s l) :
    O.Linearizable d (l.filterMap visible) := by
  rw [← history_filterMap (M := M) visible s l]
  exact h.linearizable_seen hs hl

end Atomic

end SequentialObject
end Ethreads
