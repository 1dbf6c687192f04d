import Ethreads.AsyncPrimitive.Model
import Ethreads.Support.Linked

/-!
# Who holds a waiter node

As long as every node is added from outside and `wake_one` swings the head to
the current successor of the node it removes, the list loses and duplicates no
node: a node on its way is being added by one thread, in the list, in the hands
of one waking thread, or scheduled, and it is there exactly once.
-/

namespace Ethreads
namespace AsyncPrimitive

variable {τ ν γ : Type*}

/-! ## Places -/

/-- The nodes a thread has taken out of the list and not yet delivered. -/
def Pc.Holds (next : ν → Option ν) : Pc ν → List ν → Prop
  | walkNext h, ns => Linked next (some h) ns
  | deliver h rest, ns => ∃ ms, ns = h :: ms ∧ Linked next rest ms
  | _, ns => ns = []

def Pc.adding : Pc ν → List ν
  | addLoad n | addLink n _ | addCas n _ => [n]
  | _ => []

/-- The nodes of a thread are where its program point says. -/
structure Pc.Owns (next : ν → Option ν) (place : ν → Place τ) (t : τ)
    (p : Pc ν) : Prop where
  taken : ∃ ns, p.Holds next ns ∧ Collects place (.taken t) ns
  adding : Collects place (.adding t) p.adding
  linked : ∀ n o, p = .addCas n o → next n = o

/-- Every node on its way is in exactly one place. -/
structure Owned (s : State τ ν γ) : Prop where
  listed : ∃ ns, Linked s.next s.waiters ns ∧ Collects s.place .listed ns
  owns : ∀ t, (s.pc t).Owns s.next s.place t
  scheduled : Collects s.place .scheduled s.scheduled

def AddsFresh (s : State τ ν γ) : Action τ ν γ → Prop
  | .callAdd _ n => s.place n = .outside
  | _ => True

/-- The compare-exchange of `wake_one` installs the current successor of the
head: between reading `head->next` and the exchange the head was not removed
and added again in front of another node. -/
def SwingsToNext (s : State τ ν γ) : Action τ ν γ → Prop
  | .wakeCas _ h o => s.next h = o
  | _ => True

instance [DecidableEq τ] (s : State τ ν γ) (a : Action τ ν γ) :
    Decidable (AddsFresh s a) := by
  induction a using Action.casesOn <;> dsimp only [AddsFresh] <;> infer_instance

instance [DecidableEq ν] (s : State τ ν γ) (a : Action τ ν γ) :
    Decidable (SwingsToNext s a) := by
  induction a using Action.casesOn <;> dsimp only [SwingsToNext] <;>
    infer_instance

theorem Pc.Owns.congr {next next' : ν → Option ν} {place : ν → Place τ}
    {t : τ} {p : Pc ν} (h : p.Owns next place t)
    (hnext : ∀ n, place n = .taken t ∨ place n = .adding t →
      next' n = next n) : p.Owns next' place t := by
  obtain ⟨ns, hholds, hns⟩ := h.taken
  have hsame : ∀ n ∈ ns, next' n = next n :=
    fun n hn => hnext n (.inl ((hns.2 n).mp hn))
  refine ⟨⟨ns, ?_, hns⟩, h.adding, fun m o hp => ?_⟩
  · cases p with
    | walkNext head => exact Linked.congr hholds hsame
    | deliver head rest =>
        obtain ⟨ms, rfl, hms⟩ := hholds
        exact ⟨ms, rfl, hms.congr fun n hn =>
          hsame n (List.mem_cons_of_mem _ hn)⟩
    | _ => exact hholds
  · subst hp
    rw [hnext m (.inr h.adding.place_head)]
    exact h.linked m o rfl

theorem Owned.congr {s : State τ ν γ} {next' : ν → Option ν} (h : Owned s)
    (hnext : ∀ n, s.place n ≠ .outside → next' n = s.next n) :
    Owned { s with next := next' } := by
  obtain ⟨ns, hlinked, hns⟩ := h.listed
  refine ⟨⟨ns, hlinked.congr fun n hn => hnext n ?_, hns⟩, fun t => ?_,
    h.scheduled⟩
  · rw [(hns.2 n).mp hn]
    nofun
  · refine (h.owns t).congr fun n hn => hnext n ?_
    rcases hn with hn | hn
    · rw [hn]
      nofun
    · rw [hn]
      nofun

section Frame

variable [DecidableEq ν] {next : ν → Option ν} {place : ν → Place τ} {t : τ}
  {p : Pc ν} {n : ν} {q : Place τ}

theorem Pc.Owns.frame (h : p.Owns next place t)
    (htaken : place n ≠ .taken t) (hadding : place n ≠ .adding t)
    (hqtaken : q ≠ .taken t) (hqadding : q ≠ .adding t) :
    p.Owns next (Function.update place n q) t := by
  obtain ⟨ns, hholds, hns⟩ := h.taken
  exact ⟨⟨ns, hholds, hns.frame htaken hqtaken⟩,
    h.adding.frame hadding hqadding, h.linked⟩

theorem Pc.Owns.link (h : p.Owns next place t) (htaken : place n ≠ .taken t)
    (hadding : place n ≠ .adding t) (o : Option ν) :
    p.Owns (Function.update next n o) place t := by
  refine h.congr fun m hm => Function.update_of_ne ?_ _ _
  rintro rfl
  rcases hm with hm | hm
  · exact htaken hm
  · exact hadding hm

end Frame

/-! ## Where a node in the hands of a thread is -/

section Places

variable {s : State τ ν γ} {t : τ} {n : ν}

theorem Owned.place_of_deliver {rest : Option ν} (h : Owned s)
    (hpc : s.pc t = .deliver n rest) : s.place n = .taken t := by
  have howns := h.owns t
  rw [hpc] at howns
  obtain ⟨_, ⟨ms, rfl, -⟩, htaken⟩ := howns.taken
  exact htaken.place_head

theorem Owned.place_of_walkNext (h : Owned s) (hpc : s.pc t = .walkNext n) :
    s.place n = .taken t := by
  have howns := h.owns t
  rw [hpc] at howns
  obtain ⟨ns, hholds, htaken⟩ := howns.taken
  obtain ⟨ms, rfl, -⟩ := linked_some_iff.mp hholds
  exact htaken.place_head

theorem Owned.place_of_waiters (h : Owned s) (hhead : s.waiters = some n) :
    s.place n = .listed := by
  obtain ⟨ns, hlinked, hns⟩ := h.listed
  rw [hhead] at hlinked
  obtain ⟨ms, rfl, -⟩ := linked_some_iff.mp hlinked
  exact hns.place_head

theorem Owned.place_of_addCas {o : Option ν} (h : Owned s)
    (hpc : s.pc t = .addCas n o) : s.place n = .adding t := by
  have hadding := (h.owns t).adding
  rw [hpc] at hadding
  exact hadding.place_head

end Places

/-! ## The step lemma -/

section Steps

variable [DecidableEq τ] [DecidableEq ν] {s s' : State τ ν γ} {t : τ}
  {p q : Pc ν}

omit [DecidableEq ν] in
theorem Owned.of_goto (h : Owned s) (hp : s.pc t = p)
    (hpc : s'.pc = Function.update s.pc t q) (hnext : s'.next = s.next)
    (hplace : s'.place = s.place) (hwaiters : s'.waiters = s.waiters)
    (hscheduled : s'.scheduled = s.scheduled)
    (hholds : ∀ ns, p.Holds s.next ns → q.Holds s.next ns)
    (hadding : q.adding = p.adding)
    (hlinked : ∀ n o, q = .addCas n o → s.next n = o) : Owned s' := by
  refine ⟨?_, ?_, ?_⟩
  · rw [hnext, hwaiters, hplace]
    exact h.listed
  · rw [hpc, hnext, hplace]
    refine (Function.forall_update_iff s.pc fun u r =>
      r.Owns s.next s.place u).mpr ⟨?_, fun u _ => h.owns u⟩
    have howns := h.owns t
    rw [hp] at howns
    obtain ⟨ns, hns, hcollects⟩ := howns.taken
    exact ⟨⟨ns, hholds ns hns, hcollects⟩, hadding ▸ howns.adding, hlinked⟩
  · rw [hplace, hscheduled]
    exact h.scheduled

omit [DecidableEq τ] in
/-- What a step means for the threads that do not take it: the node it moves
is neither theirs before nor after. -/
theorem Owned.others (h : Owned s) {n : ν} {r : Place τ}
    (hn : ∀ u, u ≠ t → s.place n ≠ .taken u ∧ s.place n ≠ .adding u)
    (hr : ∀ u, u ≠ t → r ≠ .taken u ∧ r ≠ .adding u) {u : τ} (hu : u ≠ t) :
    (s.pc u).Owns s.next (Function.update s.place n r) u :=
  (h.owns u).frame (hn u hu).1 (hn u hu).2 (hr u hu).1 (hr u hu).2

theorem Owned.of_move (h : Owned s) {n : ν} {r : Place τ}
    (hpc : s'.pc = Function.update s.pc t q) (hnext : s'.next = s.next)
    (hplace : s'.place = Function.update s.place n r)
    (hn : ∀ u, u ≠ t → s.place n ≠ .taken u ∧ s.place n ≠ .adding u)
    (hr : ∀ u, u ≠ t → r ≠ .taken u ∧ r ≠ .adding u)
    (hlisted : ∃ ns, Linked s.next s'.waiters ns ∧
      Collects (Function.update s.place n r) .listed ns)
    (howns : q.Owns s.next (Function.update s.place n r) t)
    (hscheduled : Collects (Function.update s.place n r) .scheduled
      s'.scheduled) : Owned s' := by
  refine ⟨?_, ?_, ?_⟩
  · rw [hnext, hplace]
    exact hlisted
  · rw [hpc, hnext, hplace]
    exact (Function.forall_update_iff s.pc fun u r' =>
      r'.Owns s.next (Function.update s.place n r) u).mpr
        ⟨howns, fun u hu => h.others hn hr hu⟩
  · rw [hplace]
    exact hscheduled

omit [DecidableEq τ] [DecidableEq ν] in
theorem Pc.Owns.place_of_adding {next : ν → Option ν} {place : ν → Place τ}
    {n : ν} {ns : List ν} (h : p.Owns next place t) (hp : p.adding = n :: ns) :
    place n = .adding t := by
  have hadding := h.adding
  rw [hp] at hadding
  exact hadding.place_head

end Steps

section StepLemma

variable [DecidableEq τ] [DecidableEq ν] [DecidableEq γ]
  {gate : ν → Option γ} {s : State τ ν γ} {t : τ}

theorem owned_callAdd {n : ν} (h : Owned s) (hpc : s.pc t = .idle)
    (hout : s.place n = .outside) : Owned (next gate s (.callAdd t n)) := by
  obtain ⟨ns, hlinked, hns⟩ := h.listed
  have howns := h.owns t
  rw [hpc] at howns
  obtain ⟨ms, rfl, hms⟩ := howns.taken
  refine h.of_move rfl rfl rfl (t := t) ?_ ?_ ?_ ?_ ?_
  · intro u hu
    simp [hout]
  · intro u hu
    simp [hu.symm]
  · exact ⟨ns, hlinked, hns.frame (by simp [hout]) (by simp)⟩
  · exact ⟨⟨[], rfl, hms.frame (by simp [hout]) (by simp)⟩,
      howns.adding.insert (by simp [hout]), by simp⟩
  · exact h.scheduled.frame (by simp [hout]) (by simp)

theorem owned_addLink {n : ν} {o : Option ν} (h : Owned s)
    (hpc : s.pc t = .addLink n o) :
    Owned (next gate s (.addLink t n o)) := by
  have howns := h.owns t
  rw [hpc] at howns
  have hplace : s.place n = .adding t := howns.place_of_adding rfl
  obtain ⟨ns, hlinked, hns⟩ := h.listed
  refine ⟨⟨ns, ?_, hns⟩, ?_, h.scheduled⟩
  · exact hlinked.update (hns.not_mem (by simp [hplace])) o
  · refine (Function.forall_update_iff s.pc fun u r =>
      r.Owns (Function.update s.next n o) s.place u).mpr ⟨?_, fun u hu => ?_⟩
    · obtain ⟨ms, rfl, hms⟩ := howns.taken
      refine ⟨⟨[], rfl, hms⟩, howns.adding, fun m o' heq => ?_⟩
      cases heq
      exact Function.update_self _ _ _
    · exact (h.owns u).link (by simp [hplace]) (by simp [hplace, hu.symm]) o

theorem owned_addCas {n : ν} {o : Option ν} (h : Owned s)
    (hpc : s.pc t = .addCas n o) (hhead : s.waiters = o) :
    Owned (next gate s (.addCas t n o)) := by
  have howns := h.owns t
  rw [hpc] at howns
  have hplace : s.place n = .adding t := howns.place_of_adding rfl
  obtain ⟨ns, hlinked, hns⟩ := h.listed
  obtain ⟨ms, rfl, hms⟩ := howns.taken
  refine h.of_move rfl rfl rfl (t := t) ?_ ?_ ?_ ?_ ?_
  · intro u hu
    simp [hplace, hu.symm]
  · intro u hu
    simp
  · refine ⟨n :: ns, ⟨rfl, ?_⟩, hns.insert (by simp [hplace])⟩
    rw [howns.linked n o rfl, ← hhead]
    exact hlinked
  · exact ⟨⟨[], rfl, hms.frame (by simp [hplace]) (by simp)⟩,
      howns.adding.remove (by simp), by simp⟩
  · exact h.scheduled.frame (by simp [hplace]) (by simp)

theorem owned_wakeCas {head : ν} {o : Option ν} (h : Owned s)
    (hpc : s.pc t = .wakeCas head o) (hhead : s.waiters = some head)
    (hswing : s.next head = o) :
    Owned (next gate s (.wakeCas t head o)) := by
  have howns := h.owns t
  rw [hpc] at howns
  obtain ⟨ns, hlinked, hns⟩ := h.listed
  rw [hhead] at hlinked
  obtain ⟨ks, rfl, hks⟩ := linked_some_iff.mp hlinked
  have hplace : s.place head = .listed := hns.place_head
  obtain ⟨ms, rfl, hms⟩ := howns.taken
  refine h.of_move rfl rfl rfl (t := t) ?_ ?_ ?_ ?_ ?_
  · intro u hu
    simp [hplace]
  · intro u hu
    simp [hu.symm]
  · exact ⟨ks, hswing ▸ hks, hns.remove (by simp)⟩
  · refine ⟨⟨[head], ⟨[], rfl, rfl⟩, hms.insert (by simp [hplace])⟩, ?_,
      by simp⟩
    exact howns.adding.frame (by simp [hplace]) (by simp)
  · exact h.scheduled.frame (by simp [hplace]) (by simp)

omit [DecidableEq γ] in
theorem owned_deliver {s' : State τ ν γ} {head : ν} {rest : Option ν}
    {r : Place τ} (h : Owned s) (hpc : s.pc t = .deliver head rest)
    (hr : r = .scheduled ∨ r = .outside)
    (hpc' : s'.pc = Function.update s.pc t (walkWith rest))
    (hnext : s'.next = s.next) (hwaiters : s'.waiters = s.waiters)
    (hplace : s'.place = Function.update s.place head r)
    (hscheduled : s.place head = .taken t →
      Collects (Function.update s.place head r) .scheduled s'.scheduled) :
    Owned s' := by
  have howns := h.owns t
  rw [hpc] at howns
  obtain ⟨ns, hlinked, hns⟩ := h.listed
  obtain ⟨_, ⟨ms, rfl, hms⟩, htaken⟩ := howns.taken
  have hhead : s.place head = .taken t := htaken.place_head
  have hrest : (walkWith rest).Holds s.next ms := by
    cases rest with
    | none => exact linked_none_iff.mp hms
    | some m => exact hms
  have hadding : (walkWith rest).adding = [] := by
    cases rest <;> rfl
  refine h.of_move hpc' hnext hplace (t := t) ?_ ?_ ?_ ?_ (hscheduled hhead)
  · intro u hu
    simp [hhead, hu.symm]
  · intro u hu
    rcases hr with rfl | rfl <;> simp
  · rw [hwaiters]
    refine ⟨ns, hlinked, hns.frame (by simp [hhead]) ?_⟩
    rcases hr with rfl | rfl <;> simp
  · refine ⟨⟨ms, hrest, htaken.remove ?_⟩, ?_, ?_⟩
    · rcases hr with rfl | rfl <;> simp
    · rw [hadding]
      refine howns.adding.frame (by simp [hhead]) ?_
      rcases hr with rfl | rfl <;> simp
    · intro n o heq
      cases rest <;> cases heq

theorem owned_resume {n : ν} (h : Owned s) (hn : n ∈ s.scheduled) :
    Owned (next gate s (.resume n)) := by
  have hplace : s.place n = .scheduled := (h.scheduled.2 n).mp hn
  obtain ⟨ns, hlinked, hns⟩ := h.listed
  refine ⟨⟨ns, hlinked, hns.frame (by simp [hplace]) (by simp)⟩, ?_, ?_⟩
  · intro u
    exact (h.owns u).frame (by simp [hplace]) (by simp [hplace]) (by simp)
      (by simp)
  · exact (h.scheduled.perm (List.perm_cons_erase hn)).remove (by simp)

omit [DecidableEq τ] [DecidableEq ν] [DecidableEq γ] in
theorem takeListed_eq_iff [DecidableEq τ] {p q : Place τ} {t : τ}
    (hq : q ≠ .listed) (hqt : q ≠ .taken t) :
    p.takeListed t = q ↔ p = q := by
  cases p with
  | listed =>
      exact iff_of_false (fun heq => hqt heq.symm) fun heq => hq heq.symm
  | _ => exact Iff.rfl

theorem owned_exchange (h : Owned s) (hpc : s.pc t = .exchange) :
    Owned (next gate s (.exchange t)) := by
  have howns := h.owns t
  rw [hpc] at howns
  obtain ⟨ns, hlinked, hns⟩ := h.listed
  obtain ⟨ms, rfl, hms⟩ := howns.taken
  have hframe : ∀ {q : Place τ} {ks : List ν}, q ≠ .listed → q ≠ .taken t →
      Collects s.place q ks →
        Collects (fun n => (s.place n).takeListed t) q ks := by
    intro q ks hq hqt hks
    exact ⟨hks.1, fun n => (hks.2 n).trans (takeListed_eq_iff hq hqt).symm⟩
  refine ⟨⟨[], rfl, List.nodup_nil, fun n => ?_⟩, ?_,
    hframe (by simp) (by simp) h.scheduled⟩
  · refine iff_of_false List.not_mem_nil ?_
    change (s.place n).takeListed t ≠ .listed
    cases s.place n <;> simp [Place.takeListed]
  · refine (Function.forall_update_iff s.pc fun u r =>
      r.Owns s.next (fun n => (s.place n).takeListed t) u).mpr
        ⟨⟨⟨ns, ?_, hns.1, fun n => ?_⟩, ?_, ?_⟩, fun u hu => ?_⟩
    · cases hw : s.waiters with
      | none => rw [hw] at hlinked; exact linked_none_iff.mp hlinked
      | some m => rw [hw] at hlinked; exact hlinked
    · rw [hns.2 n]
      have hnot : s.place n ≠ .taken t := fun heq =>
        absurd ((hms.2 n).mpr heq) List.not_mem_nil
      cases hplace : s.place n <;> simp_all [Place.takeListed]
    · have hadding : (walkWith s.waiters).adding = [] := by
        cases s.waiters <;> rfl
      rw [hadding]
      exact hframe (by simp) (by simp) howns.adding
    · intro n o heq
      cases hw : s.waiters <;> rw [hw] at heq <;> cases heq
    · obtain ⟨ks, hholds, hks⟩ := (h.owns u).taken
      exact ⟨⟨ks, hholds, hframe (by simp) (by simp [hu]) hks⟩,
        hframe (by simp) (by simp) (h.owns u).adding, (h.owns u).linked⟩

theorem owned_next {a : Action τ ν γ} (h : Owned s) (ha : Enabled gate s a)
    (hfresh : AddsFresh s a) (hswing : SwingsToNext s a) :
    Owned (next gate s a) := by
  cases a with
  | callAdd t n => exact owned_callAdd h ha hfresh
  | addLink t n o => exact owned_addLink h ha
  | addCas t n o => exact owned_addCas h ha.1 ha.2
  | wakeCas t head o => exact owned_wakeCas h ha.1 ha.2 hswing
  | exchange t => exact owned_exchange h ha
  | resume n => exact owned_resume h ha
  | fire g => exact ⟨h.listed, h.owns, h.scheduled⟩
  | schedule t head rest =>
      refine owned_deliver h ha.1 (Or.inl rfl) rfl rfl rfl rfl fun hhead => ?_
      exact (h.scheduled.insert (by simp [hhead])).perm
        (List.perm_append_singleton head s.scheduled).symm
  | skip t head rest g =>
      refine owned_deliver h ha.1 (Or.inr rfl) rfl rfl rfl rfl fun hhead => ?_
      exact h.scheduled.frame (by simp [hhead]) (by simp)
  | callWakeOne t =>
      exact h.of_goto ha rfl rfl rfl rfl rfl (fun _ => id) rfl (by simp)
  | callWakeAll t =>
      exact h.of_goto ha rfl rfl rfl rfl rfl (fun _ => id) rfl (by simp)
  | addLoad t n =>
      exact h.of_goto ha rfl rfl rfl rfl rfl (fun _ => id) rfl (by simp)
  | addCasFails t n o =>
      exact h.of_goto ha rfl rfl rfl rfl rfl (fun _ => id) rfl (by simp)
  | wakeNext t head =>
      exact h.of_goto ha rfl rfl rfl rfl rfl (fun _ => id) rfl (by simp)
  | wakeLoad t =>
      refine h.of_goto ha rfl rfl rfl rfl rfl (fun _ hns => ?_) ?_ ?_
      all_goals cases s.waiters <;> simp_all [wakeWith, Pc.Holds, Pc.adding]
  | wakeCasFails t head o =>
      refine h.of_goto ha rfl rfl rfl rfl rfl (fun _ hns => ?_) ?_ ?_
      all_goals cases s.waiters <;> simp_all [wakeWith, Pc.Holds, Pc.adding]
  | walkNext t head =>
      exact h.of_goto ha rfl rfl rfl rfl rfl (fun _ => linked_some_iff.mp) rfl
        (by simp)

omit [DecidableEq τ] [DecidableEq ν] [DecidableEq γ] in
theorem owned_initialState : Owned (initialState τ ν γ) := by
  have hempty : ∀ p : Place τ, p ≠ .outside →
      Collects (fun _ : ν => (.outside : Place τ)) p [] := fun p hp =>
    ⟨List.nodup_nil, fun n => iff_of_false List.not_mem_nil hp.symm⟩
  refine ⟨⟨[], rfl, hempty _ (by simp)⟩, fun t => ?_, hempty _ (by simp)⟩
  exact ⟨⟨[], rfl, hempty _ (by simp)⟩, hempty _ (by simp),
    by simp [initialState]⟩

/-- In every run that adds only nodes from outside and swings the head only to
the current successor, every node on its way is in exactly one place. -/
theorem owned_reachable
    (hs : (system gate τ).ReachableWhere
      (fun s a => AddsFresh s a ∧ SwingsToNext s a) s) : Owned s := by
  refine hs.invariant Owned ?_ fun s a h ha hP => owned_next h ha hP.1 hP.2
  rintro s rfl
  exact owned_initialState

omit [DecidableEq τ] [DecidableEq ν] [DecidableEq γ] in
/-- When nobody adds or wakes and no handle is scheduled, a node on its way can
only be in the list. -/
theorem Owned.waiters_ne_none (h : Owned s) (hidle : ∀ t, s.pc t = .idle)
    (hscheduled : s.scheduled = []) {n : ν} (hn : s.place n ≠ .outside) :
    s.waiters ≠ none := by
  intro hnone
  obtain ⟨ns, hlinked, hns⟩ := h.listed
  rw [hnone] at hlinked
  obtain rfl := linked_none_iff.mp hlinked
  cases hplace : s.place n with
  | outside => exact hn hplace
  | listed => cases (hns.2 n).mpr hplace
  | scheduled =>
      have hmem := (h.scheduled.2 n).mpr hplace
      rw [hscheduled] at hmem
      cases hmem
  | adding t =>
      have hown := (h.owns t).adding
      rw [hidle t] at hown
      cases (hown.2 n).mpr hplace
  | taken t =>
      have hown := h.owns t
      rw [hidle t] at hown
      obtain ⟨ms, rfl, hms⟩ := hown.taken
      cases (hms.2 n).mpr hplace

/-- A step writes only the field of a node that a thread is adding. -/
theorem next_eq_of_outside {a : Action τ ν γ} (h : Owned s)
    (ha : Enabled gate s a) {n : ν} (hn : s.place n = .outside) :
    (next gate s a).next n = s.next n := by
  cases a with
  | addLink t m o =>
      have hown := h.owns t
      rw [show s.pc t = .addLink m o from ha] at hown
      have hm : s.place m = .adding t := hown.place_of_adding rfl
      refine Function.update_of_ne ?_ _ _
      rintro rfl
      exact nomatch hm.symm.trans hn
  | _ => rfl

/-- The steps inside the three functions neither lose a node nor take one in
from outside. -/
theorem place_eq_outside_iff {a : Action τ ν Empty} {s : State τ ν Empty}
    (h : Owned s) (ha : Enabled ungated s a) (hrun : a.runner = some t)
    (n : ν) :
    (next ungated s a).place n = .outside ↔ s.place n = .outside := by
  have hmove : ∀ {m : ν} {r : Place τ}, s.place m ≠ .outside →
      r ≠ .outside →
        (Function.update s.place m r n = .outside ↔
          s.place n = .outside) := by
    intro m r hm hr
    by_cases hnm : n = m
    · subst hnm
      rw [Function.update_self]
      exact iff_of_false hr hm
    · rw [Function.update_of_ne hnm]
  cases a with
  | callAdd u m => cases hrun
  | callWakeOne u => cases hrun
  | callWakeAll u => cases hrun
  | fire g => cases g
  | resume m => cases hrun
  | skip u head rest g => cases g
  | addCas u m o =>
      have hown := h.owns u
      rw [ha.1] at hown
      have hm : s.place m = .adding u := hown.place_of_adding rfl
      exact hmove (by simp [hm]) (by simp)
  | wakeCas u head o =>
      obtain ⟨ns, hlinked, hns⟩ := h.listed
      rw [ha.2] at hlinked
      obtain ⟨ks, rfl, -⟩ := linked_some_iff.mp hlinked
      have hhead : s.place head = .listed := hns.place_head
      exact hmove (by simp [hhead]) (by simp)
  | schedule u head rest =>
      have hown := h.owns u
      rw [ha.1] at hown
      obtain ⟨_, ⟨ms, rfl, -⟩, htaken⟩ := hown.taken
      have hhead : s.place head = .taken u := htaken.place_head
      exact hmove (by simp [hhead]) (by simp)
  | exchange u => exact takeListed_eq_iff (by simp) (by simp)
  | _ => exact Iff.rfl

end StepLemma

end AsyncPrimitive
end Ethreads
