import Ethreads.Barrier.Model
import Ethreads.Support.TransitionSystem

/-!
# The rounds of a barrier

The sections of `sync_barrier` as threads run them one after the other: every
section of `arrive` and of `arrive_and_drop` is one step, and `wait` tests its
token and blocks, to be notified or to wake spuriously and test again.

A ledger records what the phases have received: how many arrivals were
expected when a phase began, and how many there were.  The ledger and the list
of the tokens that `arrive` has returned are not part of the program.
-/

namespace Ethreads
namespace Barrier

/-- How many were expected when a phase began and how many have arrived. -/
structure Round where
  began : ℤ
  arrivals : ℤ
  deriving DecidableEq, Repr

/-- The current phase, those that are over, and the drops so far. -/
structure Ledger where
  current : Round
  finished : List Round
  drops : ℕ
  deriving DecidableEq, Repr

/-- `n` arrivals, some of them drops, that bring the members from `x` to
`y`. -/
def Ledger.enter (l : Ledger) (x y : Members) (n : ℤ) (drops : ℕ) : Ledger :=
  let round := { l.current with arrivals := l.current.arrivals + n }
  if y.phase = x.phase then
    { l with current := round, drops := l.drops + drops }
  else
    { current := ⟨y.expected, 0⟩
      finished := l.finished ++ [round]
      drops := l.drops + drops }

inductive WaitPc
  | outside
  | testing (token : ℕ)
  | blocked (token : ℕ) (notified : Bool)
  deriving DecidableEq, Repr

def WaitPc.token : WaitPc → Option ℕ
  | outside => none
  | testing token | blocked token _ => some token

def WaitPc.notify : WaitPc → WaitPc
  | blocked token _ => blocked token true
  | p => p

structure Rounds (τ : Type*) where
  members : Members
  ledger : Ledger
  issued : List ℕ
  pc : τ → WaitPc

namespace Rounds

variable {τ : Type*}

def initialState (expected : ℤ) (τ : Type*) : Rounds τ where
  members := initial expected
  ledger := ⟨⟨expected, 0⟩, [], 0⟩
  issued := []
  pc := fun _ => .outside

inductive Action (τ : Type*)
  | arrive (t : τ) (n : ℤ)
  | arriveAndDrop (t : τ)
  | callWait (t : τ) (token : ℕ)
  | waitReturns (t : τ) (token : ℕ)
  | block (t : τ) (token : ℕ)
  | wake (t : τ) (token : ℕ) (notified : Bool)
  deriving DecidableEq, Repr

def Enabled (s : Rounds τ) : Action τ → Prop
  | .arrive t n => s.pc t = .outside ∧ 1 ≤ n ∧ n ≤ s.members.count
  | .arriveAndDrop t => s.pc t = .outside ∧ 1 ≤ s.members.count
  | .callWait t token => s.pc t = .outside ∧ token ∈ s.issued
  | .waitReturns t token =>
      s.pc t = .testing token ∧ (s.members.wait token).isSome = true
  | .block t token =>
      s.pc t = .testing token ∧ (s.members.wait token).isSome = false
  | .wake t token notified => s.pc t = .blocked token notified

/-- A section that arrives `n` times, and notifies the blocked threads if it
completes the phase. -/
def run (s : Rounds τ) (y : Members) (n : ℤ) (drops : ℕ) : Rounds τ where
  members := y
  ledger := s.ledger.enter s.members y n drops
  issued := s.issued
  pc := if y.phase = s.members.phase then s.pc else fun t => (s.pc t).notify

variable [DecidableEq τ]

instance (s : Rounds τ) (a : Action τ) : Decidable (Enabled s a) := by
  cases a <;> dsimp only [Enabled] <;> infer_instance

def goto (s : Rounds τ) (t : τ) (q : WaitPc) : Rounds τ :=
  { s with pc := Function.update s.pc t q }

/-- The effect of a section; `completion_` does not throw. -/
def next (s : Rounds τ) : Action τ → Rounds τ
  | .arrive _ n =>
      { s.run (s.members.arrive n false) n 0 with
        issued := s.issued ++ (s.members.arriveToken n false).toList }
  | .arriveAndDrop _ => s.run (s.members.arriveAndDrop false) 1 1
  | .callWait t token => s.goto t (.testing token)
  | .waitReturns t _ => s.goto t .outside
  | .block t token => s.goto t (.blocked token false)
  | .wake t token _ => s.goto t (.testing token)

def system (expected : ℤ) (τ : Type*) [DecidableEq τ] :
    TransitionSystem (Rounds τ) (Action τ) where
  Initial s := s = initialState expected τ
  Enabled := Enabled
  next := next

instance (expected : ℤ) (s : Rounds τ) (a : Action τ) :
    Decidable ((system expected τ).Enabled s a) :=
  inferInstanceAs (Decidable (Enabled s a))

end Rounds

/-! ## The ledger balances -/

/-- The members agree with the ledger. -/
structure Balanced (expected : ℤ) (x : Members) (l : Ledger) : Prop where
  expected_eq : x.expected = expected - l.drops
  count_nonneg : 0 ≤ x.count
  count_le : x.count ≤ x.expected
  count_pos : 1 ≤ x.expected → 1 ≤ x.count
  current : x.count + l.current.arrivals = l.current.began
  finished : ∀ r ∈ l.finished, r.arrivals = r.began
  length : l.finished.length = x.phase
  completions : x.completions = x.phase

theorem balanced_initial {expected : ℤ} (h : 1 ≤ expected) :
    Balanced expected (initial expected) ⟨⟨expected, 0⟩, [], 0⟩ where
  expected_eq := (sub_zero expected).symm
  count_nonneg := zero_le_one.trans h
  count_le := le_rfl
  count_pos := id
  current := add_zero expected
  finished := nofun
  length := rfl
  completions := rfl

theorem completeIfLast_cases (x : Members) :
    x.count ≠ 0 ∧ x.completeIfLast false = x ∨
      x.count = 0 ∧ x.completeIfLast false =
        { x with
          count := x.expected
          phase := x.phase + 1
          completions := x.completions + 1 } := by
  unfold Members.completeIfLast Members.completePhase
  by_cases h : x.count = 0 <;> simp [h]

theorem balanced_enter {expected n : ℤ} {d : ℕ} {x y : Members}
    {l : Ledger} (h : Balanced expected x l) (hd : d ≤ n)
    (hn : n ≤ x.count)
    (hy : y = { x with
      expected := x.expected - d
      count := x.count - n }.completeIfLast false) :
    Balanced expected y (l.enter x y n d) := by
  have hbefore := h.expected_eq
  have hle := h.count_le
  have hcurrent := h.current
  have hexpected : x.expected - d = expected - ↑(l.drops + d) := by
    push_cast
    omega
  have hcount_le : x.count - n ≤ x.expected - d := by omega
  have harrivals :
      x.count - n + (l.current.arrivals + n) = l.current.began := by omega
  rcases completeIfLast_cases { x with
      expected := x.expected - d
      count := x.count - n } with ⟨hcount, heq⟩ | ⟨hcount, heq⟩
  · have hpos : 1 ≤ x.count - n := by
      dsimp only at hcount
      omega
    rw [hy, heq]
    unfold Ledger.enter
    rw [if_pos rfl]
    exact
      { expected_eq := hexpected
        count_nonneg := Int.sub_nonneg_of_le hn
        count_le := hcount_le
        count_pos := fun _ => hpos
        current := harrivals
        finished := h.finished
        length := h.length
        completions := h.completions }
  · have hzero : x.count - n = 0 := hcount
    rw [hy, heq]
    unfold Ledger.enter
    rw [if_neg (Nat.succ_ne_self x.phase)]
    refine
      { expected_eq := hexpected
        count_nonneg := hzero.ge.trans hcount_le
        count_le := le_rfl
        count_pos := id
        current := add_zero _
        finished := ?_
        length := ?_
        completions := congrArg Nat.succ h.completions }
    · intro r hr
      rcases List.mem_append.mp hr with hold | hlast
      · exact h.finished r hold
      · rw [List.mem_singleton.mp hlast]
        rw [hzero, zero_add] at harrivals
        exact harrivals
    · rw [List.length_append, h.length]
      rfl

/-! ## The waiting threads -/

namespace Rounds

variable {τ : Type*}

/-- Tokens are of the current phase or of an earlier one, and a thread that
stays blocked waits for the current phase. -/
structure TokensIssued (s : Rounds τ) : Prop where
  issued : ∀ token ∈ s.issued, token ≤ s.members.phase
  waiting : ∀ t, ∀ token ∈ (s.pc t).token, token ≤ s.members.phase
  blocked : ∀ t token, s.pc t = .blocked token false →
    s.members.phase ≤ token

theorem token_notify (p : WaitPc) : p.notify.token = p.token := by
  cases p <;> rfl

theorem tokensIssued_run {s : Rounds τ} (h : TokensIssued s) {y : Members}
    (hy : s.members.phase ≤ y.phase) (n : ℤ) (drops : ℕ) :
    TokensIssued (s.run y n drops) := by
  refine ⟨fun token htoken => (h.issued token htoken).trans hy, ?_, ?_⟩
  · intro t token htoken
    refine (h.waiting t token ?_).trans hy
    dsimp only [run] at htoken
    split at htoken
    · exact htoken
    · rwa [token_notify] at htoken
  · intro t token hpc
    dsimp only [run] at hpc ⊢
    split at hpc
    · rename_i heq
      rw [heq]
      exact h.blocked t token hpc
    · change (s.pc t).notify = _ at hpc
      cases hp : s.pc t <;> rw [hp] at hpc <;> cases hpc

variable [DecidableEq τ]

theorem goto_pc_self {s : Rounds τ} {t : τ} {q : WaitPc} :
    (s.goto t q).pc t = q :=
  Function.update_self ..

theorem goto_pc_of_ne {s : Rounds τ} {t u : τ} {q : WaitPc} (hu : u ≠ t) :
    (s.goto t q).pc u = s.pc u :=
  Function.update_of_ne hu ..

theorem tokensIssued_goto {s : Rounds τ} (h : TokensIssued s) {t : τ}
    {q : WaitPc} (htoken : ∀ token ∈ q.token, token ≤ s.members.phase)
    (hblocked : ∀ token, q = .blocked token false →
      s.members.phase ≤ token) : TokensIssued (s.goto t q) := by
  refine ⟨h.issued, ?_, ?_⟩
  · intro u token hu
    by_cases hut : u = t
    · subst hut
      rw [goto_pc_self] at hu
      exact htoken token hu
    · rw [goto_pc_of_ne hut] at hu
      exact h.waiting u token hu
  · intro u token hu
    by_cases hut : u = t
    · subst hut
      rw [goto_pc_self] at hu
      exact hblocked token hu
    · rw [goto_pc_of_ne hut] at hu
      exact h.blocked u token hu

theorem wait_isSome_iff {x : Members} {token : ℕ} :
    (x.wait token).isSome = true ↔ x.phase ≠ token := by
  unfold Members.wait
  by_cases h : x.phase = token <;> simp [h]

theorem tokensIssued_next {s : Rounds τ} (h : TokensIssued s) {a : Action τ}
    (ha : Enabled s a) : TokensIssued (next s a) := by
  cases a with
  | arrive t n =>
      have hle := s.members.phase_le_arrive n false
      have hrun := tokensIssued_run h hle n 0
      refine ⟨?_, hrun.waiting, hrun.blocked⟩
      intro token htoken
      rcases List.mem_append.mp htoken with hold | hnew
      · exact hrun.issued token hold
      · have heq : token = s.members.phase := by
          simpa [Members.arriveToken] using hnew
        rw [heq]
        exact hle
  | arriveAndDrop t =>
      exact tokensIssued_run h (s.members.phase_le_arriveAndDrop false) 1 1
  | callWait t token =>
      refine tokensIssued_goto h ?_ nofun
      rintro _ ⟨⟩
      exact h.issued token ha.2
  | waitReturns t token => exact tokensIssued_goto h nofun nofun
  | block t token =>
      have hwaiting := h.waiting t token (by rw [ha.1]; rfl)
      refine tokensIssued_goto h ?_ ?_
      · rintro _ ⟨⟩
        exact hwaiting
      · rintro _ ⟨⟩
        by_contra hover
        have hsome := wait_isSome_iff.mpr fun heq => hover heq.le
        rw [ha.2] at hsome
        cases hsome
  | wake t token notified =>
      refine tokensIssued_goto h ?_ nofun
      rintro _ ⟨⟩
      exact h.waiting t token (by rw [show s.pc t = _ from ha]; rfl)

theorem balanced_next {expected : ℤ} {s : Rounds τ}
    (h : Balanced expected s.members s.ledger) {a : Action τ}
    (ha : Enabled s a) :
    Balanced expected (next s a).members (next s a).ledger := by
  cases a with
  | arrive t n =>
      refine balanced_enter (d := 0) h ?_ ha.2.2 ?_
      · exact_mod_cast zero_le_one.trans ha.2.1
      · rw [Int.natCast_zero, Int.sub_zero]
        rfl
  | arriveAndDrop t => exact balanced_enter h le_rfl ha.2 rfl
  | _ => exact h

theorem balanced_reachable {expected : ℤ} (hexpected : 1 ≤ expected)
    {s : Rounds τ} (hs : (system expected τ).Reachable s) :
    Balanced expected s.members s.ledger ∧ TokensIssued s := by
  refine hs.invariant
    (fun s => Balanced expected s.members s.ledger ∧ TokensIssued s) ?_ ?_
  · rintro s rfl
    exact ⟨balanced_initial hexpected, nofun, nofun, nofun⟩
  · intro s a h ha
    exact ⟨balanced_next h.1 ha, tokensIssued_next h.2 ha⟩

omit [DecidableEq τ] in
theorem exists_round {expected : ℤ} {s : Rounds τ}
    (h : Balanced expected s.members s.ledger) {token : ℕ}
    (ht : token < s.members.phase) :
    ∃ r, s.ledger.finished[token]? = some r ∧ r.arrivals = r.began := by
  rw [← h.length] at ht
  exact ⟨_, List.getElem?_eq_getElem ht,
    h.finished _ (List.getElem_mem ht)⟩

/-- What holds of a barrier constructed for `expected` arrivals. -/
structure CountsExactly (expected : ℤ) (s : Rounds τ) : Prop where
  count_nonneg : 0 ≤ s.members.count
  count_le : s.members.count ≤ s.members.expected
  count_pos : 1 ≤ s.members.expected → 1 ≤ s.members.count
  expected_eq : s.members.expected = expected - s.ledger.drops
  completed : s.ledger.finished.length = s.members.phase
  exact : ∀ r ∈ s.ledger.finished, r.arrivals = r.began
  completions : s.members.completions = s.members.phase
  returns : ∀ t token, Enabled s (.waitReturns t token) →
    ∃ r, s.ledger.finished[token]? = some r ∧ r.arrivals = r.began
  notified : ∀ t token, s.pc t = .blocked token false →
    ¬token < s.members.phase

/-- Phases are counted exactly. -/
theorem countsExactly_reachable (expected : ℤ) (hexpected : 1 ≤ expected)
    (τ : Type*) [DecidableEq τ] (s : Rounds τ)
    (hs : (system expected τ).Reachable s) : CountsExactly expected s := by
  obtain ⟨hbalanced, htokens⟩ := balanced_reachable hexpected hs
  refine
    { count_nonneg := hbalanced.count_nonneg
      count_le := hbalanced.count_le
      count_pos := hbalanced.count_pos
      expected_eq := hbalanced.expected_eq
      completed := hbalanced.length
      exact := hbalanced.finished
      completions := hbalanced.completions
      returns := ?_
      notified := fun t token h => (htokens.blocked t token h).not_gt }
  intro t token hreturns
  have hle := htokens.waiting t token (by rw [hreturns.1]; rfl)
  have hne := wait_isSome_iff.mp hreturns.2
  exact exists_round hbalanced (lt_of_le_of_ne hle hne.symm)

/-- Two threads arrive, the second one drops out, and the first one waits for
the phase. -/
theorem countsExactly_dropped :
    CountsExactly 2 ((system 2 Bool).after (initialState 2 Bool)
      [.arrive true 1, .callWait true 0, .block true 0, .arriveAndDrop false,
        .wake true 0 true]) := by
  refine countsExactly_reachable 2 (by decide) Bool _ ?_
  exact TransitionSystem.Executes.reachable (.init rfl) (by decide)

end Rounds
end Barrier
end Ethreads
