import Ethreads.Reentrancy.Model

/-!
# The calls on the stacks

A call of the library is on one stack, once, and only while it is active.  A
call below another frame has called user code, or `schedule_coro_handle`.  The
timer service and the cancellation states take part in each step of a thread
with one of their own steps or with none.
-/

namespace Ethreads
namespace Reentrancy

variable {τ θ ι γ η ρ υ κ : Type*} {cfg : Config τ ι γ η}

def Frame.mutex : Frame θ ι ρ υ κ → Option (Mutex θ)
  | user => none
  | service _ => some .timer
  | token k _ => some (.token k)

def State.holds (s : State τ θ ι γ ρ υ κ) : Frame θ ι ρ υ κ → Bool
  | .user => false
  | .service p => s.service.holds p
  | .token k p => (s.token k).holds p

def State.locks (s : State τ θ ι γ ρ υ κ) : Frame θ ι ρ υ κ → Bool
  | .user => false
  | .service p => s.service.locks p
  | .token k p => (s.token k).locks p

def State.isActive (s : State τ θ ι γ ρ υ κ) : Frame θ ι ρ υ κ → Bool
  | .user => true
  | .service p => s.service.isActive p
  | .token k p => (s.token k).isActive p

def State.hasCalled (s : State τ θ ι γ ρ υ κ) : Frame θ ι ρ υ κ → Bool
  | .user => true
  | .service p => s.service.hasCalled p
  | .token k p => (s.token k).hasCalled p

/-- The calls on the stacks are active, each on one of them and once, and those
below another frame have called out. -/
def WellStacked (s : State τ θ ι γ ρ υ κ) : Prop :=
  Stacked (· = .user) (fun f => s.isActive f = true)
    (fun f => s.hasCalled f = true) s.stack

section Steps

variable [DecidableEq τ] [DecidableEq θ] [DecidableEq ι] [DecidableEq γ]
  [DecidableEq ρ] [DecidableEq υ] [DecidableEq κ]
  {s s' : State τ θ ι γ ρ υ κ} {a : Action τ θ ι γ ρ υ κ}

/-! ## The components -/

theorem service_reachable (hs : (system cfg θ ρ υ κ).Reachable s) :
    (TimerService.system cfg.entry).Reachable s.service := by
  refine hs.project (fun s => s.service) ?_ ?_
  · rintro s ⟨fired, clock, rfl⟩
    exact ⟨fired, clock, rfl⟩
  · intro s a hs ha _
    cases a with
    | service t p b => exact .inr ⟨b, ha.1, trivial, rfl⟩
    | outside b => exact .inr ⟨b, ha.1, trivial, rfl⟩
    | _ => exact .inl rfl

theorem token_reachable (hs : (system cfg θ ρ υ κ).Reachable s) (k : θ) :
    (Cancellation.system ρ υ κ).Reachable (s.token k) := by
  refine hs.project (fun s => s.token k) ?_ ?_
  · rintro s ⟨fired, clock, rfl⟩
    rfl
  · intro s a hs ha _
    cases a with
    | token t j b =>
        by_cases hkj : k = j
        · subst hkj
          exact .inr ⟨b, ha.1, trivial, Function.update_self ..⟩
        · exact .inl (Function.update_of_ne hkj ..)
    | _ => exact .inl rfl

theorem service_frame {t : τ} {p : TimerService.Holder ι}
    {b : TimerService.Action ι γ} (hp : b.agent = some p)
    {g : Frame θ ι ρ υ κ} (hg : g ≠ .service p) :
    (next cfg s (.service t p b)).holds g = s.holds g ∧
      (next cfg s (.service t p b)).isActive g = s.isActive g ∧
        (s.hasCalled g = true →
          (next cfg s (.service t p b)).hasCalled g = true) := by
  cases g with
  | service q =>
      have hq : b.agent ≠ some q := by
        rw [hp]
        exact fun hpq => hg (by rw [Option.some.inj hpq])
      exact ⟨TimerService.holds_next_of_ne hq,
        TimerService.isActive_next_of_ne hq,
        TimerService.hasCalled_next_of_ne hq⟩
  | _ => exact ⟨rfl, rfl, fun h => h⟩

theorem outside_frame {b : TimerService.Action ι γ} (hb : b.agent = none)
    (g : Frame θ ι ρ υ κ) :
    (next cfg s (.outside b)).holds g = s.holds g ∧
      (next cfg s (.outside b)).isActive g = s.isActive g ∧
        (s.hasCalled g = true →
          (next cfg s (.outside b)).hasCalled g = true) := by
  cases g with
  | service q =>
      have hq : b.agent ≠ some q := by
        rw [hb]
        nofun
      exact ⟨TimerService.holds_next_of_ne hq,
        TimerService.isActive_next_of_ne hq,
        TimerService.hasCalled_next_of_ne hq⟩
  | _ => exact ⟨rfl, rfl, fun h => h⟩

theorem next_token_self (t : τ) (k : θ) (b : Cancellation.Action ρ υ κ) :
    (next cfg s (.token t k b)).token k = Cancellation.next (s.token k) b :=
  Function.update_self ..

theorem token_frame {t : τ} {k : θ} {b : Cancellation.Action ρ υ κ}
    {g : Frame θ ι ρ υ κ} (hg : g ≠ .token k b.agent) :
    (next cfg s (.token t k b)).holds g = s.holds g ∧
      (next cfg s (.token t k b)).isActive g = s.isActive g ∧
        (next cfg s (.token t k b)).hasCalled g = s.hasCalled g := by
  cases g with
  | token j q =>
      by_cases hjk : j = k
      · subst hjk
        have hq : b.agent ≠ q := fun hq => hg (by rw [hq])
        simp only [State.holds, State.isActive, State.hasCalled,
          next_token_self]
        exact ⟨Cancellation.holds_next_of_ne hq,
          Cancellation.isActive_next_of_ne hq,
          Cancellation.hasCalled_next_of_ne hq⟩
      · have hsame : (next cfg s (.token t k b)).token j = s.token j :=
          Function.update_of_ne hjk ..
        simp only [State.holds, State.isActive, State.hasCalled, hsame]
        exact ⟨trivial, trivial, trivial⟩
  | _ => exact ⟨rfl, rfl, rfl⟩

/-! ## The stacks -/

omit [DecidableEq θ] [DecidableEq ι] [DecidableEq γ] [DecidableEq ρ]
  [DecidableEq υ] [DecidableEq κ] [DecidableEq τ] in
theorem exists_stack_eq {t : τ} {f : Frame θ ι ρ υ κ}
    (h : (s.stack t).head? = some f) : ∃ rest, s.stack t = f :: rest := by
  cases hl : s.stack t with
  | nil => rw [hl] at h; cases h
  | cons g rest =>
      rw [hl] at h
      exact ⟨rest, by rw [Option.some.inj h]⟩

omit [DecidableEq θ] [DecidableEq ι] [DecidableEq γ] [DecidableEq ρ]
  [DecidableEq υ] [DecidableEq κ] in
theorem WellStacked.of_call (h : WellStacked s) {t : τ}
    {f : Frame θ ι ρ υ κ} {calls returns starts : Bool} (hf : f ≠ .user)
    (htop : (s.stack t).head? = some (if calls then .user else f))
    (hstack : s'.stack = Function.update s.stack t
      (stackAfter calls returns starts f (s.stack t)))
    (hactive : ∀ g, g ≠ f → s.isActive g = true → s'.isActive g = true)
    (hcalled : ∀ g, g ≠ f → s.hasCalled g = true → s'.hasCalled g = true)
    (hbegins : calls = true → s.isActive f = false ∧ s'.isActive f = true)
    (hstays : returns = false → s'.isActive f = true)
    (hstarts : starts = true → s'.hasCalled f = true) : WellStacked s' := by
  obtain ⟨rest, ht⟩ := exists_stack_eq htop
  unfold WellStacked
  rw [hstack]
  cases calls with
  | true =>
      obtain ⟨hbefore, hafter⟩ := hbegins rfl
      have hnew : ∀ v, f ∉ s.stack v := fun v hmem =>
        absurd (hbefore.symm.trans (h.active v f hmem)) nofun
      have hmoved := h.of_not_mem hnew hactive hcalled
      rw [show stackAfter true returns starts f (s.stack t) =
        f :: s.stack t from rfl, ht]
      exact hmoved.pushCall ht rfl hafter hnew
  | false =>
      cases returns with
      | true =>
          rw [show stackAfter false true starts f (s.stack t) =
            (s.stack t).tail from rfl, ht]
          exact (h.pop ht).of_not_mem (h.not_mem_pop ht hf) hactive hcalled
      | false =>
          have hmoved := h.goesOn ht hf hactive hcalled (hstays rfl)
          cases starts with
          | true =>
              rw [show stackAfter false false true f (s.stack t) =
                .user :: s.stack t from rfl, ht]
              exact hmoved.pushPlain ht (hstarts rfl) rfl rfl
          | false =>
              rw [show stackAfter false false false f (s.stack t) =
                s.stack t from rfl, Function.update_eq_self]
              exact hmoved

theorem wellStacked_service (h : WellStacked s) {t : τ}
    {p : TimerService.Holder ι} {b : TimerService.Action ι γ}
    (ha : Enabled cfg s (.service t p b)) :
    WellStacked (next cfg s (.service t p b)) := by
  refine h.of_call (f := .service p) nofun ha.2.2 rfl
    (fun g hg hactive => (service_frame ha.2.1 hg).2.1.trans hactive)
    (fun g hg => (service_frame ha.2.1 hg).2.2)
    (fun hcalls => TimerService.isActive_of_calls ha.1 hcalls ha.2.1)
    (fun hreturns => TimerService.isActive_of_step hreturns ha.2.1)
    fun hstarts => ?_
  exact TimerService.hasCalled_of_schedules (Bool.and_eq_true_iff.mp hstarts).1
    ha.2.1

theorem wellStacked_token (h : WellStacked s) {t : τ} {k : θ}
    {b : Cancellation.Action ρ υ κ} (ha : Enabled cfg s (.token t k b)) :
    WellStacked (next cfg s (.token t k b)) := by
  refine h.of_call (f := .token k b.agent) nofun ha.2 rfl
    (fun g hg hactive => (token_frame hg).2.1.trans hactive)
    (fun g hg hcalled => (token_frame hg).2.2.trans hcalled)
    (fun hcalls => ?_) (fun hreturns => ?_) fun hstarts => ?_
  · have hcall := Cancellation.isActive_of_calls ha.1 hcalls
    refine ⟨hcall.1, ?_⟩
    simp only [State.isActive, next_token_self]
    exact hcall.2.1
  · simp only [State.isActive, next_token_self]
    exact Cancellation.isActive_of_step hreturns
  · simp only [State.hasCalled, next_token_self]
    exact Cancellation.hasCalled_of_invokes hstarts

omit [DecidableEq θ] [DecidableEq ι] [DecidableEq γ] [DecidableEq ρ]
  [DecidableEq υ] [DecidableEq κ] [DecidableEq τ] in
/-- Whoever wakes coroutines has called out. -/
theorem hasCalled_of_wakes {f : Frame θ ι ρ υ κ} (h : s.wakes f = true) :
    s.hasCalled f = true := by
  cases f with
  | user => rfl
  | service p => cases h
  | token k p =>
      cases p with
      | cancel c =>
          simp only [State.wakes] at h
          simp only [State.hasCalled, Cancellation.State.hasCalled]
          cases hpc : (s.token k).cancel c with
          | running r cbs | wakeAll => rfl
          | _ =>
              rw [hpc] at h
              cases h
      | _ => cases h

theorem wellStacked_next (h : WellStacked s) (ha : Enabled cfg s a) :
    WellStacked (next cfg s a) := by
  cases a with
  | shutDown => exact h
  | begin t => exact h.begin rfl rfl
  | finish t =>
      obtain ⟨rest, ht⟩ := exists_stack_eq ha
      have hpop := h.pop ht
      rw [← show (s.stack t).tail = rest by rw [ht, List.tail_cons]] at hpop
      exact hpop
  | resume t =>
      cases hl : s.stack t with
      | nil =>
          have hwakes := ha.2
          rw [hl] at hwakes
          cases hwakes
      | cons f rest =>
          have hwakes := ha.2
          rw [hl] at hwakes
          have hpush := h.pushPlain (u := .user) hl
            (hasCalled_of_wakes hwakes) rfl rfl
          rw [← hl] at hpush
          exact hpush
  | service t p b => exact wellStacked_service h ha
  | outside b =>
      refine ⟨fun t g hg => ?_, h.owner, h.nodup, fun t g hg => ?_⟩
      · exact (outside_frame ha.2 g).2.1.trans (h.active t g hg)
      · exact (outside_frame ha.2 g).2.2 (h.calling t g hg)
  | token t k b => exact wellStacked_token h ha

theorem wellStacked_reachable (hs : (system cfg θ ρ υ κ).Reachable s) :
    WellStacked s := by
  refine hs.invariant WellStacked ?_ fun s a h ha => wellStacked_next h ha
  rintro s ⟨fired, clock, rfl⟩
  have hempty : Stacked (· = .user)
      (fun f => (initialState cfg fired clock : State τ θ ι γ ρ υ κ).isActive f
        = true)
      (fun f => (initialState cfg fired clock : State τ θ ι γ ρ υ κ).hasCalled
        f = true) (fun _ : τ => ([] : List (Frame θ ι ρ υ κ))) :=
    ⟨nofun, nofun, fun _ => .nil, nofun⟩
  exact hempty.of_update (fun g hg => by rw [List.mem_singleton.mp hg]; rfl)
    (fun g _ _ v _ => List.not_mem_nil) (List.pairwise_singleton _ _) nofun

end Steps

end Reentrancy
end Ethreads
