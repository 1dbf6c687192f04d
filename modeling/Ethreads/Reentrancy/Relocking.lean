import Ethreads.Reentrancy.Stacks

/-!
# No thread locks a mutex that it holds

User code runs above a call that holds a mutex in two places: when `shutdown`
schedules the remaining timers inline, and when `register_callback` runs its
callback at once.  In the second case the state is cancelled, so that user code
may unregister callbacks and cancel it again.  A thread locks a mutex that it
holds in exactly those runs in which user code above such a call comes to
`add_timer`, or to `register_callback` of the same state.
-/

namespace Ethreads
namespace Reentrancy

variable {τ θ ι γ η ρ υ κ : Type*} {cfg : Config τ ι γ η}

/-- The topmost call of a thread is about to lock a mutex that a call below it
holds. -/
def Relocks (s : State τ θ ι γ ρ υ κ) (t : τ) (m : Mutex θ) : Prop :=
  ∃ f rest, s.stack t = f :: rest ∧ f.mutex = some m ∧ s.locks f = true ∧
    ∃ g ∈ rest, g.mutex = some m ∧ s.holds g = true

/-- No thread is about to lock a mutex that it holds. -/
def NeverRelocks (s : State τ θ ι γ ρ υ κ) : Prop :=
  ∀ t m, ¬Relocks s t m

/-- No call of the thread holds the mutex. -/
def Outside (s : State τ θ ι γ ρ υ κ) (t : τ) (m : Mutex θ) : Prop :=
  ∀ g ∈ s.stack t, g.mutex = some m → s.holds g = false

/-- `add_timer` is called outside of the mutex of the timer service, and
`register_callback` outside of the mutex of its state. -/
def CallsOutside (s : State τ θ ι γ ρ υ κ) : Action τ θ ι γ ρ υ κ → Prop
  | .service t _ (.callAdd _) => Outside s t .timer
  | .token t k (.callRegister _) => Outside s t (.token k)
  | _ => True

instance [DecidableEq θ] (s : State τ θ ι γ ρ υ κ) (t : τ) (m : Mutex θ) :
    Decidable (Outside s t m) :=
  inferInstanceAs (Decidable (∀ g ∈ s.stack t, _))

instance [DecidableEq θ] (s : State τ θ ι γ ρ υ κ)
    (a : Action τ θ ι γ ρ υ κ) : Decidable (CallsOutside s a) := by
  induction a using Action.casesOn with
  | service t p b =>
      induction b using TimerService.Action.casesOn <;>
        dsimp only [CallsOutside] <;> infer_instance
  | token t k b =>
      induction b using Cancellation.Action.casesOn <;>
        dsimp only [CallsOutside] <;> infer_instance
  | _ => exact inferInstanceAs (Decidable True)

/-- The frame will not lock its mutex if the state is cancelled. -/
def State.quiet (s : State τ θ ι γ ρ υ κ) : Frame θ ι ρ υ κ → Bool
  | .user => true
  | .service _ => false
  | .token k p => (s.token k).quiet p

/-- If the lower frame holds the mutex of the upper one, the upper one will not
lock it. -/
def Harmless (s : State τ θ ι γ ρ υ κ) (f g : Frame θ ι ρ υ κ) : Prop :=
  g.mutex = f.mutex → s.holds g = true → s.quiet f = true

/-- No frame will lock a mutex that one below it holds. -/
def Safe (s : State τ θ ι γ ρ υ κ) : Prop :=
  Ordered (Harmless s) s.stack

theorem harmless_user (s : State τ θ ι γ ρ υ κ) (g : Frame θ ι ρ υ κ) :
    Harmless s .user g :=
  fun _ _ => rfl

theorem Safe.neverRelocks {s : State τ θ ι γ ρ υ κ} (h : Safe s) :
    NeverRelocks s := by
  rintro t m ⟨f, rest, ht, hf, hlocks, g, hg, hgm, hholds⟩
  have hpair := h t
  rw [ht, List.pairwise_cons] at hpair
  have hquiet := hpair.1 g hg (hgm.trans hf.symm) hholds
  cases f with
  | user => cases hf
  | service p => cases hquiet
  | token k p =>
      have hnot : (s.token k).locks p = false :=
        Cancellation.locks_of_quiet hquiet
      exact absurd (hnot.symm.trans hlocks) nofun

section Steps

variable [DecidableEq τ] [DecidableEq θ] [DecidableEq ι] [DecidableEq γ]
  [DecidableEq ρ] [DecidableEq υ] [DecidableEq κ]
  {s s' : State τ θ ι γ ρ υ κ} {a : Action τ θ ι γ ρ υ κ}

omit [DecidableEq θ] [DecidableEq ι] [DecidableEq γ] [DecidableEq ρ]
  [DecidableEq υ] [DecidableEq κ] in
theorem Safe.of_call (h : Safe s) (hw : WellStacked s) {t : τ}
    {f : Frame θ ι ρ υ κ} {calls returns starts : Bool} (hf : f ≠ .user)
    (htop : (s.stack t).head? = some (if calls then .user else f))
    (hstack : s'.stack = Function.update s.stack t
      (stackAfter calls returns starts f (s.stack t)))
    (hholds : ∀ g, g ≠ f → s'.holds g = s.holds g)
    (hquiet : ∀ g, g ≠ f → s'.quiet g = s.quiet g)
    (hbegins : calls = true → s.isActive f = false ∧
      ∀ g ∈ s.stack t, g ≠ f → s.holds g = true → g.mutex = f.mutex →
        s'.quiet f = true)
    (hgoes : calls = false → returns = false → ∀ g, s.hasCalled g = true →
      s.holds g = true → g.mutex = f.mutex → s.quiet f = true →
        s'.quiet f = true) : Safe s' := by
  obtain ⟨rest, ht⟩ := exists_stack_eq htop
  have hothers : ∀ g g', g ≠ f → g' ≠ f → Harmless s g g' →
      Harmless s' g g' := by
    intro g g' hg hg' hgg
    unfold Harmless
    rw [hholds g' hg', hquiet g hg]
    exact hgg
  unfold Safe
  rw [hstack]
  cases calls with
  | true =>
      obtain ⟨hbefore, hafter⟩ := hbegins rfl
      have hnew : ∀ v, f ∉ s.stack v := fun v hmem =>
        absurd (hbefore.symm.trans (hw.active v f hmem)) nofun
      refine (h.of_not_mem hnew hothers).push fun g hg hmutex hg' => ?_
      have hne : g ≠ f := fun hgf => hnew t (hgf ▸ hg)
      rw [hholds g hne] at hg'
      exact hafter g hg hne hg' hmutex
  | false =>
      cases returns with
      | true =>
          rw [show stackAfter false true starts f (s.stack t) =
            (s.stack t).tail from rfl, ht]
          exact (h.pop ht).of_not_mem (hw.not_mem_pop ht hf) hothers
      | false =>
          have hmoved : Ordered (Harmless s') s.stack := by
            refine h.goesOn hw ht hf hothers fun g hg hfg hmutex hg' => ?_
            have hne : g ≠ f := fun hgf => hw.not_mem_rest ht hf (hgf ▸ hg)
            rw [hholds g hne] at hg'
            exact hgoes rfl rfl g (hw.calling_of_rest ht hg) hg' hmutex
              (hfg hmutex hg')
          cases starts with
          | true => exact hmoved.push fun g _ => harmless_user s' g
          | false =>
              rw [show stackAfter false false false f (s.stack t) =
                s.stack t from rfl, Function.update_eq_self]
              exact hmoved

theorem service_quiet {t : τ} {p : TimerService.Holder ι}
    {b : TimerService.Action ι γ} (g : Frame θ ι ρ υ κ) :
    (next cfg s (.service t p b)).quiet g = s.quiet g := by
  cases g <;> rfl

theorem token_quiet {t : τ} {k : θ} {b : Cancellation.Action ρ υ κ}
    {g : Frame θ ι ρ υ κ} (hg : g ≠ .token k b.agent) :
    (next cfg s (.token t k b)).quiet g = s.quiet g := by
  cases g with
  | token j q =>
      by_cases hjk : j = k
      · subst hjk
        have hq : b.agent ≠ q := fun hq => hg (by rw [hq])
        simp only [State.quiet, next_token_self]
        exact Cancellation.quiet_next_of_ne hq
      · have hsame : (next cfg s (.token t k b)).token j = s.token j :=
          Function.update_of_ne hjk ..
        simp only [State.quiet, hsame]
  | _ => rfl

omit [DecidableEq τ] [DecidableEq θ] [DecidableEq ι] [DecidableEq γ]
  [DecidableEq ρ] [DecidableEq υ] [DecidableEq κ] in
/-- Whoever holds the mutex of the timer service and has called out is in
`shutdown`. -/
theorem eq_shutdown {g : Frame θ ι ρ υ κ} (hcalled : s.hasCalled g = true)
    (hholds : s.holds g = true) (hmutex : g.mutex = some .timer) :
    g = .service .shutdown := by
  cases g with
  | user => cases hmutex
  | token k p => cases hmutex
  | service p =>
      rw [TimerService.eq_shutdown_of_hasCalled (s := s.service) hcalled hholds]

theorem safe_service (hw : WellStacked s) (h : Safe s) {t : τ}
    {p : TimerService.Holder ι} {b : TimerService.Action ι γ}
    (ha : Enabled cfg s (.service t p b))
    (hout : CallsOutside s (.service t p b)) :
    Safe (next cfg s (.service t p b)) := by
  refine h.of_call hw (f := .service p) nofun ha.2.2 rfl
    (fun g hg => (service_frame ha.2.1 hg).1) (fun g _ => service_quiet g)
    (fun hcalls => ?_) fun _ _ _ _ _ _ hquiet => nomatch hquiet
  have hbegins := TimerService.isActive_of_calls ha.1 hcalls ha.2.1
  refine ⟨hbegins.1, fun g hg hne hholds hmutex => ?_⟩
  cases b with
  | callAdd i => exact absurd ((hout g hg hmutex).symm.trans hholds) nofun
  | callShutdown =>
      obtain rfl := Option.some.inj ha.2.1
      obtain ⟨rest, ht⟩ := exists_stack_eq ha.2.2
      rw [ht] at hg
      rcases List.mem_cons.mp hg with rfl | hrest
      · cases hholds
      · exact absurd (eq_shutdown (hw.calling_of_rest ht hrest) hholds hmutex)
          hne
  | _ => cases hcalls

theorem safe_token (hs : (system cfg θ ρ υ κ).Reachable s) (h : Safe s)
    {t : τ} {k : θ} {b : Cancellation.Action ρ υ κ}
    (ha : Enabled cfg s (.token t k b))
    (hout : CallsOutside s (.token t k b)) :
    Safe (next cfg s (.token t k b)) := by
  refine h.of_call (wellStacked_reachable hs) (f := .token k b.agent) nofun
    ha.2 rfl (fun g hg => (token_frame hg).1) (fun g hg => token_quiet hg)
    (fun hcalls => ?_) fun _ hreturns g hcalled hholds hmutex hquiet => ?_
  · have hbegins := Cancellation.isActive_of_calls ha.1 hcalls
    refine ⟨hbegins.1, fun g hg hne hholds hmutex => ?_⟩
    rcases hbegins.2.2 with ⟨r, rfl⟩ | hquiet
    · exact absurd ((hout g hg hmutex).symm.trans hholds) nofun
    · simp only [State.quiet, next_token_self]
      exact hquiet
  · cases g with
    | user => cases hmutex
    | service q => cases hmutex
    | token j q =>
        obtain rfl := Mutex.token.inj (Option.some.inj hmutex)
        have hcancelled := Cancellation.cancelled_of_hasCalled
          (token_reachable hs j) hcalled hholds
        simp only [State.quiet, next_token_self]
        exact Cancellation.quiet_of_step hcancelled hreturns ha.1 hquiet

theorem safe_next (hs : (system cfg θ ρ υ κ).Reachable s) (h : Safe s)
    (ha : Enabled cfg s a) (hout : CallsOutside s a) :
    Safe (next cfg s a) := by
  have hw := wellStacked_reachable hs
  cases a with
  | shutDown => exact h
  | begin t => exact h.of_update (List.pairwise_singleton _ _)
  | finish t =>
      obtain ⟨rest, ht⟩ := exists_stack_eq ha
      have hpop := h.pop ht
      rw [← show (s.stack t).tail = rest by rw [ht, List.tail_cons]] at hpop
      exact hpop
  | resume t => exact h.push fun g _ => harmless_user s g
  | service t p b => exact safe_service hw h ha hout
  | outside b =>
      intro t
      refine (h t).imp fun {f g} hfg hmutex hholds => ?_
      have hquiet : s.quiet f = true :=
        hfg hmutex ((outside_frame ha.2 g).1.symm.trans hholds)
      cases f <;> exact hquiet
  | token t k b => exact safe_token hs h ha hout

theorem safe_reachable
    (hs : (system cfg θ ρ υ κ).ReachableWhere CallsOutside s) : Safe s := by
  refine hs.invariant_of (J := (system cfg θ ρ υ κ).Reachable) Safe
    (fun s hs => hs.reachable) ?_
    fun s a hs h ha hout => safe_next hs h ha hout
  rintro s ⟨fired, clock, rfl⟩
  have hempty : Ordered
      (Harmless (initialState cfg fired clock : State τ θ ι γ ρ υ κ))
      (fun _ : τ => ([] : List (Frame θ ι ρ υ κ))) := fun _ => .nil
  exact hempty.of_update (List.pairwise_singleton _ _)

/-! ## Calls inside of the mutex -/

/-- A call of `add_timer` or `register_callback` by user code above a call that
holds the mutex is about to lock it. -/
theorem relocks_of_not_callsOutside (hs : (system cfg θ ρ υ κ).Reachable s)
    (ha : Enabled cfg s a) (hnot : ¬CallsOutside s a) :
    ¬NeverRelocks (next cfg s a) := by
  have hw := wellStacked_reachable hs
  have hmem : ∀ {t m}, ¬Outside s t m →
      ∃ g ∈ s.stack t, g.mutex = some m ∧ s.holds g = true := by
    intro t m hout
    unfold Outside at hout
    push Not at hout
    obtain ⟨g, hg, hmutex, hholds⟩ := hout
    exact ⟨g, hg, hmutex, Bool.not_eq_false _ |>.mp hholds⟩
  cases a with
  | service t p b =>
      cases b with
      | callAdd i =>
          obtain rfl := Option.some.inj ha.2.1
          obtain ⟨g, hg, hmutex, hholds⟩ := hmem hnot
          have hbefore := (TimerService.isActive_of_calls ha.1 rfl ha.2.1).1
          have hne : g ≠ .service (.caller i) := by
            rintro rfl
            exact absurd (hbefore.symm.trans (hw.active t _ hg)) nofun
          refine fun hnever => hnever t .timer ⟨.service (.caller i),
            s.stack t, Function.update_self .., rfl, ?_, g, hg, hmutex, ?_⟩
          · simp [State.locks, TimerService.State.locks, next,
              TimerService.next]
          · exact (service_frame ha.2.1 hne).1.trans hholds
      | _ => exact absurd trivial hnot
  | token t k b =>
      cases b with
      | callRegister r =>
          obtain ⟨g, hg, hmutex, hholds⟩ := hmem hnot
          have hbefore := (Cancellation.isActive_of_calls ha.1 rfl).1
          have hne : g ≠ .token k (.register r) := by
            rintro rfl
            exact absurd (hbefore.symm.trans (hw.active t _ hg)) nofun
          refine fun hnever => hnever t (.token k) ⟨.token k (.register r),
            s.stack t, Function.update_self .., rfl, ?_, g, hg, hmutex, ?_⟩
          · simp [State.locks, Cancellation.State.locks, next,
              Cancellation.next, Cancellation.State.registerTo]
          · exact (token_frame hne).1.trans hholds
      | _ => exact absurd trivial hnot
  | _ => exact absurd trivial hnot

/-- No thread locks a mutex that it holds in exactly those runs in which user
code calls `add_timer` and `register_callback` outside of their mutexes. -/
theorem neverRelocks_iff_callsOutside (cfg : Config τ ι γ η)
    (θ ρ υ κ : Type*) [DecidableEq θ] [DecidableEq ρ] [DecidableEq υ]
    [DecidableEq κ] :
    (∀ s, (system cfg θ ρ υ κ).ReachableWhere CallsOutside s →
      NeverRelocks s) ∧
    (∀ s a, (system cfg θ ρ υ κ).Reachable s →
      (system cfg θ ρ υ κ).Enabled s a → ¬CallsOutside s a →
        ¬NeverRelocks ((system cfg θ ρ υ κ).next s a)) :=
  ⟨fun _ hs => (safe_reachable hs).neverRelocks,
    fun _ _ hs ha hnot => relocks_of_not_callsOutside hs ha hnot⟩

end Steps

/-! ## Schedules with two threads -/

def twoThreads : Config (Fin 2) (Fin 2) (Fin 2) (Fin 1) where
  entry := fun i => ⟨1, none, none, some ⟨some 0, i⟩⟩
  timerThread := 0
  hasWorkers := true

/-- A step of either thread, with one cancellation state. -/
abbrev Step :=
  Action (Fin 2) (Fin 1) (Fin 2) (Fin 2) (Fin 2) (Fin 1) (Fin 1)

/-- Thread `1` adds a timer, and shuts the service down while the scheduler is
shutting down.  It resumes the coroutine inline. -/
def sweepsInline : List Step :=
  [.begin 1, .service 1 (.caller 0) (.callAdd 0),
    .service 1 (.caller 0) (.lockAdd 0), .service 1 (.caller 0) (.push 0),
    .service 1 (.caller 0) (.unlockAdd 0),
    .service 1 (.caller 0) (.notifyAdd 0), .shutDown,
    .service 1 .shutdown .callShutdown, .service 1 .shutdown .exchangeFirst,
    .service 1 .shutdown .notifyShutdown, .service 0 .timer .lockTimer,
    .service 0 .timer .loadRunningFalse, .service 0 .timer .unlockExit,
    .service 1 .shutdown .join, .service 1 .shutdown .lockShutdown,
    .service 1 .shutdown (.drain 0 [0]), .service 1 .shutdown (.drainWon 0 [] 0),
    .service 1 .shutdown (.drainSchedule 0 [])]

/-- A thread cancels a state without callbacks. -/
def cancels (t : Fin 2) : List Step :=
  [.token t 0 (.callCancel 0), .token t 0 (.exchange 0),
    .token t 0 (.lockCancel 0), .token t 0 (.swap 0),
    .token t 0 (.unlockCancel 0 []), .token t 0 (.runDone 0),
    .token t 0 (.wakeAll 0)]

/-- A thread registers a callback, which is run at once. -/
def runsAtOnce (t : Fin 2) : List Step :=
  [.token t 0 (.callRegister 0), .token t 0 (.lockRegister 0),
    .token t 0 (.loadRegister 0), .token t 0 (.invoke 0)]

/-- The coroutine that `shutdown` resumes cancels a state and registers a
callback, which unregisters another one. -/
theorem neverRelocks_sweepsInline :
    NeverRelocks ((system twoThreads (Fin 1) (Fin 2) (Fin 1) (Fin 1)).after
      (initialState twoThreads (fun _ => false) 0)
        (sweepsInline ++ (cancels 1 ++ (runsAtOnce 1 ++
          [.token 1 0 (.callUnregister 0 1), .token 1 0 (.testZero 0 1),
            .token 1 0 (.loadFast 0 1), .finish 1, .token 1 0 (.invoked 0),
            .token 1 0 (.unlockRegister 0 0), .finish 1,
            .service 1 .shutdown .clear,
            .service 1 .shutdown .unlockShutdown])))) :=
  (neverRelocks_iff_callsOutside twoThreads (Fin 1) (Fin 2) (Fin 1)
    (Fin 1)).1 _ (TransitionSystem.Executes.reachableWhere
      (.init ⟨_, _, rfl⟩) (by decide))

/-- The coroutine that `shutdown` resumes adds a timer, and a callback that is
run at once registers another one. -/
theorem not_forall_neverRelocks :
    (¬∀ s, (system twoThreads (Fin 1) (Fin 2) (Fin 1) (Fin 1)).Reachable s →
      ∀ t, ¬Relocks s t .timer) ∧
    ¬∀ s, (system twoThreads (Fin 1) (Fin 2) (Fin 1) (Fin 1)).Reachable s →
      ∀ t k, ¬Relocks s t (.token k) := by
  refine ⟨fun hall => ?_, fun hall => ?_⟩
  · refine hall _ (TransitionSystem.Executes.reachable
      (l := sweepsInline ++ [.service 1 (.caller 1) (.callAdd 1)])
        (.init ⟨fun _ => false, 0, rfl⟩) (by decide)) 1 ?_
    exact ⟨.service (.caller 1), [.user, .service .shutdown, .user],
      by decide, rfl, by decide, .service .shutdown, by decide, rfl,
      by decide⟩
  · refine hall _ (TransitionSystem.Executes.reachable
      (l := .begin 1 :: (cancels 1 ++ (runsAtOnce 1 ++
        [.token 1 0 (.callRegister 1)])))
        (.init ⟨fun _ => false, 0, rfl⟩) (by decide)) 1 0 ?_
    exact ⟨.token 0 (.register 1), [.user, .token 0 (.register 0), .user],
      by decide, rfl, by decide, .token 0 (.register 0), by decide, rfl,
      by decide⟩

end Reentrancy
end Ethreads
