import Ethreads.TaskObject.Model

/-!
# Owners of frames

A frame has at most one owner.  Move construction and move assignment pass it
on, and a destroyed frame has no owner any more, so no frame is destroyed
twice.
-/

namespace Ethreads
namespace TaskObject

variable {τ O F : Type*}

/-- The frames destroyed so far, in order. -/
def State.destroyed (s : State τ O F) : List F :=
  s.destructions.map Destruction.frame

/-! ## Owners -/

/-- A frame has at most one owner, and none once it was destroyed. -/
structure Owned (s : State τ O F) : Prop where
  unique : ∀ {x y f}, s.handle x = some f → s.handle y = some f → x = y
  state_eq : s.state = s.handle
  created : ∀ {x f}, s.handle x = some f → s.frame f ≠ .absent
  kept : ∀ {x f}, s.handle x = some f → f ∉ s.destroyed
  destroyed_created : ∀ {f}, f ∈ s.destroyed → s.frame f ≠ .absent
  nodup : s.destroyed.Nodup

section Owners

variable {s s' : State τ O F}

theorem Owned.of_frames (h : Owned s) (hhandle : s'.handle = s.handle)
    (hstate : s'.state = s.state)
    (hdestroyed : s'.destroyed = s.destroyed)
    (hframe : ∀ f, s.frame f ≠ .absent → s'.frame f ≠ .absent) :
    Owned s' := by
  constructor
  · rw [hhandle]
    exact h.unique
  · rw [hhandle, hstate]
    exact h.state_eq
  · intro x f hx
    rw [hhandle] at hx
    exact hframe f (h.created hx)
  · rw [hhandle, hdestroyed]
    exact h.kept
  · intro f hf
    rw [hdestroyed] at hf
    exact hframe f (h.destroyed_created hf)
  · rw [hdestroyed]
    exact h.nodup

theorem Owned.of_handles (h : Owned s) (g : O → O)
    (hhandle : ∀ x, s'.handle x = none ∨ s'.handle x = s.handle (g x))
    (hinj : ∀ x y f, s'.handle x = some f → s'.handle y = some f →
      g x = g y → x = y)
    (hstate : s'.state = s'.handle)
    (hdestroyed : s'.destroyed = s.destroyed)
    (hframe : s'.frame = s.frame) : Owned s' := by
  have howner : ∀ x f, s'.handle x = some f → s.handle (g x) = some f := by
    intro x f hx
    rcases hhandle x with hnone | heq
    · rw [hnone] at hx
      exact absurd hx (by simp)
    · rw [← heq]
      exact hx
  constructor
  · intro x y f hx hy
    exact hinj x y f hx hy (h.unique (howner x f hx) (howner y f hy))
  · exact hstate
  · intro x f hx
    rw [hframe]
    exact h.created (howner x f hx)
  · intro x f hx
    rw [hdestroyed]
    exact h.kept (howner x f hx)
  · rw [hframe, hdestroyed]
    exact h.destroyed_created
  · rw [hdestroyed]
    exact h.nodup

theorem Owned.of_destroy (h : Owned s) {f : F}
    (hhandle : s'.handle = s.handle) (hstate : s'.state = s.state)
    (hframe : s'.frame = s.frame)
    (hdestroyed : s'.destroyed = s.destroyed ++ [f])
    (howner : ∀ x, s.handle x ≠ some f) (hcreated : s.frame f ≠ .absent)
    (hf : f ∉ s.destroyed) : Owned s' := by
  constructor
  · rw [hhandle]
    exact h.unique
  · rw [hhandle, hstate]
    exact h.state_eq
  · rw [hhandle, hframe]
    exact h.created
  · intro x e hx hmem
    rw [hhandle] at hx
    rw [hdestroyed, List.mem_append, List.mem_singleton] at hmem
    rcases hmem with hmem | rfl
    · exact h.kept hx hmem
    · exact howner x hx
  · intro e hmem
    rw [hdestroyed, List.mem_append, List.mem_singleton] at hmem
    rw [hframe]
    rcases hmem with hmem | rfl
    · exact h.destroyed_created hmem
    · exact hcreated
  · rw [hdestroyed]
    exact List.nodup_append.mpr ⟨h.nodup, List.nodup_singleton f,
      fun e he e' he' heq => hf (by rwa [← List.mem_singleton.mp he', ← heq])⟩

variable [DecidableEq O]

theorem Owned.takeFrom (h : Owned s) {x y : O} (hxy : x ≠ y) :
    Owned (s.takeFrom x y) := by
  have hhandle : ∀ z, (s.takeFrom x y).handle z =
      if z = y then none else s.handle (if z = x then y else z) := by
    intro z
    by_cases hzy : z = y
    · simp [State.takeFrom, hzy]
    · by_cases hzx : z = x <;> simp [State.takeFrom, hzy, hzx, hxy]
  refine h.of_handles (fun z => if z = x then y else z) ?_ ?_ ?_ rfl rfl
  · intro z
    rw [hhandle]
    split <;> simp
  · intro z w f hz hw
    rw [hhandle] at hz hw
    grind
  · simp only [State.takeFrom, h.state_eq]

theorem Owned.release (h : Owned s) (x : O) : Owned (s.release x) := by
  have hhandle : ∀ z, (s.release x).handle z =
      if z = x then none else s.handle z := by
    intro z
    by_cases hz : z = x <;> simp [State.release, hz]
  refine h.of_handles id ?_ (fun _ _ _ _ _ heq => heq) ?_ rfl rfl
  · intro z
    rw [hhandle]
    split <;> simp
  · simp only [State.release, h.state_eq]

end Owners

section Steps

variable [DecidableEq τ] [DecidableEq O] [DecidableEq F]
  {s s' : State τ O F} {a : Action τ O F}

omit [DecidableEq τ] [DecidableEq O] in
theorem frame_ne_absent_frameTo {f e : F} {q : FramePc} (hq : q ≠ .absent)
    (he : s.frame e ≠ .absent) : (s.frameTo f q).frame e ≠ .absent := by
  by_cases hef : e = f
  · simpa [State.frameTo, hef] using hq
  · simpa [State.frameTo, hef] using he

theorem Owned.create (h : Owned s) {x : O} {f : F}
    (habsent : s.frame f = .absent) : Owned (next s (.create x f)) := by
  have howner : ∀ z, s.handle z ≠ some f := fun z hz => h.created hz habsent
  have hf : f ∉ s.destroyed := fun hmem => h.destroyed_created hmem habsent
  have hframe : ∀ e, s.frame e ≠ .absent →
      (next s (.create x f)).frame e ≠ .absent := by
    intro e he
    exact frame_ne_absent_frameTo (by simp) he
  have hself : (next s (.create x f)).frame f ≠ .absent := by
    simp [next, State.frameTo]
  have hcases : ∀ z e, (next s (.create x f)).handle z = some e →
      z = x ∧ e = f ∨ z ≠ x ∧ s.handle z = some e := by
    intro z e hz
    by_cases hzx : z = x
    · left
      simp only [next, hzx, Function.update_self, Option.some.injEq] at hz
      exact ⟨hzx, hz.symm⟩
    · right
      exact ⟨hzx, by simpa [next, hzx] using hz⟩
  constructor
  · intro z w e hz hw
    rcases hcases z e hz with ⟨hzx, hef⟩ | ⟨-, hz⟩ <;>
      rcases hcases w e hw with ⟨hwx, hef'⟩ | ⟨-, hw⟩
    · rw [hzx, hwx]
    · exact absurd (hef ▸ hw) (howner w)
    · exact absurd (hef' ▸ hz) (howner z)
    · exact h.unique hz hw
  · simp only [next, State.frameTo, h.state_eq]
  · intro z e hz
    rcases hcases z e hz with ⟨-, rfl⟩ | ⟨-, hz⟩
    · exact hself
    · exact hframe e (h.created hz)
  · intro z e hz
    rcases hcases z e hz with ⟨-, rfl⟩ | ⟨-, hz⟩
    · exact hf
    · exact h.kept hz
  · intro e hmem
    exact hframe e (h.destroyed_created hmem)
  · exact h.nodup

theorem Owned.moveAssign (h : Owned s) {x y : O} (hxy : x ≠ y) :
    Owned (next s (.moveAssign x y)) := by
  have htake := h.takeFrom hxy
  cases hx : s.handle x with
  | none =>
      simp only [next, hx, State.destroyFrame]
      exact htake
  | some f =>
      refine htake.of_destroy (f := f) ?_ ?_ ?_ ?_ ?_ (h.created hx) (h.kept hx)
      · simp [next, hx, State.destroyFrame, State.takeFrom]
      · simp [next, hx, State.destroyFrame, State.takeFrom]
      · simp [next, hx, State.destroyFrame, State.takeFrom]
      · simp [next, hx, State.destroyFrame, State.takeFrom, State.destroyed]
      · intro z hz
        have hne : s.handle y ≠ some f := fun hy => hxy (h.unique hx hy)
        have hother : z ≠ x → s.handle z ≠ some f :=
          fun hzx hzf => hzx (h.unique hzf hx)
        simp only [State.takeFrom, Function.update_apply] at hz
        grind

theorem Owned.destroy (h : Owned s) {t : τ} {x : O} {f : F}
    (hx : s.handle x = some f) : Owned (next s (.destroy t x f)) := by
  refine (h.release x).of_destroy (f := f) rfl rfl rfl ?_ ?_ (h.created hx)
    (h.kept hx)
  · simp [next, State.destroyFrame, State.release, State.goto,
      State.destroyed]
  · intro z hz
    by_cases hzx : z = x
    · simp [State.release, hzx] at hz
    · simp only [State.release, Function.update_of_ne hzx] at hz
      exact hzx (h.unique hz hx)

theorem Owned.next (h : Owned s) (ha : Enabled s a) : Owned (next s a) := by
  cases a with
  | create x f => exact h.create ha.2
  | moveConstruct x y =>
      have hxy : x ≠ y := by
        rintro rfl
        exact absurd (ha.1.symm.trans ha.2.1) (by simp)
      exact (h.takeFrom hxy).of_frames rfl rfl rfl fun _ he => he
  | moveAssign x y => exact h.moveAssign ha.2.2.1
  | withoutFrame t x =>
      exact (h.release x).of_frames rfl rfl rfl fun _ he => he
  | destroy t x f => exact h.destroy ha.2
  | resume f | suspend f | wake f | complete f | publish f =>
      exact h.of_frames rfl rfl rfl
        fun e he => frame_ne_absent_frameTo (by simp) he
  | _ => exact h.of_frames rfl rfl rfl fun _ he => he

theorem owned_of_reachable (hs : (system τ O F).Reachable s) : Owned s := by
  refine hs.invariant Owned ?_ fun s a h ha => h.next ha
  rintro s rfl
  constructor <;> simp [initialState, State.destroyed]

end Steps

end TaskObject
end Ethreads
