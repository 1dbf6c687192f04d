import Ethreads.AsyncPrimitive.Model

/-!
# Pointers to waiter nodes

The functions of the waiter list only copy pointers: whatever is known of
every node that was ever added holds of every node that is reached through the
head, a `next` field or a local variable, whether or not it still waits.
-/

namespace Ethreads
namespace AsyncPrimitive

variable {τ ν γ : Type*}

def Pc.mentions : Pc ν → List ν
  | idle | wakeLoad | exchange => []
  | addLoad n | wakeNext n | walkNext n => [n]
  | addLink n o | addCas n o | wakeCas n o | deliver n o => n :: o.toList

/-- Every pointer to a node is to one with the property. -/
structure PointsTo (P : ν → Prop) (s : State τ ν γ) : Prop where
  waiters : ∀ n ∈ s.waiters, P n
  next : ∀ m, ∀ n ∈ s.next m, P n
  pc : ∀ t, ∀ n ∈ (s.pc t).mentions, P n

section Steps

variable {P Q : ν → Prop} {s s' : State τ ν γ}

theorem mem_mentions_wakeWith {o : Option ν} {n : ν} :
    n ∈ (wakeWith o).mentions ↔ n ∈ o := by
  cases o <;> simp [wakeWith, Pc.mentions, eq_comm]

theorem mem_mentions_walkWith {o : Option ν} {n : ν} :
    n ∈ (walkWith o).mentions ↔ n ∈ o := by
  cases o <;> simp [walkWith, Pc.mentions, eq_comm]

theorem PointsTo.mono (h : PointsTo P s) (hPQ : ∀ n, P n → Q n) :
    PointsTo Q s :=
  ⟨fun n hn => hPQ n (h.waiters n hn), fun m n hn => hPQ n (h.next m n hn),
    fun t n hn => hPQ n (h.pc t n hn)⟩

variable [DecidableEq τ]

theorem PointsTo.of_goto (h : PointsTo P s) {t : τ} {q : Pc ν}
    (hpc : s'.pc = Function.update s.pc t q)
    (hwaiters : ∀ n ∈ s'.waiters, P n)
    (hnext : ∀ m, ∀ n ∈ s'.next m, P n)
    (hq : ∀ n ∈ q.mentions, P n) : PointsTo P s' := by
  refine ⟨hwaiters, hnext, fun u n hn => ?_⟩
  rw [hpc, Function.update_apply] at hn
  split at hn
  · exact hq n hn
  · exact h.pc u n hn

/-- The thread gets no other pointers than it had, or than the list head. -/
theorem PointsTo.of_pc (h : PointsTo P s) {t : τ} {p q : Pc ν}
    (hp : s.pc t = p) (hpc : s'.pc = Function.update s.pc t q)
    (hwaiters : s'.waiters = s.waiters) (hnext : s'.next = s.next)
    (hq : ∀ n ∈ q.mentions, n ∈ p.mentions ∨ n ∈ s.waiters) :
    PointsTo P s' := by
  refine h.of_goto hpc ?_ ?_ ?_
  · rw [hwaiters]
    exact h.waiters
  · rw [hnext]
    exact h.next
  · intro n hn
    rcases hq n hn with hold | hhead
    · exact h.pc t n (by rw [hp]; exact hold)
    · exact h.waiters n hhead

variable [DecidableEq ν] [DecidableEq γ] {gate : ν → Option γ}

theorem pointsTo_addLink (h : PointsTo P s) {t : τ} {n : ν} {o : Option ν}
    (ha : s.pc t = .addLink n o) :
    PointsTo P (AsyncPrimitive.next gate s (.addLink t n o)) := by
  have hpc := h.pc t
  rw [ha] at hpc
  refine h.of_goto (t := t) rfl h.waiters ?_ hpc
  intro m r hr
  by_cases hmn : m = n
  · have hro : r ∈ o := by simpa [AsyncPrimitive.next, hmn] using hr
    exact hpc r (List.mem_cons_of_mem _ (Option.mem_toList.mpr hro))
  · exact h.next m r (by simpa [AsyncPrimitive.next, hmn] using hr)

/-- A step of the list copies pointers; only a call of `add_waiter` brings a
new one. -/
theorem pointsTo_next (h : PointsTo P s) {a : Action τ ν γ}
    (ha : Enabled gate s a) (hnode : ∀ t n, a = .callAdd t n → P n) :
    PointsTo P (AsyncPrimitive.next gate s a) := by
  cases a with
  | callAdd t n =>
      refine h.of_goto (t := t) rfl h.waiters h.next fun m hm => ?_
      rw [List.mem_singleton.mp hm]
      exact hnode t n rfl
  | addLink t n o => exact pointsTo_addLink h ha
  | addCas t n o =>
      have hpc := h.pc t
      rw [ha.1] at hpc
      refine h.of_goto (t := t) (q := .idle) rfl ?_ h.next nofun
      rintro m ⟨⟩
      exact hpc n List.mem_cons_self
  | wakeCas t n o =>
      have hpc := h.pc t
      rw [ha.1] at hpc
      refine h.of_goto (t := t) rfl ?_ h.next ?_
      · intro m hm
        exact hpc m (List.mem_cons_of_mem _ (Option.mem_toList.mpr hm))
      · intro m hm
        rw [List.mem_singleton.mp hm]
        exact hpc n List.mem_cons_self
  | exchange t =>
      refine h.of_goto (t := t) rfl nofun h.next fun m hm => ?_
      exact h.waiters m (mem_mentions_walkWith.mp hm)
  | wakeNext t n =>
      have hpc := h.pc t
      rw [show s.pc t = .wakeNext n from ha] at hpc
      refine h.of_goto (t := t) rfl h.waiters h.next fun m hm => ?_
      rcases List.mem_cons.mp hm with rfl | hm
      · exact hpc m List.mem_cons_self
      · exact h.next n m (Option.mem_toList.mp hm)
  | walkNext t n =>
      have hpc := h.pc t
      rw [show s.pc t = .walkNext n from ha] at hpc
      refine h.of_goto (t := t) rfl h.waiters h.next fun m hm => ?_
      rcases List.mem_cons.mp hm with rfl | hm
      · exact hpc m List.mem_cons_self
      · exact h.next n m (Option.mem_toList.mp hm)
  | addLoad t n =>
      refine h.of_pc (t := t) ha rfl rfl rfl fun m hm => ?_
      exact (List.mem_cons.mp hm).imp (fun hmn => by simp [Pc.mentions, hmn])
        Option.mem_toList.mp
  | addCasFails t n o =>
      refine h.of_pc (t := t) ha rfl rfl rfl fun m hm => ?_
      exact (List.mem_cons.mp hm).imp (fun hmn => by simp [Pc.mentions, hmn])
        Option.mem_toList.mp
  | wakeLoad t =>
      exact h.of_pc (t := t) ha rfl rfl rfl fun m hm =>
        .inr (mem_mentions_wakeWith.mp hm)
  | wakeCasFails t n o =>
      exact h.of_pc (t := t) ha rfl rfl rfl fun m hm =>
        .inr (mem_mentions_wakeWith.mp hm)
  | schedule t n r =>
      refine h.of_pc (t := t) ha.1 rfl rfl rfl fun m hm => .inl ?_
      exact List.mem_cons_of_mem _
        (Option.mem_toList.mpr (mem_mentions_walkWith.mp hm))
  | skip t n r g =>
      refine h.of_pc (t := t) ha.1 rfl rfl rfl fun m hm => .inl ?_
      exact List.mem_cons_of_mem _
        (Option.mem_toList.mpr (mem_mentions_walkWith.mp hm))
  | callWakeOne t | callWakeAll t =>
      exact h.of_pc (t := t) ha rfl rfl rfl nofun
  | fire g | resume n => exact ⟨h.waiters, h.next, h.pc⟩

end Steps

end AsyncPrimitive
end Ethreads
