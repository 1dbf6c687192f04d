import Mathlib.Data.List.Perm.Basic
import Mathlib.Data.List.Sublists
import Mathlib.Tactic.Common

/-!
# Histories of a work-stealing deque

The abstract deque is a list.  Its owner pushes and pops at the back, thieves
steal at the front.  `Replays h d` says that the events of `h`, taken one after
another from the empty deque, are possible and leave the items `d`.
-/

namespace Ethreads

inductive DequeEvent (ι : Type*)
  | push (x : ι)
  | pop (x : ι)
  | steal (x : ι)
  deriving DecidableEq, Repr

namespace DequeEvent

variable {ι : Type*}

def pushed? : DequeEvent ι → Option ι
  | push x => some x
  | _ => none

def popped? : DequeEvent ι → Option ι
  | pop x => some x
  | _ => none

def stolen? : DequeEvent ι → Option ι
  | steal x => some x
  | _ => none

/-- A history of events and the items that it leaves. -/
inductive Replays : List (DequeEvent ι) → List ι → Prop
  | nil : Replays [] []
  | push {h : List (DequeEvent ι)} {d : List ι} (x : ι) :
      Replays h d → Replays (h ++ [push x]) (d ++ [x])
  | pop {h : List (DequeEvent ι)} {d : List ι} {x : ι} :
      Replays h (d ++ [x]) → Replays (h ++ [pop x]) d
  | steal {h : List (DequeEvent ι)} {d : List ι} {x : ι} :
      Replays h (x :: d) → Replays (h ++ [steal x]) d

variable {h : List (DequeEvent ι)} {d : List ι}

@[simp] theorem filterMap_append_push {β : Type*}
    (f : DequeEvent ι → Option β) (e : DequeEvent ι) :
    (h ++ [e]).filterMap f = h.filterMap f ++ (f e).toList := by
  rw [List.filterMap_append]
  cases hf : f e <;> simp [hf]

/-- What remains was pushed, in this order. -/
theorem Replays.sublist (hd : Replays h d) :
    d.Sublist (h.filterMap pushed?) := by
  induction hd with
  | nil => exact List.Sublist.refl _
  | push x _ ih =>
      rw [filterMap_append_push]
      exact ih.append (List.Sublist.refl [x])
  | pop _ ih =>
      rw [filterMap_append_push]
      simp only [pushed?, Option.toList_none, List.append_nil]
      exact (List.sublist_append_left _ _).trans ih
  | steal _ ih =>
      rw [filterMap_append_push]
      simp only [pushed?, Option.toList_none, List.append_nil]
      exact (List.sublist_cons_self _ _).trans ih

/-- Every pushed item was popped, was stolen, or remains. -/
theorem Replays.perm (hd : Replays h d) :
    (h.filterMap popped? ++ h.filterMap stolen? ++ d).Perm
      (h.filterMap pushed?) := by
  induction hd with
  | nil => exact List.Perm.refl _
  | push x _ ih =>
      simp only [filterMap_append_push, popped?, stolen?, pushed?,
        Option.toList_none, Option.toList_some, List.append_nil]
      rw [← List.append_assoc]
      exact ih.append_right [x]
  | @pop h d x _ ih =>
      simp only [filterMap_append_push, popped?, stolen?, pushed?,
        Option.toList_none, Option.toList_some, List.append_nil]
      refine List.Perm.trans ?_ ih
      simp only [List.append_assoc]
      refine List.Perm.append_left _ ?_
      rw [← List.append_assoc (h.filterMap stolen?) d [x]]
      exact List.perm_append_comm
  | @steal h d x _ ih =>
      simp only [filterMap_append_push, popped?, stolen?, pushed?,
        Option.toList_none, Option.toList_some, List.append_nil]
      refine List.Perm.trans ?_ ih
      simp

end DequeEvent
end Ethreads
