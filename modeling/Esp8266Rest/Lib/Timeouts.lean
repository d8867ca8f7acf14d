import Mathlib.Data.List.Sort

/-!
# One-shot timeouts

The pending timeouts of a program, in the order in which they expire.  A timeout is put behind those that
are due no later (`put`), the first one with a given handler can be cancelled (`cancel`), and the head
expires next.  `InOrder` is the invariant: the head is due first (`InOrder.head_le`).
-/

namespace Esp8266Rest.Lib.Timeouts

variable {H : Type*}

/-- A timeout that expires at `due` and then runs `handler`. -/
structure Timeout (H : Type*) where
  due : ℕ
  handler : H
  deriving DecidableEq, Repr

def put (t : Timeout H) (ts : List (Timeout H)) : List (Timeout H) :=
  ts.orderedInsert (fun a b => a.due < b.due) t

def cancel [DecidableEq H] (h : H) (ts : List (Timeout H)) : List (Timeout H) :=
  ts.eraseP fun t => t.handler = h

/-- None is due before one that stands in front of it. -/
def InOrder (ts : List (Timeout H)) : Prop := ts.Pairwise fun a b => a.due ≤ b.due

variable {t u : Timeout H} {ts : List (Timeout H)}

lemma InOrder.head_le (h : InOrder (t :: ts)) (hu : u ∈ ts) : t.due ≤ u.due :=
  (List.pairwise_cons.1 h).1 u hu

lemma InOrder.tail (h : InOrder (t :: ts)) : InOrder ts := (List.pairwise_cons.1 h).2

lemma InOrder.sublist {us : List (Timeout H)} (h : InOrder ts) (hsub : us.Sublist ts) : InOrder us :=
  List.Pairwise.sublist hsub h

/-! ### Setting a timeout -/

@[simp] theorem mem_put : u ∈ put t ts ↔ u = t ∨ u ∈ ts := List.mem_orderedInsert _

@[simp] theorem length_put (t : Timeout H) (ts : List (Timeout H)) : (put t ts).length = ts.length + 1 :=
  List.orderedInsert_length _ ts t

theorem forall_put {P : Timeout H → Prop} (ht : P t) (hts : ∀ u ∈ ts, P u) : ∀ u ∈ put t ts, P u := by
  intro u hu
  rcases mem_put.1 hu with rfl | hu
  · exact ht
  · exact hts u hu

lemma countP_put (P : Timeout H → Bool) (t : Timeout H) (ts : List (Timeout H)) :
    (put t ts).countP P = (t :: ts).countP P := (List.perm_orderedInsert _ t ts).countP_eq P

theorem inOrder_put (t : Timeout H) (h : InOrder ts) : InOrder (put t ts) := by
  induction ts with
  | nil => exact List.pairwise_singleton _ t
  | cons u us ih =>
    by_cases hlt : t.due < u.due
    · have hput : put t (u :: us) = t :: u :: us := if_pos hlt
      rw [hput]
      refine List.pairwise_cons.2 ⟨fun v hv => ?_, h⟩
      rcases List.mem_cons.1 hv with rfl | hv
      · exact hlt.le
      · exact hlt.le.trans (h.head_le hv)
    · have hput : put t (u :: us) = u :: put t us := if_neg hlt
      rw [hput]
      refine List.pairwise_cons.2 ⟨?_, ih h.tail⟩
      exact forall_put (P := fun v => u.due ≤ v.due) (Nat.le_of_not_lt hlt) fun v hv => h.head_le hv

/-! ### Cancelling -/

section Cancel

variable [DecidableEq H] (h : H)

lemma cancel_sublist (ts : List (Timeout H)) : (cancel h ts).Sublist ts := List.eraseP_sublist

lemma length_cancel_le (ts : List (Timeout H)) : (cancel h ts).length ≤ ts.length :=
  (cancel_sublist h ts).length_le

lemma length_cancel_of_mem (ht : t ∈ ts) : (cancel t.handler ts).length = ts.length - 1 :=
  List.length_eraseP_of_mem ht (decide_eq_true rfl)

end Cancel

end Esp8266Rest.Lib.Timeouts
