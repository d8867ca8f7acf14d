import Mathlib.Data.List.Induction

/-!
# Counting failures in a row

A watchdog looks at one outcome after the other and raises an alarm when `limit` failures have come in a
row.  One that only counts failures raises it at every `limit`-th of them.  `countsRuns_iff` says when the
two are the same on a history: whenever a multiple of `limit` failures is complete, the last `limit`
outcomes all failed.
-/

namespace Esp8266Rest.Lib.Streaks

variable {α : Type*} (failed alarmed : α → Bool) (limit : ℕ)

def failures (h : List α) : ℕ := h.countP failed

/-- How many outcomes at the end failed. -/
def failedRun (h : List α) : ℕ := (h.reverse.takeWhile failed).length

/-- How many at the end failed since the last success and the last alarm. -/
def streak (h : List α) : ℕ := (h.reverse.takeWhile fun c => failed c && !alarmed c).length

/-- The alarm comes at every `limit`-th failure. -/
def CountsAll (h : List α) : Prop := ∀ pre c, pre ++ [c] <+: h →
  (alarmed c = true ↔ failed c = true ∧ limit ∣ failures failed (pre ++ [c]))

/-- The alarm comes where `limit` failures in a row are complete, counted since the last success and the
last alarm. -/
def CountsRuns (h : List α) : Prop := ∀ pre c, pre ++ [c] <+: h →
  (alarmed c = true ↔ failed c = true ∧ streak failed alarmed pre + 1 = limit)

/-- Where a multiple of `limit` failures is complete, the last `limit` outcomes failed. -/
def FullRuns (h : List α) : Prop := ∀ pre c, pre ++ [c] <+: h → failed c = true →
  limit ∣ failures failed (pre ++ [c]) → limit ≤ failedRun failed (pre ++ [c])

section Concat

variable {failed alarmed} (h : List α) {c : α}

theorem failures_concat : failures failed (h ++ [c]) =
    if failed c then failures failed h + 1 else failures failed h := by
  unfold failures
  rw [List.countP_append, List.countP_singleton]
  split <;> rfl

theorem failedRun_concat : failedRun failed (h ++ [c]) =
    if failed c then failedRun failed h + 1 else 0 := by
  unfold failedRun
  rw [List.reverse_concat, List.takeWhile_cons]
  split <;> rfl

theorem streak_concat : streak failed alarmed (h ++ [c]) =
    if failed c && !alarmed c then streak failed alarmed h + 1 else 0 := by
  unfold streak
  rw [List.reverse_concat, List.takeWhile_cons]
  split <;> rfl

end Concat

variable {failed alarmed limit} {h : List α}

lemma CountsAll.of_prefix {pre : List α} (hall : CountsAll failed alarmed limit h) (hp : pre <+: h) :
    CountsAll failed alarmed limit pre := fun t c ht => hall t c (ht.trans hp)

theorem countsAll_concat {c : α} (hall : CountsAll failed alarmed limit h)
    (hc : alarmed c = true ↔ failed c = true ∧ limit ∣ failures failed (h ++ [c])) :
    CountsAll failed alarmed limit (h ++ [c]) := by
  intro pre d hp
  rcases List.prefix_concat_iff.1 hp with he | hp
  · obtain ⟨rfl, hd⟩ := List.append_inj' he rfl
    obtain rfl := List.singleton_inj.1 hd
    exact hc
  · exact hall pre d hp

lemma FullRuns.of_prefix {pre : List α} (hfull : FullRuns failed limit h) (hp : pre <+: h) :
    FullRuns failed limit pre := fun t c ht => hfull t c (ht.trans hp)

theorem succ_mod (n : ℕ) (hlim : 0 < limit) :
    (n + 1) % limit = if n % limit + 1 = limit then 0 else n % limit + 1 := by
  have hlt := Nat.mod_lt n hlim
  rw [← Nat.mod_add_mod]
  split
  · rename_i he
    rw [he, Nat.mod_self]
  · exact Nat.mod_eq_of_lt (by omega)

/-- **The streak of a watchdog that counts all failures** ends at the last success or at the last
multiple of `limit`, whichever came later. -/
theorem streak_eq_min (hlim : 0 < limit) (hall : CountsAll failed alarmed limit h) :
    streak failed alarmed h = min (failedRun failed h) (failures failed h % limit) := by
  induction h using List.reverseRecOn with
  | nil => rfl
  | append_singleton h c ih =>
    have hc := hall h c (List.prefix_refl _)
    rw [failures_concat] at hc
    rw [streak_concat, failedRun_concat, failures_concat, ih (hall.of_prefix (List.prefix_append _ _))]
    cases hf : failed c with
    | false => simp
    | true =>
      simp only [hf, if_true, true_and, Nat.dvd_iff_mod_eq_zero, succ_mod _ hlim] at hc ⊢
      cases ha : alarmed c with
      | true =>
        -- the alarm comes with a multiple
        rw [hc.1 ha]
        simp
      | false =>
        have hne : ¬ failures failed h % limit + 1 = limit := fun e => by simp [hc.2, e] at ha
        rw [if_neg hne]
        simp only [Bool.not_false, Bool.and_self, if_true]
        omega

/-- **When counting all failures counts runs.** -/
theorem countsRuns_iff (hlim : 0 < limit) (hall : CountsAll failed alarmed limit h) :
    CountsRuns failed alarmed limit h ↔ FullRuns failed limit h := by
  refine forall₂_congr fun pre c => forall_congr' fun hp => ?_
  have hc := hall pre c hp
  have hstreak := streak_eq_min hlim (hall.of_prefix ((List.prefix_append pre [c]).trans hp))
  rw [hc, hstreak, failedRun_concat, failures_concat]
  cases hf : failed c with
  | false => simp
  | true =>
    simp only [if_true, true_and, forall_const]
    have hlt := Nat.mod_lt (failures failed pre) hlim
    rw [Nat.dvd_iff_mod_eq_zero, succ_mod _ hlim]
    split <;> omega

theorem fullRuns_map {β : Type*} {f : β → α} {h : List β} :
    FullRuns failed limit (h.map f) ↔ FullRuns (fun c => failed (f c)) limit h := by
  have hfailures : ∀ t : List β, failures failed (t.map f) = failures (fun c => failed (f c)) t := by
    intro t
    unfold failures
    rw [List.countP_map]
    rfl
  have hrun : ∀ t : List β, failedRun failed (t.map f) = failedRun (fun c => failed (f c)) t := by
    intro t
    unfold failedRun
    rw [← List.map_reverse, List.takeWhile_map, List.length_map]
    rfl
  constructor
  · intro hfull pre c hp hf hdvd
    have hp' : pre.map f ++ [f c] <+: h.map f := by
      rw [← List.map_singleton, ← List.map_append]
      exact hp.map f
    have key := hfull (pre.map f) (f c) hp' hf
    rw [← List.map_singleton, ← List.map_append, hfailures, hrun] at key
    exact key hdvd
  · intro hfull pre c hp hf hdvd
    obtain ⟨t, ht, heq⟩ := List.prefix_map_iff.1 hp
    obtain ⟨u, v, rfl, rfl, hv⟩ := List.map_eq_append_iff.1 heq.symm
    obtain ⟨d, rfl, rfl⟩ := List.map_eq_singleton_iff.1 hv
    rw [heq, hfailures] at hdvd
    rw [heq, hrun]
    exact hfull u d ht hf hdvd

end Esp8266Rest.Lib.Streaks
