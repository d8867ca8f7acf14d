import Mathlib.Algebra.BigOperators.Intervals
import Mathlib.Algebra.BigOperators.Ring.Finset
import Mathlib.Algebra.Order.BigOperators.Group.Finset

/-!
# Cutting a line into segments

Segments with the lengths `len a`, `len (a + 1)`, … lie end to end from `0` on.  A number is given by
its segment and the rest that it lies behind the start of that segment.

* `Lies` — the rest is below the length: a number has one such place (`Lies.unique`);
* `Reaches` — the rest may be the length itself, which is where a loop ends that takes off a segment
  only while *more* than it is left.  The start of a segment then is the end of the one before.

Places of the second kind are in the order of the numbers too (`Reaches.order`).
-/

namespace Esp8266Rest.Lib.Segments

variable {len : ℕ → ℕ} {a k l v w r s : ℕ}

/-- Where segment `k` starts. -/
def start (len : ℕ → ℕ) (a k : ℕ) : ℕ := ∑ i ∈ Finset.Ico a k, len i

@[simp] theorem start_self (len : ℕ → ℕ) (a : ℕ) : start len a a = 0 := by simp [start]

lemma start_succ (h : a ≤ k) : start len a (k + 1) = start len a k + len k :=
  Finset.sum_Ico_succ_top h len

lemma start_mono (h : k ≤ l) : start len a k ≤ start len a l :=
  Finset.sum_le_sum_of_subset (Finset.Ico_subset_Ico_right h)

lemma start_congr {len' : ℕ → ℕ} (h : ∀ i, a ≤ i → i < k → len i = len' i) :
    start len a k = start len' a k :=
  Finset.sum_congr rfl fun i hi => h i (Finset.mem_Ico.1 hi).1 (Finset.mem_Ico.1 hi).2

lemma start_le_start {len' : ℕ → ℕ} (h : ∀ i, a ≤ i → i < k → len i ≤ len' i) :
    start len a k ≤ start len' a k :=
  Finset.sum_le_sum fun i hi => h i (Finset.mem_Ico.1 hi).1 (Finset.mem_Ico.1 hi).2

/-- One segment that got longer moves all behind it. -/
theorem start_lt_start {len' : ℕ → ℕ} (h : ∀ i, a ≤ i → i < k → len i ≤ len' i) {j : ℕ}
    (haj : a ≤ j) (hjk : j < k) (hj : len j < len' j) : start len a k < start len' a k :=
  Finset.sum_lt_sum (fun i hi => h i (Finset.mem_Ico.1 hi).1 (Finset.mem_Ico.1 hi).2)
    ⟨j, Finset.mem_Ico.2 ⟨haj, hjk⟩, hj⟩

lemma start_mul (c k : ℕ) : start (fun i => c * len i) a k = c * start len a k :=
  (Finset.mul_sum _ _ _).symm

theorem start_add_le (len : ℕ → ℕ) (hk : a ≤ k) (h : k < l) :
    start len a k + len k ≤ start len a l := by
  rw [← start_succ hk]
  exact start_mono h

/-! ### Places -/

/-- `v` lies in segment `k`, `r` behind its start. -/
structure Lies (len : ℕ → ℕ) (a v k r : ℕ) : Prop where
  le : a ≤ k
  sum : start len a k + r = v
  rest : r < len k

/-- `v` is reached in segment `k`, its end included, `r` behind its start. -/
structure Reaches (len : ℕ → ℕ) (a v k r : ℕ) : Prop where
  le : a ≤ k
  sum : start len a k + r = v
  rest : r ≤ len k

/-- **Order.**  Of two numbers the smaller one is in an earlier segment, or earlier in the same. -/
theorem Reaches.order (h : Reaches len a v k r) (h' : Reaches len a w l s) (hlt : v < w) :
    k < l ∨ k = l ∧ r < s := by
  obtain ⟨hk, hv, hr⟩ := h
  obtain ⟨hl, hw, hs⟩ := h'
  rcases lt_trichotomy k l with hkl | rfl | hkl
  · exact .inl hkl
  · exact .inr ⟨rfl, by omega⟩
  · have := start_add_le len hl hkl
    omega

theorem Lies.unique (h : Lies len a v k r) (h' : Lies len a v l s) : k = l ∧ r = s := by
  obtain ⟨hk, hv, hr⟩ := h
  obtain ⟨hl, hw, hs⟩ := h'
  rcases lt_trichotomy k l with hkl | rfl | hkl
  · have := start_add_le len hk hkl
    omega
  · exact ⟨rfl, by omega⟩
  · have := start_add_le len hl hkl
    omega

end Esp8266Rest.Lib.Segments
