import Mathlib.Algebra.Order.Group.Int
import Mathlib.Algebra.Order.Group.Unbundled.Basic

/-!
# Windows on a circle

On a circle of length `m`, such as the minutes of a day, the half-open window from `s` to `e` is what
one passes going up from `s` before `e` is reached.  It may lie across the origin, and it is empty
when `s` and `e` are the same point.

A window does not depend on where the origin is (`within_add`).  With the one back from `e` to `s` it makes
up the circle (`within_swap`), and a point inside cuts it in two (`within_split`).
-/

namespace Esp8266Rest.Lib.Circle

/-- `t` lies in the window from `s` to `e`: it is reached from `s` before `e` is. -/
def Within (m s e t : ℤ) : Prop := (t - s) % m < (e - s) % m

instance (m s e t : ℤ) : Decidable (Within m s e t) := by unfold Within; infer_instance

/-- The distance from `a` up to `b`, as a program computes it: a negative one is corrected once. -/
theorem sub_emod_eq {m a b : ℤ} (ha : 0 ≤ a ∧ a < m) (hb : 0 ≤ b ∧ b < m) :
    (b - a) % m = if b - a < 0 then b - a + m else b - a := by
  split
  · rw [← Int.add_emod_right, Int.emod_eq_of_lt (by omega) (by omega)]
  · exact Int.emod_eq_of_lt (by omega) (by omega)

/-! ### Turning the circle -/

lemma within_add (m s e t k : ℤ) : Within m (s + k) (e + k) (t + k) ↔ Within m s e t := by
  unfold Within
  rw [add_sub_add_right_eq_sub, add_sub_add_right_eq_sub]

lemma within_emod (m s e t : ℤ) : Within m (s % m) (e % m) (t % m) ↔ Within m s e t := by
  unfold Within
  rw [← Int.sub_emod, ← Int.sub_emod]

/-! ### Windows that make up others -/

section Cut

variable {m s e t : ℤ} (hm : 0 < m)
include hm

theorem emod_from (s a b : ℤ) : (b - a) % m =
    if (b - s) % m < (a - s) % m then (b - s) % m - (a - s) % m + m else (b - s) % m - (a - s) % m := by
  have hrange : ∀ x, 0 ≤ x % m ∧ x % m < m := by
    intro x
    exact ⟨Int.emod_nonneg x hm.ne', Int.emod_lt_of_pos x hm⟩
  have hdiff : b - a = (b - s) - (a - s) := by omega
  rw [hdiff, Int.sub_emod, sub_emod_eq (hrange (a - s)) (hrange (b - s))]
  simp only [sub_neg]

/-- **The rest of the circle.** -/
theorem within_swap (hne : (e - s) % m ≠ 0) : Within m e s t ↔ ¬ Within m s e t := by
  have hpos := Int.emod_nonneg (e - s) hm.ne'
  have hend := Int.emod_lt_of_pos (e - s) hm
  have hcur := Int.emod_nonneg (t - s) hm.ne'
  have hlt := Int.emod_lt_of_pos (t - s) hm
  have hback : (s - e) % m = m - (e - s) % m := by
    rw [emod_from hm s e s, sub_self, Int.zero_emod, if_pos (by omega)]
    omega
  unfold Within
  rw [hback, emod_from hm s e t]
  split <;> omega

/-- **A window cut in two**: the parts make up the whole, and no point is in both. -/
theorem within_split {p : ℤ} (hp : Within m s e p) :
    (Within m s e t ↔ Within m s p t ∨ Within m p e t) ∧ ¬ (Within m s p t ∧ Within m p e t) := by
  have hcur := Int.emod_nonneg (t - s) hm.ne'
  have hend := Int.emod_lt_of_pos (e - s) hm
  unfold Within at hp ⊢
  have hpe : (e - p) % m = (e - s) % m - (p - s) % m := by
    rw [emod_from hm s p e, if_neg (by omega)]
  rw [hpe, emod_from hm s p t]
  constructor <;> split <;> omega

end Cut

end Esp8266Rest.Lib.Circle
