import Mathlib.Logic.Function.Iterate
import Mathlib.Tactic.Ring

/-!
# Doubling up to a limit

A delay is doubled as long as the result does not pass a limit (`grow`).  From `base` on, `k` steps lead to
`base * 2 ^ min k m`, where `base * 2 ^ m` is the last of these numbers within the limit
(`grow_iterate`).  A machine that doubles words needs a test for overflow beside that for the limit;
with it, it does the same (`growWord_toNat`).
-/

namespace Esp8266Rest.Lib.Backoff

def grow (limit d : ℕ) : ℕ := if 2 * d ≤ limit then 2 * d else d

theorem grow_iterate {limit base m : ℕ} (hm : base * 2 ^ m ≤ limit) (hm' : limit < base * 2 ^ (m + 1))
    (k : ℕ) : (grow limit)^[k] base = base * 2 ^ min k m := by
  induction k with
  | zero => simp
  | succ k ih =>
    rw [Function.iterate_succ_apply', ih]
    by_cases hk : k < m
    · have hle : base * 2 ^ (k + 1) ≤ base * 2 ^ m :=
        Nat.mul_le_mul_left base (Nat.pow_le_pow_right (by omega) hk)
      have hdouble : 2 * (base * 2 ^ k) = base * 2 ^ (k + 1) := by
        rw [pow_succ]
        ring
      rw [Nat.min_eq_left hk.le, Nat.min_eq_left hk, grow, hdouble, if_pos (hle.trans hm)]
    · have hmk : m ≤ k := Nat.le_of_not_lt hk
      have hdouble : 2 * (base * 2 ^ m) = base * 2 ^ (m + 1) := by
        rw [pow_succ]
        ring
      rw [Nat.min_eq_right hmk, Nat.min_eq_right (hmk.trans (Nat.le_succ k)), grow, hdouble,
        if_neg (Nat.not_le.2 hm')]

/-- Doubling on words: the new delay must be within the limit and above the old one. -/
def growWord (limit d : UInt32) : UInt32 := if d <<< 1 ≤ limit ∧ d <<< 1 > d then d <<< 1 else d

/-- **The test for overflow is enough.** -/
theorem growWord_toNat (limit d : UInt32) : (growWord limit d).toNat = grow limit.toNat d.toNat := by
  have hd : d.toNat < 2 ^ 32 := d.toNat_lt
  have hlimit : limit.toNat < 2 ^ 32 := limit.toNat_lt
  have hshift : (d <<< 1).toNat = 2 * d.toNat % 2 ^ 32 := by
    rw [UInt32.toNat_shiftLeft, Nat.shiftLeft_eq, Nat.mul_comm]
    rfl
  have hiff : d <<< 1 ≤ limit ∧ d <<< 1 > d ↔
      2 * d.toNat % 2 ^ 32 ≤ limit.toNat ∧ d.toNat < 2 * d.toNat % 2 ^ 32 := by
    rw [UInt32.le_iff_toNat_le, gt_iff_lt, UInt32.lt_iff_toNat_lt, hshift]
  by_cases h : d <<< 1 ≤ limit ∧ d <<< 1 > d
  · obtain ⟨hle, hlt⟩ := hiff.1 h
    rw [growWord, if_pos h, hshift, grow]
    split <;> omega
  · have hnot := mt hiff.2 h
    rw [growWord, if_neg h, grow]
    split <;> omega

end Esp8266Rest.Lib.Backoff
