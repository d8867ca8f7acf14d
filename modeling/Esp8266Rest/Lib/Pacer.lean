import Mathlib.Data.Nat.Notation

/-!
# A pacer on a clock that wraps

A pacer looks at a clock from time to time and acts when more than a period has passed since it acted
last.  The clock shows the time modulo `m`, so what the pacer computes is a distance on a circle
(`elapsed`).  It is the true distance as long as no two looks are more than `m` less the period apart:
a pacer that did not act has seen at most a period pass (`OnPace`).
-/

namespace Esp8266Rest.Lib.Pacer

variable {m period last now t : ℕ}

/-- What has passed between two readings of a clock that wraps at `m`. -/
def elapsed (m before after : ℕ) : ℕ := (m - before + after) % m

/-- Readings less than a round apart measure the time between them. -/
theorem elapsed_mod (h : last ≤ t) (h' : t < last + m) : elapsed m (last % m) (t % m) = t - last := by
  have hm : 0 < m := by omega
  have hlast : m * (last / m) + last % m = last := Nat.div_add_mod last m
  have hmod : last % m < m := Nat.mod_lt last hm
  have hround : m - last % m + t % m + m * (t / m) = m + (t - last) + m * (last / m) := by
    have := Nat.div_add_mod t m
    omega
  have key : (m - last % m + t % m + m * (t / m)) % m = (m + (t - last) + m * (last / m)) % m := by
    rw [hround]
  have hlt : t - last < m := by omega
  rwa [Nat.add_mul_mod_self_left, Nat.add_mul_mod_self_left, Nat.add_mod_left,
    Nat.mod_eq_of_lt hlt] at key

/-- The pacer acted last at `last`, has looked at `now`, and is not behind. -/
structure OnPace (period last now : ℕ) : Prop where
  le : last ≤ now
  near : now ≤ last + period

lemma OnPace.self (period t : ℕ) : OnPace period t t := ⟨Nat.le_refl t, Nat.le_add_right t period⟩

section Look

variable (h : OnPace period last now) (ht : now ≤ t) (hgap : t < now + (m - period))
include h ht hgap

/-- **The next look is true.** -/
theorem OnPace.elapsed_eq : elapsed m (last % m) (t % m) = t - last := by
  obtain ⟨hle, hnear⟩ := h
  exact elapsed_mod (by omega) (by omega)

lemma OnPace.wait (hwait : ¬ period < elapsed m (last % m) (t % m)) : OnPace period last t := by
  rw [h.elapsed_eq ht hgap] at hwait
  exact ⟨Nat.le_trans h.le ht, by omega⟩

end Look

end Esp8266Rest.Lib.Pacer
