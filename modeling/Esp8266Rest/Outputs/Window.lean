import Esp8266Rest.Outputs.Ticks

/-!
# The windows of `IsTimeInside`

`IsTimeInside` takes two differences of times of day and corrects each for midnight.  What it decides
is a window on the circle of the 1440 minutes of a day, and what is true of windows on a circle is
true of it (`isTimeInside_window`).
-/

namespace Esp8266Rest.Outputs

open Esp8266Rest.Lib.Circle Esp8266Rest.Model

/-! ### Times of day from minutes -/

/-- The time of day at a minute of the day. -/
def ofMinutes (n : ℤ) : Time := ⟨Int32.ofInt (n / 60), Int32.ofInt (n % 60)⟩

/-- A time of day `k` minutes later, round the clock; earlier when `k` is negative. -/
def shift (k : ℤ) (t : Time) : Time := ofMinutes ((minutes t + k) % 1440)

section OfMinutes

variable {n : ℤ} (hn : 0 ≤ n ∧ n < 1440)
include hn

lemma toInt_ofMinutes : (ofMinutes n).hour.toInt = n / 60 ∧ (ofMinutes n).min.toInt = n % 60 := by
  unfold ofMinutes
  exact ⟨Int32.toInt_ofInt_of_le (by omega) (by omega), Int32.toInt_ofInt_of_le (by omega) (by omega)⟩

lemma isTime_ofMinutes : IsTime (ofMinutes n) := by
  obtain ⟨hh, hm⟩ := toInt_ofMinutes hn
  constructor <;> omega

theorem minutes_ofMinutes : minutes (ofMinutes n) = n := by
  obtain ⟨hh, hm⟩ := toInt_ofMinutes hn
  unfold minutes
  omega

end OfMinutes

lemma emod_day (n : ℤ) : 0 ≤ n % 1440 ∧ n % 1440 < 1440 :=
  ⟨Int.emod_nonneg n (by decide), Int.emod_lt_of_pos n (by decide)⟩

lemma isTime_shift (k : ℤ) (t : Time) : IsTime (shift k t) := isTime_ofMinutes (emod_day _)

lemma minutes_shift (k : ℤ) (t : Time) : minutes (shift k t) = (minutes t + k) % 1440 :=
  minutes_ofMinutes (emod_day _)

theorem minutes_sub_emod {s e : Time} (hs : IsTime s) (he : IsTime e) (hne : s ≠ e) :
    (minutes e - minutes s) % 1440 ≠ 0 := by
  intro h
  obtain ⟨⟨hsh, hsh'⟩, hsm, hsm'⟩ := hs
  obtain ⟨⟨heh, heh'⟩, hem, hem'⟩ := he
  unfold minutes at h
  apply hne
  cases s
  cases e
  congr
  · apply Int32.toInt_inj.1
    dsimp only at *
    omega
  · apply Int32.toInt_inj.1
    dsimp only at *
    omega

/-! ### The windows -/

section Window

variable {s e c : Time} (hs : IsTime s) (he : IsTime e) (hc : IsTime c)
include hs he hc

/-- **Round the clock**: nothing changes when all times are shifted alike. -/
theorem isTimeInside_shift (k : ℤ) :
    isTimeInside (shift k s) (shift k e) (shift k c) = isTimeInside s e c := by
  rw [Bool.eq_iff_iff, isTimeInside_iff hs he hc,
    isTimeInside_iff (isTime_shift k s) (isTime_shift k e) (isTime_shift k c), minutes_shift,
    minutes_shift, minutes_shift, within_emod, within_add]

/-- **The window and the one back** make up the day. -/
theorem isTimeInside_swap (hne : s ≠ e) : isTimeInside e s c = !isTimeInside s e c := by
  have hdist := minutes_sub_emod hs he hne
  rw [Bool.eq_iff_iff, Bool.not_eq_true', ← Bool.not_eq_true, isTimeInside_iff he hs hc,
    isTimeInside_iff hs he hc]
  exact within_swap (by decide) hdist

/-- **A window cut in two.** -/
theorem isTimeInside_split {p : Time} (hp : IsTime p) (hin : isTimeInside s e p = true) :
    isTimeInside s e c = (isTimeInside s p c || isTimeInside p e c) ∧
      (isTimeInside s p c && isTimeInside p e c) = false := by
  rw [isTimeInside_iff hs he hp] at hin
  obtain ⟨hor, hand⟩ := within_split (t := minutes c) (by decide) hin
  rw [Bool.eq_iff_iff, ← Bool.not_eq_true, Bool.or_eq_true, Bool.and_eq_true, isTimeInside_iff hs he hc,
    isTimeInside_iff hs hp hc, isTimeInside_iff hp he hc]
  exact ⟨hor, hand⟩

end Window

/-- `IsTimeInside` with these times is membership in a circular window, half-open, from `s` to `e`. -/
structure IsWindow (s e c : Time) : Prop where
  inside : isTimeInside s e c = true ↔ (minutes c - minutes s) % 1440 < (minutes e - minutes s) % 1440
  shifted : ∀ k, isTimeInside (shift k s) (shift k e) (shift k c) = isTimeInside s e c
  back : s ≠ e → isTimeInside e s c = !isTimeInside s e c
  cut : ∀ p, IsTime p → isTimeInside s e p = true →
    isTimeInside s e c = (isTimeInside s p c || isTimeInside p e c) ∧
      (isTimeInside s p c && isTimeInside p e c) = false

/-- **`IsTimeInside` is membership in a circular window**, for all times of day. -/
theorem isTimeInside_isWindow {s e c : Time} (hs : IsTime s) (he : IsTime e) (hc : IsTime c) :
    IsWindow s e c :=
  ⟨isTimeInside_iff hs he hc, isTimeInside_shift hs he hc, isTimeInside_swap hs he hc,
    fun _ hp hin => isTimeInside_split hs he hc hp hin⟩

/-- Over midnight. -/
theorem isTimeInside_isWindow_midnight : IsWindow ⟨23, 0⟩ ⟨1, 0⟩ ⟨0, 30⟩ :=
  isTimeInside_isWindow ⟨by decide, by decide⟩ ⟨by decide, by decide⟩ ⟨by decide, by decide⟩

end Esp8266Rest.Outputs
