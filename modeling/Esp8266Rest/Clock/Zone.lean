import Esp8266Rest.Clock.Decode

/-!
# The local time

`Now` adds the zone to the seconds of the clock and takes the sum for an `unsigned long`.  A sum below
zero is then ahead by `2 ^ 32` seconds, which is no whole number of days, so a zone west of Greenwich has
the wrong time of day until the clock has passed its offset (`now_showsTime_iff`).
-/

namespace Esp8266Rest.Clock

open Esp8266Rest.Lib.Dates Esp8266Rest.Model

/-- The local second. -/
def localSecond (sntpTime sntpTz : Int32) : ℤ := sntpTime.toInt + 3600 * sntpTz.toInt

/-- The time of day of a date is that of second `s`. -/
def ShowsTime (d : DateTime) (s : ℤ) : Prop :=
  (d.hour.toNat : ℤ) = s % 86400 / 3600 ∧ (d.min.toNat : ℤ) = s % 86400 % 3600 / 60 ∧
    (d.sec.toNat : ℤ) = s % 86400 % 3600 % 60

instance (d : DateTime) (s : ℤ) : Decidable (ShowsTime d s) := by unfold ShowsTime; infer_instance

theorem toNat_toUInt32 (x : Int32) : (x.toUInt32.toNat : ℤ) = x.toInt % 4294967296 := by
  have h : x.toInt = Int.bmod x.toUInt32.toNat (2 ^ 32) := BitVec.toInt_eq_toNat_bmod _
  have := x.toUInt32.toNat_lt
  rw [h, Int.bmod_def]
  split <;> omega

/-- What `Now` hands to `GetDateTime`: nothing is lost but multiples of `2 ^ 32`. -/
theorem localEpoch_eq (sntpTime sntpTz : Int32) :
    (localEpoch sntpTime sntpTz : ℤ) = localSecond sntpTime sntpTz % 4294967296 := by
  have h3600 : (3600 : Int32).toInt = 3600 := by decide
  unfold localEpoch localSecond
  rw [toNat_toUInt32, Int32.toInt_add, Int32.toInt_mul, h3600, Int.add_bmod_bmod, Int.bmod_def]
  split <;> omega

theorem getDateTime_showsTime (e : ℕ) : ShowsTime (getDateTime e) e := by
  unfold ShowsTime
  rw [getDateTime_hour, getDateTime_min, getDateTime_sec]
  refine ⟨?_, ?_, ?_⟩ <;> omega

theorem showsTime_iff {d : DateTime} {s t : ℤ} (h : ShowsTime d s) :
    ShowsTime d t ↔ s % 86400 = t % 86400 := by
  obtain ⟨hh, hm, hs⟩ := h
  unfold ShowsTime
  rw [hh, hm, hs]
  omega

/-- **The local time is right** exactly when the local second is not negative. -/
theorem now_showsTime_iff {sntpTime sntpTz : Int32} (ht : 0 ≤ sntpTime.toInt)
    (hz : -12 ≤ sntpTz.toInt ∧ sntpTz.toInt ≤ 14) :
    ShowsTime (now sntpTime sntpTz) (localSecond sntpTime sntpTz) ↔
      0 ≤ localSecond sntpTime sntpTz := by
  have hlt : sntpTime.toInt < 2 ^ 31 := Int32.toInt_lt sntpTime
  have hepoch := localEpoch_eq sntpTime sntpTz
  unfold now
  rw [showsTime_iff (getDateTime_showsTime _), hepoch]
  have hrange : -43200 ≤ localSecond sntpTime sntpTz ∧ localSecond sntpTime sntpTz < 4294967296 := by
    unfold localSecond
    omega
  by_cases hs : 0 ≤ localSecond sntpTime sntpTz
  · rw [Int.emod_eq_of_lt hs hrange.2]
    exact iff_of_true rfl hs
  · -- `2 ^ 32` is no multiple of `86400`
    have hwrap : localSecond sntpTime sntpTz % 4294967296 =
        localSecond sntpTime sntpTz + 4294967296 := by
      omega
    rw [hwrap]
    refine iff_of_false ?_ hs
    omega

/-- Two hours east of Greenwich. -/
theorem now_showsTime_east : ShowsTime (now 0 2) (localSecond 0 2) :=
  (now_showsTime_iff (by decide) (by decide)).2 (by decide)

/-- **Five hours west of Greenwich** the clock that just started shows a wrong time. -/
theorem not_now_showsTime_west : ¬ ShowsTime (now 0 (-5)) (localSecond 0 (-5)) := by
  have hepoch := localEpoch_eq 0 (-5)
  have hlocal : localSecond 0 (-5) = -18000 := by decide
  rw [hlocal] at hepoch ⊢
  unfold now
  rw [showsTime_iff (getDateTime_showsTime _), hepoch]
  decide

end Esp8266Rest.Clock
