import Mathlib.Tactic.IntervalCases
import Esp8266Rest.Clock.Decode

/-!
# `GetDateTime` and the calendar

The reference is the Gregorian calendar, in which a century is a leap year only if it is divisible by
`400`.  The tables of the source have a leap day in every fourth year, so they agree with it up to
28 February 2100 and are ahead by a day from then on.  Before that day `GetDateTime` is right but for the
first second of a month, which it takes for the day after the last one of the month before
(`getDateTime_utc_iff`).
-/

namespace Esp8266Rest.Clock

open Esp8266Rest.Lib.Segments Esp8266Rest.Lib.Dates Esp8266Rest.Model

/-! ### The two calendars -/

/-- A leap year of the Gregorian calendar. -/
def gregorianLeap (y : ℕ) : Bool := y % 4 = 0 ∧ (y % 100 ≠ 0 ∨ y % 400 = 0)

/-- The length of a month. -/
def gregorianDays (y : ℕ) : ℕ → ℕ
  | 2 => if gregorianLeap y then 29 else 28
  | 4 | 6 | 9 | 11 => 30
  | _ => 31

theorem gregorianDays_pos (y m : ℕ) : 0 < gregorianDays y m := by
  unfold gregorianDays
  split
  · split <;> decide
  all_goals decide

/-- The calendar of UTC, from 1970 on. -/
def gregorian : Calendar where
  first := 1970
  months := 12
  monthDays := gregorianDays
  months_pos := by decide
  days_pos y m _ _ := gregorianDays_pos y m

/-- A century without a leap day, which the tables of the source give one. -/
def Skipped (y : ℕ) : Prop := y % 100 = 0 ∧ y % 400 ≠ 0

theorem isLeap_iff (y : ℕ) : isLeap y = true ↔ gregorianLeap y = true ∨ Skipped y := by
  unfold isLeap gregorianLeap Skipped
  simp only [decide_eq_true_eq]
  omega

theorem not_gregorianLeap {y : ℕ} (h : Skipped y) : gregorianLeap y = false := by
  unfold Skipped at h
  unfold gregorianLeap
  simp only [decide_eq_false_iff_not]
  omega

/-- **The tables of the source** differ from the calendar in the February of a skipped century. -/
theorem monthDays_eq {m : ℕ} (h1 : 1 ≤ m) (h12 : m ≤ 12) (y : ℕ) : monthDays y m =
    gregorianDays y m + if m = 2 ∧ isLeap y = true ∧ gregorianLeap y = false then 1 else 0 := by
  unfold monthDays getCalendar
  cases hl : isLeap y with
  | false =>
    have hg : gregorianLeap y = false := by
      have := mt (isLeap_iff y).2
      simp_all
    interval_cases m <;> simp [gregorianDays, hg, calendar]
  | true =>
    cases hg : gregorianLeap y <;> interval_cases m <;> simp [gregorianDays, hg, calendarLeap]

lemma monthDays_pos (y m : ℕ) (h1 : 1 ≤ m) (h12 : m ≤ 12) : 0 < monthDays y m := by
  rw [monthDays_eq h1 h12]
  exact Nat.add_pos_left (gregorianDays_pos y m) _

/-- The calendar of the tables of the source. -/
def tables : Calendar where
  first := 1970
  months := 12
  monthDays := monthDays
  months_pos := by decide
  days_pos := monthDays_pos

theorem gregorianDays_le {m : ℕ} (h1 : 1 ≤ m) (h12 : m ≤ 12) (y : ℕ) :
    gregorianDays y m ≤ monthDays y m := by
  rw [monthDays_eq h1 h12]
  exact Nat.le_add_right _ _

theorem monthDays_of_not_skipped {y m : ℕ} (h1 : 1 ≤ m) (h12 : m ≤ 12)
    (h : ¬ (m = 2 ∧ Skipped y)) : monthDays y m = gregorianDays y m := by
  have hc : ¬ (m = 2 ∧ isLeap y = true ∧ gregorianLeap y = false) := by
    rintro ⟨hm, hl, hg⟩
    rcases (isLeap_iff y).1 hl with hg' | hs
    · rw [hg] at hg'
      cases hg'
    · exact h ⟨hm, hs⟩
  rw [monthDays_eq h1 h12, if_neg hc]
  rfl

lemma monthDays_of_skipped {y : ℕ} (h : Skipped y) : monthDays y 2 = gregorianDays y 2 + 1 := by
  have hl : isLeap y = true := (isLeap_iff y).2 (.inr h)
  rw [monthDays_eq (by omega) (by omega), if_pos ⟨rfl, hl, not_gregorianLeap h⟩]

/-- The first skipped century is 2100. -/
theorem not_skipped {y : ℕ} (h : 1970 ≤ y) (h' : y < 2100) : ¬ Skipped y := by
  unfold Skipped
  omega

lemma skipped_2100 : Skipped 2100 := by unfold Skipped; omega

/-! ### The two calendars on one date -/

/-- The date is before March 2100. -/
def BeforeMarch2100 (s : Stamp) : Prop := s.year < 2100 ∨ s.year = 2100 ∧ s.month ≤ 2

lemma yearDays_of_not_skipped {y : ℕ} (h : ¬ Skipped y) : tables.yearDays y = gregorian.yearDays y :=
  start_congr fun _ h1 h13 =>
    monthDays_of_not_skipped h1 (Nat.lt_succ_iff.1 h13) fun hs => h hs.2

lemma gregorianYearDays_le (y : ℕ) : gregorian.yearDays y ≤ tables.yearDays y :=
  start_le_start fun _ h1 h13 => gregorianDays_le h1 (Nat.lt_succ_iff.1 h13) y

theorem gregorianYearDays_lt {y : ℕ} (h : Skipped y) : gregorian.yearDays y < tables.yearDays y := by
  refine start_lt_start (fun _ h1 h13 => gregorianDays_le h1 (Nat.lt_succ_iff.1 h13) y)
    (j := 2) (by decide) (by decide) ?_
  change gregorianDays y 2 < monthDays y 2
  rw [monthDays_of_skipped h]
  exact Nat.lt_succ_self _

/-- Before March 2100 the two calendars count the same days. -/
theorem dayNumber_eq {s : Stamp} (hy : 1970 ≤ s.year) (hm : s.month ≤ 12)
    (h : BeforeMarch2100 s) : tables.dayNumber s = gregorian.dayNumber s := by
  have hyear : start tables.yearDays 1970 s.year = start gregorian.yearDays 1970 s.year := by
    refine start_congr fun y h1 h2 => yearDays_of_not_skipped (not_skipped h1 ?_)
    unfold BeforeMarch2100 at h
    omega
  have hmonth : start (monthDays s.year) 1 s.month = start (gregorianDays s.year) 1 s.month := by
    refine start_congr fun m h1 h2 => monthDays_of_not_skipped h1 (by omega) ?_
    rintro ⟨rfl, hs⟩
    rcases h with h | h
    · exact not_skipped hy h hs
    · omega
  unfold Calendar.dayNumber Calendar.dayOfYear
  change start tables.yearDays 1970 _ + (start (monthDays _) 1 _ + _) =
    start gregorian.yearDays 1970 _ + (start (gregorianDays _) 1 _ + _)
  rw [hyear, hmonth]

theorem dayNumber_lt {s : Stamp} (hm : s.month ≤ 12) (h : ¬ BeforeMarch2100 s) :
    gregorian.dayNumber s < tables.dayNumber s := by
  have hyear : start gregorian.yearDays 1970 s.year ≤ start tables.yearDays 1970 s.year :=
    start_le_start fun y _ _ => gregorianYearDays_le y
  have hmonth : start (gregorianDays s.year) 1 s.month ≤ start (monthDays s.year) 1 s.month :=
    start_le_start fun m h1 h2 => gregorianDays_le h1 (by omega) s.year
  have hlt : start gregorian.yearDays 1970 s.year < start tables.yearDays 1970 s.year ∨
      start (gregorianDays s.year) 1 s.month < start (monthDays s.year) 1 s.month := by
    unfold BeforeMarch2100 at h
    by_cases heq : s.year = 2100
    · right
      refine start_lt_start (fun m h1 h2 => gregorianDays_le h1 (by omega) s.year)
        (j := 2) (by decide) (by omega) ?_
      rw [heq, monthDays_of_skipped skipped_2100]
      exact Nat.lt_succ_self _
    · left
      exact start_lt_start (fun y _ _ => gregorianYearDays_le y) (j := 2100) (by decide) (by omega)
        (gregorianYearDays_lt skipped_2100)
  unfold Calendar.dayNumber Calendar.dayOfYear
  change start gregorian.yearDays 1970 _ + (start (gregorianDays _) 1 _ + _) <
    start tables.yearDays 1970 _ + (start (monthDays _) 1 _ + _)
  omega

/-! ### `GetDateTime` in the two calendars -/

theorem secInYear_tables (y : ℕ) : secInYear y = 86400 * tables.yearDays y := by
  have hsum : (getCalendar y).take 12 = getCalendar y :=
    List.take_of_length_le (getCalendar_length y).le
  have h := start_secInMonth y 12
  rw [hsum] at h
  rw [secInYear_eq, Nat.mul_comm, ← h]
  change start (fun m => monthDays y m * 86400) 1 13 = 86400 * start (monthDays y) 1 13
  rw [← start_mul]
  exact start_congr fun _ _ _ => Nat.mul_comm _ _

/-- The parts of `GetDateTime` add up in the calendar of the tables. -/
theorem seconds_parts (e : ℕ) : tables.seconds (parts e) = e := by
  have hy := (parts_year e).sum
  have hm := (parts_month e).sum
  have hyear : start secInYear 1970 (parts e).year = 86400 * start tables.yearDays 1970 (parts e).year := by
    rw [← start_mul]
    exact start_congr fun _ _ _ => secInYear_tables _
  have hmonth : start (secInMonth (parts e).year) 1 (parts e).month =
      86400 * start (monthDays (parts e).year) 1 (parts e).month := by
    rw [← start_mul]
    exact start_congr fun _ _ _ => Nat.mul_comm _ _
  rw [hyear] at hy
  rw [hmonth] at hm
  have hday : (parts e).day = 1 + dayRest e / 86400 := rfl
  have hhour : (parts e).hour = dayRest e % 86400 / 3600 := rfl
  have hmin : (parts e).min = dayRest e % 86400 % 3600 / 60 := rfl
  have hsec : (parts e).sec = dayRest e % 86400 % 3600 % 60 := rfl
  unfold Calendar.seconds Calendar.dayNumber Calendar.dayOfYear
  rw [hday, hhour, hmin, hsec]
  change 86400 * (start tables.yearDays 1970 _ + (start (monthDays _) 1 _ + _)) + _ + _ + _ = e
  omega

/-! ### When the date is right -/

/-- The first second of a month. -/
def monthStart (y m : ℕ) : Stamp := ⟨y, m, 1, 0, 0, 0⟩

def march2100 : Stamp := monthStart 2100 3

example : gregorian.seconds march2100 = 4107542400 := by decide +kernel

/-- `e` is a midnight at which a month begins. -/
def StartsMonth (e : ℕ) : Prop :=
  ∃ y m, 1970 ≤ y ∧ 1 ≤ m ∧ m ≤ 12 ∧ gregorian.seconds (monthStart y m) = e

lemma monthStart_isStamp {y m : ℕ} (hy : 1970 ≤ y) (h1 : 1 ≤ m) (h12 : m ≤ 12) :
    gregorian.IsStamp (monthStart y m) := by
  refine ⟨hy, ⟨h1, h12⟩, ⟨le_refl 1, gregorianDays_pos y m⟩, ?_, ?_, ?_⟩ <;> simp [monthStart]

lemma dayNumber_monthStart (y m : ℕ) : gregorian.dayNumber (monthStart y m) =
    start gregorian.yearDays 1970 y + start (gregorianDays y) 1 m := rfl

lemma seconds_monthStart (y m : ℕ) :
    gregorian.seconds (monthStart y m) = 86400 * gregorian.dayNumber (monthStart y m) := rfl

lemma dayNumber_split (s : Stamp) :
    gregorian.dayNumber s = gregorian.dayNumber (monthStart s.year s.month) + (s.day - 1) :=
  (Nat.add_assoc _ _ _).symm

lemma dayNumber_next_month {y m : ℕ} (h1 : 1 ≤ m) : gregorian.dayNumber (monthStart y (m + 1)) =
    gregorian.dayNumber (monthStart y m) + gregorianDays y m := by
  rw [dayNumber_monthStart, dayNumber_monthStart, start_succ h1, Nat.add_assoc]

theorem dayNumber_next_year {y : ℕ} (hy : 1970 ≤ y) : gregorian.dayNumber (monthStart (y + 1) 1) =
    gregorian.dayNumber (monthStart y 12) + gregorianDays y 12 := by
  have hyear : gregorian.yearDays y = start (gregorianDays y) 1 12 + gregorianDays y 12 :=
    start_succ (a := 1) (k := 12) (by decide)
  rw [dayNumber_monthStart, dayNumber_monthStart, start_succ hy, hyear, start_self]
  omega

/-- The first second of a month, but for the very first one, gets another date. -/
theorem not_isDateOf_of_startsMonth {e : ℕ} (he : 0 < e) (h : StartsMonth e) :
    ¬ gregorian.IsDateOf e (parts e) := by
  obtain ⟨y, m, hy, h1, h12, hs⟩ := h
  intro hd
  have heq := hd.unique ⟨monthStart_isStamp hy h1 h12, hs⟩
  have hday : 1 + dayRest e / 86400 = 1 := congrArg Stamp.day heq
  have hhour : dayRest e % 86400 / 3600 = 0 := congrArg Stamp.hour heq
  have hmin : dayRest e % 86400 % 3600 / 60 = 0 := congrArg Stamp.min heq
  have hsec : dayRest e % 86400 % 3600 % 60 = 0 := congrArg Stamp.sec heq
  have := dayRest_pos he
  omega

section Before

variable {e : ℕ} (he : e < gregorian.seconds march2100)
include he

theorem parts_before : BeforeMarch2100 (parts e) := by
  by_contra hb
  have hlt := dayNumber_lt (parts_month_le e) hb
  have hsec := seconds_parts e
  have hle : gregorian.dayNumber march2100 ≤ gregorian.dayNumber (parts e) := by
    unfold BeforeMarch2100 at hb
    by_cases heq : (parts e).year = 2100 ∧ (parts e).month = 3
    · rw [dayNumber_split (parts e), heq.1, heq.2]
      exact Nat.le_add_right _ _
    · have hs : gregorian.IsStamp march2100 := monthStart_isStamp (by decide) (by decide) (by decide)
      refine (hs.dayNumber_lt ?_).le
      change 2100 < _ ∨ 2100 = _ ∧ 3 < _
      omega
  unfold march2100 at he hle
  rw [seconds_monthStart] at he
  unfold Calendar.seconds at hsec
  omega

/-- The parts add up in the calendar: the date is the day it says, if there is such a day. -/
theorem seconds_parts_gregorian : gregorian.seconds (parts e) = e := by
  have hday := dayNumber_eq (parts_year e).le (parts_month_le e) (parts_before he)
  have hsec := seconds_parts e
  unfold Calendar.seconds at hsec ⊢
  rw [← hday]
  exact hsec

/-- The second lies `dayRest` behind the start of its month. -/
theorem dayRest_eq :
    86400 * gregorian.dayNumber (monthStart (parts e).year (parts e).month) + dayRest e = e := by
  have hsec := seconds_parts_gregorian he
  have hday : (parts e).day = 1 + dayRest e / 86400 := rfl
  have hhour : (parts e).hour = dayRest e % 86400 / 3600 := rfl
  have hmin : (parts e).min = dayRest e % 86400 % 3600 / 60 := rfl
  have hs : (parts e).sec = dayRest e % 86400 % 3600 % 60 := rfl
  unfold Calendar.seconds at hsec
  rw [dayNumber_split, hday, hhour, hmin, hs] at hsec
  omega

theorem dayRest_le_gregorian : dayRest e ≤ 86400 * gregorianDays (parts e).year (parts e).month := by
  have hrest : dayRest e ≤ monthDays (parts e).year (parts e).month * 86400 := (parts_month e).rest
  have h1 := (parts_month e).le
  have h12 := parts_month_le e
  by_cases hs : (parts e).month = 2 ∧ Skipped (parts e).year
  · -- February 2100: the day that only the tables have comes too late
    obtain ⟨hm, hs⟩ := hs
    have hy : (parts e).year = 2100 := by
      rcases parts_before he with hb | hb
      · exact absurd hs (not_skipped (parts_year e).le hb)
      · exact hb.1
    have heq := dayRest_eq he
    have hnext : gregorian.dayNumber (monthStart 2100 3) =
        gregorian.dayNumber (monthStart 2100 2) + gregorianDays 2100 2 :=
      dayNumber_next_month (by decide)
    unfold march2100 at he
    rw [seconds_monthStart] at he
    rw [hy, hm] at heq ⊢
    omega
  · rw [monthDays_of_not_skipped h1 h12 hs] at hrest
    omega

theorem startsMonth_of_dayRest
    (h : dayRest e = 86400 * gregorianDays (parts e).year (parts e).month) : StartsMonth e := by
  have heq := dayRest_eq he
  have hy := (parts_year e).le
  have h1 := (parts_month e).le
  have h12 := parts_month_le e
  by_cases hm : (parts e).month = 12
  · have hnext := dayNumber_next_year hy
    rw [hm] at heq h
    refine ⟨(parts e).year + 1, 1, by omega, le_refl 1, by decide, ?_⟩
    rw [seconds_monthStart]
    omega
  · have hnext := dayNumber_next_month (y := (parts e).year) h1
    refine ⟨(parts e).year, (parts e).month + 1, hy, by omega, by omega, ?_⟩
    rw [seconds_monthStart]
    omega

theorem isDateOf_of_dayRest
    (h : dayRest e < 86400 * gregorianDays (parts e).year (parts e).month) :
    gregorian.IsDateOf e (parts e) := by
  have hday : (parts e).day = 1 + dayRest e / 86400 := rfl
  refine ⟨⟨(parts_year e).le, ⟨(parts_month e).le, parts_month_le e⟩, ⟨by omega, ?_⟩, ?_, ?_, ?_⟩,
    seconds_parts_gregorian he⟩
  · change _ ≤ gregorianDays (parts e).year (parts e).month
    omega
  · change dayRest e % 86400 / 3600 < 24
    omega
  · change dayRest e % 86400 % 3600 / 60 < 60
    omega
  · change dayRest e % 86400 % 3600 % 60 < 60
    omega

end Before

theorem lt_march2100 {e : ℕ} (hd : gregorian.IsDateOf e (parts e)) :
    e < gregorian.seconds march2100 := by
  obtain ⟨hs, hsec⟩ := hd
  have htab := seconds_parts e
  have hb : BeforeMarch2100 (parts e) := by
    by_contra hb
    have := dayNumber_lt (parts_month_le e) hb
    unfold Calendar.seconds at hsec htab
    omega
  have hlt : gregorian.dayNumber (parts e) < gregorian.dayNumber march2100 := by
    refine hs.dayNumber_lt ?_
    unfold BeforeMarch2100 at hb
    change _ < 2100 ∨ _ = 2100 ∧ _ < 3
    omega
  have hhour := hs.hour
  have hmin := hs.min
  have hs' := hs.sec
  unfold march2100 at hlt ⊢
  rw [seconds_monthStart]
  unfold Calendar.seconds at hsec
  omega

/-- **`GetDateTime` is right** exactly before March 2100 and away from the midnights at which a month
begins; the very first of these it gets right. -/
theorem getDateTime_utc_iff (e : ℕ) : gregorian.IsDateOf e (stamp (getDateTime e)) ↔
    e < gregorian.seconds march2100 ∧ (e = 0 ∨ ¬ StartsMonth e) := by
  rw [stamp_getDateTime]
  constructor
  · intro hd
    refine ⟨lt_march2100 hd, ?_⟩
    rcases Nat.eq_zero_or_pos e with h0 | hpos
    · exact .inl h0
    · exact .inr fun hm => not_isDateOf_of_startsMonth hpos hm hd
  · rintro ⟨he, hmid⟩
    refine isDateOf_of_dayRest he ((dayRest_le_gregorian he).lt_of_ne fun heq => ?_)
    rcases hmid with rfl | hmid
    · have h0 := dayRest_eq he
      have := gregorianDays_pos (parts 0).year (parts 0).month
      omega
    · exact hmid (startsMonth_of_dayRest he heq)

/-- **The first second of February 1970** is decoded as 32 January. -/
theorem not_getDateTime_utc_february : ¬ gregorian.IsDateOf 2678400 (stamp (getDateTime 2678400)) := by
  have hstart : StartsMonth 2678400 := ⟨1970, 2, by decide, by decide, by decide, by decide⟩
  rw [stamp_getDateTime]
  exact not_isDateOf_of_startsMonth (by decide) hstart

end Esp8266Rest.Clock
