import Esp8266Rest.Lib.Dates
import Esp8266Rest.Model.TimeUtils

/-!
# What `GetDateTime` computes

The loops of `get_year` and `get_month` take off a year, or a month, only while more than it is left.
So they stop at the end of a segment where a calendar is already in the next one (`getYear_reaches`,
`getMonth_reaches`): the first second of a month is decoded as the day after the last of the month before.
The parts still add up to the seconds they came from (`dateTime_seconds`), and are in their order
(`dateTime_lt`).
-/

namespace Esp8266Rest.Clock

open Esp8266Rest.Lib.Segments Esp8266Rest.Lib.Dates Esp8266Rest.Model

/-! ### The two loops -/

theorem getYearFrom_reaches {a : ℕ} (t y : ℕ) (hy : a ≤ y) :
    Reaches secInYear a (start secInYear a y + t) (getYearFrom t y).2 (getYearFrom t y).1 := by
  induction t, y using getYearFrom.induct with
  | case1 t y h ih =>
    have key := ih (by omega)
    rw [start_succ hy] at key
    have hsum : start secInYear a y + secInYear y + (t - secInYear y) = start secInYear a y + t := by
      omega
    rw [getYearFrom, if_pos h]
    rwa [hsum] at key
  | case2 t y h =>
    rw [getYearFrom, if_neg h]
    exact ⟨hy, rfl, Nat.le_of_not_lt h⟩

theorem getYearFrom_pos {t y : ℕ} (ht : 0 < t) : 0 < (getYearFrom t y).1 := by
  induction t, y using getYearFrom.induct with
  | case1 t y h ih => rw [getYearFrom, if_pos h]; exact ih (by omega)
  | case2 t y h => rwa [getYearFrom, if_neg h]

/-- **`get_year`** ends in the year of the second `e`, its end included. -/
theorem getYear_reaches (e : ℕ) : Reaches secInYear 1970 e (getYear e).2 (getYear e).1 := by
  have key := getYearFrom_reaches e 1970 (le_refl 1970)
  rwa [start_self, Nat.zero_add] at key

/-- The days of a month in the tables of the source; months are numbered from `1`. -/
def monthDays (year month : ℕ) : ℕ := (getCalendar year).getD (month - 1) 0

/-- The seconds of a month, as the loop of `get_month` takes them off. -/
def secInMonth (year month : ℕ) : ℕ := monthDays year month * 86400

/-- The loop of `get_month`, begun in month `i + 1` with `t` seconds left.  The table does not end
before they are used up. -/
theorem getMonthFrom_reaches {len : ℕ → ℕ} {a : ℕ} {cal : List ℕ} (hne : cal ≠ []) (t i : ℕ)
    (ha : a ≤ i + 1) (hlen : ∀ j < cal.length, len (i + 1 + j) = cal.getD j 0 * 86400)
    (ht : t ≤ cal.sum * 86400) :
    Reaches len a (start len a (i + 1) + t) (getMonthFrom cal t i).2 (getMonthFrom cal t i).1 ∧
      (getMonthFrom cal t i).2 ≤ i + cal.length := by
  induction cal generalizing t i with
  | nil => exact absurd rfl hne
  | cons days cal ih =>
    have hday : len (i + 1) = days * 86400 := hlen 0 (by simp)
    rw [getMonthFrom]
    by_cases h : days * 86400 < t
    · rw [if_pos h]
      have hsum : (days :: cal).sum = days + cal.sum := List.sum_cons
      have hne' : cal ≠ [] := by
        rintro rfl
        simp only [List.sum_nil] at hsum
        omega
      have hlen' : ∀ j < cal.length, len (i + 1 + 1 + j) = cal.getD j 0 * 86400 := by
        intro j hj
        have := hlen (j + 1) (by simpa using hj)
        rw [List.getD_cons_succ] at this
        rw [← this]
        congr 1
        omega
      obtain ⟨hr, hle⟩ := ih hne' (t - days * 86400) (i + 1) (by omega) hlen' (by omega)
      have hstart : start len a (i + 1 + 1) + (t - days * 86400) = start len a (i + 1) + t := by
        rw [start_succ ha]
        omega
      rw [hstart] at hr
      exact ⟨hr, by rw [List.length_cons]; omega⟩
    · rw [if_neg h]
      exact ⟨⟨ha, rfl, by dsimp only; omega⟩, by rw [List.length_cons]; dsimp only; omega⟩

theorem getMonthFrom_pos {cal : List ℕ} {t i : ℕ} (ht : 0 < t) : 0 < (getMonthFrom cal t i).1 := by
  induction cal generalizing t i with
  | nil => exact ht
  | cons days cal ih =>
    rw [getMonthFrom]
    split
    · exact ih (by omega)
    · exact ht

lemma getCalendar_length (year : ℕ) : (getCalendar year).length = 12 := by
  unfold getCalendar
  split <;> rfl

/-- The months of the tables make up the years of `SEC_IN_YEAR`. -/
theorem secInYear_eq (year : ℕ) : secInYear year = (getCalendar year).sum * 86400 := by
  unfold secInYear getCalendar
  split <;> decide

/-- **`get_month`** ends in the month of what `get_year` left, its end included. -/
theorem getMonth_reaches {t year : ℕ} (ht : t ≤ secInYear year) :
    Reaches (secInMonth year) 1 t (getMonth t year).2 (getMonth t year).1 ∧
      (getMonth t year).2 ≤ 12 := by
  have hne : getCalendar year ≠ [] := by
    rw [← List.length_pos_iff, getCalendar_length]
    omega
  rw [secInYear_eq] at ht
  have hlen : ∀ j < (getCalendar year).length,
      secInMonth year (0 + 1 + j) = (getCalendar year).getD j 0 * 86400 := by
    intro j _
    unfold secInMonth monthDays
    congr 2
    omega
  obtain ⟨hr, hle⟩ := getMonthFrom_reaches hne t 0 (le_refl 1) hlen ht
  rw [start_self, Nat.zero_add] at hr
  rw [getCalendar_length] at hle
  exact ⟨hr, by unfold getMonth; omega⟩

/-! ### The parts of the date -/

/-- The date with its parts as numbers. -/
def stamp (d : DateTime) : Stamp :=
  ⟨d.year, d.month.toNat, d.day.toNat, d.hour.toNat, d.min.toNat, d.sec.toNat⟩

/-- What `GetDateTime` assigns, before it is stored in an `unsigned char`. -/
def parts (e : ℕ) : Stamp :=
  { year := (getYear e).2
    month := (getMonth (getYear e).1 (getYear e).2).2
    day := 1 + dayRest e / 86400
    hour := dayRest e % 86400 / 3600
    min := dayRest e % 86400 % 3600 / 60
    sec := dayRest e % 86400 % 3600 % 60 }

theorem monthDays_le (year month : ℕ) : monthDays year month ≤ 31 := by
  have h : ∀ n ∈ getCalendar year, n ≤ 31 := by
    unfold getCalendar
    split <;> decide
  unfold monthDays
  rw [List.getD_eq_getElem?_getD]
  cases hn : (getCalendar year)[month - 1]? with
  | none => simp
  | some n => exact h n (List.mem_of_getElem? hn)

lemma parts_year (e : ℕ) : Reaches secInYear 1970 e (parts e).year (getYear e).1 :=
  getYear_reaches e

lemma parts_month (e : ℕ) :
    Reaches (secInMonth (parts e).year) 1 (getYear e).1 (parts e).month (dayRest e) :=
  (getMonth_reaches (getYear_reaches e).rest).1

lemma parts_month_le (e : ℕ) : (parts e).month ≤ 12 :=
  (getMonth_reaches (getYear_reaches e).rest).2

lemma dayRest_le (e : ℕ) : dayRest e ≤ 31 * 86400 :=
  (parts_month e).rest.trans (Nat.mul_le_mul_right _ (monthDays_le _ _))

/-- Nothing but the very first second leaves no rest. -/
theorem dayRest_pos {e : ℕ} (he : 0 < e) : 0 < dayRest e := getMonthFrom_pos (getYearFrom_pos he)

lemma toUInt8_toNat {n : ℕ} (h : n < 256) : n.toUInt8.toNat = n := by
  rw [Nat.toUInt8, UInt8.toNat_ofNat']
  omega

/-- **No part is truncated.** -/
theorem stamp_getDateTime (e : ℕ) : stamp (getDateTime e) = parts e := by
  have hm := parts_month_le e
  have hu := dayRest_le e
  rw [← Stamp.fields_inj]
  simp only [Stamp.fields, List.cons.injEq, and_true]
  refine ⟨rfl, toUInt8_toNat ?_, toUInt8_toNat ?_, toUInt8_toNat ?_, toUInt8_toNat ?_,
    toUInt8_toNat ?_⟩
  · exact hm.trans_lt (by omega)
  · change 1 + dayRest e / 86400 < 256
    omega
  · change dayRest e % 86400 / 3600 < 256
    omega
  · change dayRest e % 86400 % 3600 / 60 < 256
    omega
  · change dayRest e % 86400 % 3600 % 60 < 256
    omega

/-! ### Nothing is lost -/

theorem start_secInMonth (year m : ℕ) :
    start (secInMonth year) 1 (m + 1) = 86400 * ((getCalendar year).take m).sum := by
  induction m with
  | zero => simp
  | succ m ih =>
    have htake : ((getCalendar year).take (m + 1)).sum =
        ((getCalendar year).take m).sum + (getCalendar year).getD m 0 := by
      rw [List.take_add_one, List.sum_append, List.getD_eq_getElem?_getD]
      cases (getCalendar year)[m]? <;> simp
    rw [start_succ (by omega), ih, htake, secInMonth, monthDays]
    simp only [Nat.add_sub_cancel]
    omega

/-- The seconds that a date stands for, counted with the tables of the source. -/
def secondsOf (d : DateTime) : ℕ :=
  ∑ y ∈ Finset.Ico 1970 d.year, secInYear y +
    86400 * ((getCalendar d.year).take (d.month.toNat - 1)).sum + 86400 * (d.day.toNat - 1) +
    3600 * d.hour.toNat + 60 * d.min.toNat + d.sec.toNat

theorem secondsOf_getDateTime (e : ℕ) : secondsOf (getDateTime e) = e := by
  have hs := stamp_getDateTime e
  have hy := (parts_year e).sum
  have hm := (parts_month e).sum
  obtain ⟨m, hm1⟩ : ∃ m, (parts e).month = m + 1 :=
    ⟨(parts e).month - 1, by have := (parts_month e).le; omega⟩
  rw [hm1, start_secInMonth] at hm
  have hmonth : (getDateTime e).month.toNat = m + 1 := (congrArg Stamp.month hs).trans hm1
  have hday : (getDateTime e).day.toNat = 1 + dayRest e / 86400 := congrArg Stamp.day hs
  have hhour : (getDateTime e).hour.toNat = dayRest e % 86400 / 3600 := congrArg Stamp.hour hs
  have hmin : (getDateTime e).min.toNat = dayRest e % 86400 % 3600 / 60 := congrArg Stamp.min hs
  have hsec : (getDateTime e).sec.toNat = dayRest e % 86400 % 3600 % 60 := congrArg Stamp.sec hs
  unfold secondsOf
  rw [hmonth, hday, hhour, hmin, hsec]
  change start secInYear 1970 (parts e).year + 86400 * ((getCalendar (parts e).year).take m).sum +
    _ + _ + _ + _ = e
  omega

/-- **`GetDateTime` loses nothing**: its parts are stored as they were computed and add up to the
seconds they came from, so two times never get the same date. -/
theorem getDateTime_lossless (e : ℕ) : secondsOf (getDateTime e) = e ∧
    (getDateTime e).hour < 24 ∧ (getDateTime e).min < 60 ∧ (getDateTime e).sec < 60 ∧
    stamp (getDateTime e) = parts e ∧ ∀ e', getDateTime e' = getDateTime e → e' = e := by
  refine ⟨secondsOf_getDateTime e, ?_, ?_, ?_, stamp_getDateTime e, fun e' h => ?_⟩
  · rw [UInt8.lt_iff_toNat_lt, getDateTime_hour]
    change _ < 24
    omega
  · rw [UInt8.lt_iff_toNat_lt, getDateTime_min]
    change _ < 60
    omega
  · rw [UInt8.lt_iff_toNat_lt, getDateTime_sec]
    change _ < 60
    omega
  · rw [← secondsOf_getDateTime e', h, secondsOf_getDateTime]

/-! ### The order of time -/

theorem rest_lt {u v : ℕ} (h : u < v) :
    [1 + u / 86400, u % 86400 / 3600, u % 86400 % 3600 / 60, u % 86400 % 3600 % 60] <
      [1 + v / 86400, v % 86400 / 3600, v % 86400 % 3600 / 60, v % 86400 % 3600 % 60] := by
  simp only [List.cons_lt_cons_iff, List.not_lt_nil, and_false, or_false]
  omega

/-- **Time does not run backwards**: a later second has a later date. -/
theorem getDateTime_lt {e₁ e₂ : ℕ} (h : e₁ < e₂) :
    (stamp (getDateTime e₁)).fields < (stamp (getDateTime e₂)).fields := by
  rw [stamp_getDateTime, stamp_getDateTime]
  unfold Stamp.fields
  rw [List.cons_lt_cons_iff]
  rcases (parts_year e₁).order (parts_year e₂) h with hy | ⟨hy, ht⟩
  · exact .inl hy
  refine .inr ⟨hy, ?_⟩
  rw [List.cons_lt_cons_iff]
  have hm₂ := parts_month e₂
  rw [← hy] at hm₂
  rcases (parts_month e₁).order hm₂ ht with hm | ⟨hm, hu⟩
  · exact .inl hm
  · exact .inr ⟨hm, rest_lt hu⟩

/-- At a new year: the last second of 1970 and the first one of 1971. -/
theorem getDateTime_lt_new_year : (stamp (getDateTime 31535999)).fields <
    (stamp (getDateTime 31536000)).fields :=
  getDateTime_lt (by decide)

end Esp8266Rest.Clock
