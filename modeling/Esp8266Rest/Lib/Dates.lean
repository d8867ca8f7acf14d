import Esp8266Rest.Lib.Segments

/-!
# Dates of a calendar

A calendar says how many days the months of each year have.  With it a date and time of day stands for
a number of seconds since the first year began, and a number of seconds has one date
(`IsDateOf.unique`).
-/

namespace Esp8266Rest.Lib.Dates

open Esp8266Rest.Lib.Segments

/-- The years from `first` on have `months` months, numbered from `1`, of at least one day each. -/
structure Calendar where
  first : ℕ
  months : ℕ
  monthDays : ℕ → ℕ → ℕ
  months_pos : 0 < months
  days_pos : ∀ y m, 1 ≤ m → m ≤ months → 0 < monthDays y m

/-- A date with a time of day. -/
structure Stamp where
  year : ℕ
  month : ℕ
  day : ℕ
  hour : ℕ
  min : ℕ
  sec : ℕ
  deriving DecidableEq, Repr

/-- The parts of a date, the most significant one first. -/
def Stamp.fields (s : Stamp) : List ℕ := [s.year, s.month, s.day, s.hour, s.min, s.sec]

theorem Stamp.fields_inj {s t : Stamp} : s.fields = t.fields ↔ s = t := by
  cases s
  cases t
  simp [Stamp.fields]

namespace Calendar

variable (c : Calendar)

def yearDays (y : ℕ) : ℕ := start (c.monthDays y) 1 (c.months + 1)

/-- The days of the year before the day of `s`. -/
def dayOfYear (s : Stamp) : ℕ := start (c.monthDays s.year) 1 s.month + (s.day - 1)

/-- The days since the first year began. -/
def dayNumber (s : Stamp) : ℕ := start c.yearDays c.first s.year + c.dayOfYear s

def seconds (s : Stamp) : ℕ := 86400 * c.dayNumber s + 3600 * s.hour + 60 * s.min + s.sec

/-- The date exists in the calendar. -/
structure IsStamp (s : Stamp) : Prop where
  year : c.first ≤ s.year
  month : 1 ≤ s.month ∧ s.month ≤ c.months
  day : 1 ≤ s.day ∧ s.day ≤ c.monthDays s.year s.month
  hour : s.hour < 24
  min : s.min < 60
  sec : s.sec < 60

/-- `s` is the date of second `e`. -/
def IsDateOf (e : ℕ) (s : Stamp) : Prop := c.IsStamp s ∧ c.seconds s = e

variable {c}

theorem IsStamp.lies_month {s : Stamp} (h : c.IsStamp s) :
    Lies (c.monthDays s.year) 1 (c.dayOfYear s) s.month (s.day - 1) := by
  obtain ⟨hd, hd'⟩ := h.day
  exact ⟨h.month.1, rfl, by omega⟩

theorem IsStamp.lies_year {s : Stamp} (h : c.IsStamp s) :
    Lies c.yearDays c.first (c.dayNumber s) s.year (c.dayOfYear s) := by
  have hm := h.lies_month
  have hle := start_add_le (c.monthDays s.year) hm.le (Nat.lt_succ_of_le h.month.2)
  refine ⟨h.year, rfl, ?_⟩
  calc c.dayOfYear s < start (c.monthDays s.year) 1 s.month + c.monthDays s.year s.month := by
        rw [← hm.sum]; exact Nat.add_lt_add_left hm.rest _
    _ ≤ c.yearDays s.year := hle

theorem IsStamp.dayNumber_lt {s t : Stamp} (h : c.IsStamp s)
    (hlt : s.year < t.year ∨ s.year = t.year ∧ s.month < t.month) : c.dayNumber s < c.dayNumber t := by
  have hy := h.lies_year
  have hm := h.lies_month
  unfold dayNumber at hy ⊢
  rcases hlt with hlt | ⟨heq, hlt⟩
  · have := start_add_le c.yearDays hy.le hlt
    have := hy.rest
    omega
  · have := start_add_le (c.monthDays s.year) hm.le hlt
    have hrest := hm.rest
    unfold dayOfYear
    rw [← heq]
    omega

theorem IsDateOf.unique {e : ℕ} {s t : Stamp} (hs : c.IsDateOf e s) (ht : c.IsDateOf e t) : s = t := by
  obtain ⟨hs, hse⟩ := hs
  obtain ⟨ht, hte⟩ := ht
  have := hs.hour
  have := hs.min
  have := hs.sec
  have := ht.hour
  have := ht.min
  have := ht.sec
  unfold seconds at hse hte
  have hday : c.dayNumber s = c.dayNumber t := by omega
  have hys := hs.lies_year
  rw [hday] at hys
  obtain ⟨hy, hr⟩ := hys.unique ht.lies_year
  have hms := hs.lies_month
  rw [hy, hr] at hms
  obtain ⟨hm, hd⟩ := hms.unique ht.lies_month
  have := hs.day.1
  have := ht.day.1
  rw [← Stamp.fields_inj]
  simp only [Stamp.fields, hy, hm, List.cons.injEq, true_and, and_true]
  omega

end Calendar

end Esp8266Rest.Lib.Dates
