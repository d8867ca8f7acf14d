import Esp8266Rest.Clock.Decode

/-!
# The loops of the calendar stay in their tables

`get_year` and `get_month` count and subtract on 32 bits, and nothing in `get_month` bounds its index.
What bounds it is that `get_year` leaves at most a year and that the months of the table make up the year.
So neither loop wraps or reads behind a table (`calendar_loops`), and the decoder on numbers is the one on words.
-/

namespace Esp8266Rest.Clock

open Esp8266Rest.Lib.Segments Esp8266Rest.Model

/-! ### How much the tables hold -/

/-- 137 years are longer than 32 bits of seconds. -/
theorem le_start_years {t : ℕ} (ht : t < 2 ^ 32) : t ≤ start secInYear 1970 (1970 + 137) := by
  have hyear : start (fun _ => 31536000) 1970 (1970 + 137) ≤ start secInYear 1970 (1970 + 137) := by
    refine start_le_start fun y _ _ => ?_
    unfold secInYear
    split <;> decide
  have hsum : start (fun _ => 31536000) 1970 (1970 + 137) = 137 * 31536000 := by simp [start]
  omega

theorem calendarAt_lt (behind : ℕ → UInt8) (year : ℕ) {i : ℕ} (hi : i < 12) :
    calendarAt behind year i = monthDays year (i + 1) := by
  rw [← getCalendar_length year] at hi
  unfold calendarAt monthDays
  rw [Nat.add_sub_cancel, List.getD_eq_getElem?_getD, List.getD_eq_getElem?_getD,
    List.getElem?_eq_getElem hi]
  rfl

/-- The twelve months of the table make up the year, whatever lies behind it. -/
theorem start_calendarAt (behind : ℕ → UInt8) (year : ℕ) :
    start (fun i => calendarAt behind year i * 86400) 0 12 = secInYear year := by
  have hmonths : start (fun i => calendarAt behind year i * 86400) 0 12 =
      start (fun i => 86400 * (getCalendar year).getD i 0) 0 12 := by
    refine start_congr fun i _ hi => ?_
    rw [calendarAt_lt behind year hi, Nat.mul_comm]
    rfl
  rw [hmonths, secInYear_eq, start_mul]
  unfold start getCalendar
  split <;> decide

/-! ### The decoder on numbers -/

theorem getYearFrom_of_takeOff {fuel t y : ℕ} {r : TakenOff} (ht : t < 2 ^ 32)
    (h : takeOff (2 ^ 32) secInYear fuel t y = some r) : getYearFrom t y = (r.rest, r.index) := by
  induction fuel generalizing t y r with
  | zero => cases h
  | succ fuel ih =>
    rw [getYearFrom]
    by_cases hlt : secInYear y < t
    · rw [takeOff_turn ht hlt, Option.map_eq_some_iff] at h
      obtain ⟨r, hr, rfl⟩ := h
      have key := ih (by omega) hr
      rw [if_pos hlt]
      exact key
    · rw [takeOff_stop (Nat.not_lt.1 hlt)] at h
      obtain rfl := Option.some.inj h
      rw [if_neg hlt]

theorem getMonthFrom_of_takeOff {len : ℕ → ℕ} {cal : List ℕ} {fuel t i : ℕ} {r : TakenOff}
    (hlen : ∀ j < cal.length, len (i + j) = cal.getD j 0 * 86400) (ht : t < 2 ^ 32)
    (h : takeOff (2 ^ 32) len fuel t i = some r) (hin : r.index < i + cal.length) :
    getMonthFrom cal t i = (r.rest, r.index + 1) := by
  induction cal generalizing fuel t i r with
  | nil =>
    have hle := le_index_of_takeOff h
    exact absurd hle (by simpa using hin)
  | cons days cal ih =>
    have hday : len i = days * 86400 := hlen 0 (by simp)
    rw [getMonthFrom]
    cases fuel with
    | zero => cases h
    | succ fuel =>
      by_cases hlt : days * 86400 < t
      · rw [takeOff_turn ht (hday ▸ hlt), Option.map_eq_some_iff] at h
        obtain ⟨r, hr, rfl⟩ := h
        have hlen' : ∀ j < cal.length, len (i + 1 + j) = cal.getD j 0 * 86400 := by
          intro j hj
          rw [Nat.add_assoc, Nat.add_comm 1 j]
          exact hlen (j + 1) (by simpa using hj)
        have hin' : r.index < i + (cal.length + 1) := hin
        have key := ih hlen' (by omega) hr (by omega)
        rw [if_pos hlt, ← hday]
        exact key
      · rw [takeOff_stop (by omega)] at h
        obtain rfl := Option.some.inj h
        rw [if_neg hlt]

/-! ### The two loops -/

/-- **`get_year`** on any 32 bits. -/
theorem getYearLoop_ends {t : ℕ} (ht : t < 2 ^ 32) : ∃ y : TakenOff,
    (∀ fuel, 137 ≤ fuel → getYearLoop fuel t = some y) ∧ y.Fine secInYear 1970 t ∧
    getYear t = (y.rest, y.index) := by
  obtain ⟨y, hy, -, hfine⟩ := takeOff_of_le (by decide) ht (le_start_years ht)
  exact ⟨y, hy, hfine, getYearFrom_of_takeOff ht (hy 137 (le_refl 137))⟩

/-- **`get_month`** on at most a year. -/
theorem getMonthLoop_ends (behind : ℕ → UInt8) {t year : ℕ} (ht : t ≤ secInYear year) :
    ∃ m : TakenOff, (∀ fuel, 12 ≤ fuel → getMonthLoop behind fuel t year = some m) ∧ m.index < 12 ∧
      m.Fine (fun i => calendarAt behind year i * 86400) 0 t ∧
      getMonth t year = (m.rest, m.index + 1) := by
  have hword : t < 2 ^ 32 := by
    unfold secInYear at ht
    split at ht <;> omega
  have hlen : ∀ j < (getCalendar year).length,
      calendarAt behind year (0 + j) * 86400 = (getCalendar year).getD j 0 * 86400 := by
    intro j hj
    rw [getCalendar_length] at hj
    rw [Nat.zero_add, calendarAt_lt behind year hj]
    rfl
  rw [← start_calendarAt behind] at ht
  obtain ⟨m, hm, hindex, hfine⟩ := takeOff_of_le (n := 12) (by decide) hword ht
  refine ⟨m, hm, by omega, hfine, ?_⟩
  exact getMonthFrom_of_takeOff hlen hword (hm 12 (le_refl 12)) (by rwa [getCalendar_length])

/-- **The loops of the calendar stay inside their tables**: on any 32 bits, with any memory behind the
tables, both end, neither subtracts below zero, and `get_month` looks at its twelve months only. -/
theorem calendar_loops (behind : ℕ → UInt8) (epoch : UInt32) : ∃ y m : TakenOff,
    (∀ fuel, 137 ≤ fuel → getYearLoop fuel epoch.toNat = some y) ∧
    y.rest ≤ secInYear y.index ∧ (∀ s ∈ y.subs, s.2 ≤ s.1) ∧
    (∀ fuel, 12 ≤ fuel → getMonthLoop behind fuel y.rest y.index = some m) ∧
    (∀ s ∈ m.subs, s.2 ≤ s.1) ∧ (∀ i ∈ m.lookups, i ≤ 11) ∧
    1 ≤ m.index + 1 ∧ m.index + 1 ≤ 12 ∧ m.rest ≤ 86400 * monthDays y.index (m.index + 1) ∧
    getYear epoch.toNat = (y.rest, y.index) ∧ getMonth y.rest y.index = (m.rest, m.index + 1) := by
  obtain ⟨y, hy, ⟨hyear, -, hysubs⟩, hynum⟩ := getYearLoop_ends epoch.toNat_lt
  obtain ⟨m, hm, hindex, ⟨hmonth, hlookups, hmsubs⟩, hmnum⟩ := getMonthLoop_ends behind hyear.rest
  have hrest := hmonth.rest
  rw [calendarAt_lt behind y.index hindex, Nat.mul_comm] at hrest
  refine ⟨y, m, hy, hyear.rest, hysubs, hm, hmsubs, fun i hi => ?_, by omega, by omega, hrest, hynum, hmnum⟩
  have := (hlookups i hi).2
  omega

end Esp8266Rest.Clock
