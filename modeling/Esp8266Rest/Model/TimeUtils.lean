import Esp8266Rest.Lib.TakeOff
import Esp8266Rest.Model.Common

/-!
# The calendar (`time_utils.c`)

The functions take the seconds by pointer and leave in it what they did not use up; here that rest
is the first component of the result.  An `unsigned long` of seconds is its value below `2 ^ 32`;
the loops subtract only what is smaller, so nothing wraps.  `getYearLoop` and `getMonthLoop` do not build
on that: they are the loops as the device runs them, on words and in its memory.
-/

namespace Esp8266Rest.Model

open Esp8266Rest.Lib.CStr Esp8266Rest.Lib.Segments

/-- `IS_LEAP` -/
def isLeap (year : ℕ) : Bool := year % 4 = 0

/-- `SEC_IN_YEAR` -/
def secInYear (year : ℕ) : ℕ := if isLeap year then 86400 * 366 else 86400 * 365

lemma secInYear_pos (year : ℕ) : 0 < secInYear year := by
  unfold secInYear; split <;> decide

def calendar : List ℕ := [31, 28, 31, 30, 31, 30, 31, 31, 30, 31, 30, 31]

def calendarLeap : List ℕ := [31, 29, 31, 30, 31, 30, 31, 31, 30, 31, 30, 31]

def getCalendar (year : ℕ) : List ℕ := if isLeap year then calendarLeap else calendar

/-- The loop of `get_year`, from `year` on. -/
def getYearFrom (t year : ℕ) : ℕ × ℕ :=
  if secInYear year < t then getYearFrom (t - secInYear year) (year + 1) else (t, year)
termination_by t
decreasing_by have := secInYear_pos year; omega

def getYear (t : ℕ) : ℕ × ℕ := getYearFrom t 1970

/-- The loop of `get_month`, from index `i` on; `cal` is the table from there on.  The source has no
bound on `i`: the last case is the read behind the table. -/
def getMonthFrom : List ℕ → ℕ → ℕ → ℕ × ℕ
  | days :: cal, t, i =>
    if days * 86400 < t then getMonthFrom cal (t - days * 86400) (i + 1) else (t, i + 1)
  | [], t, i => (t, i + 1)

def getMonth (t year : ℕ) : ℕ × ℕ := getMonthFrom (getCalendar year) t 0

structure DateTime where
  year : ℕ
  month : UInt8
  day : UInt8
  hour : UInt8
  min : UInt8
  sec : UInt8
  deriving DecidableEq, Repr

def getDateTime (epoch : ℕ) : DateTime :=
  let (epoch, year) := getYear epoch
  let (epoch, month) := getMonth epoch year
  let day := 1 + epoch / 86400
  let epoch := epoch % 86400
  let hour := epoch / 3600
  let epoch := epoch % 3600
  { year, month := month.toUInt8, day := day.toUInt8, hour := hour.toUInt8,
    min := (epoch / 60).toUInt8, sec := (epoch % 60).toUInt8 }

/-- `epoch_to_str`, a second decoder that prints what it decodes. -/
def epochToStr (epoch : ℕ) : Bytes :=
  let (epoch, year) := getYear epoch
  let (epoch, month) := getMonth epoch year
  let month := month.toUInt8
  let day := (1 + epoch / 86400).toUInt8
  let epoch := epoch % 86400
  let hour := (epoch / 3600).toUInt8
  let epoch := epoch % 3600
  let min := (epoch / 60).toUInt8
  let sec := (epoch % 60).toUInt8
  decimal02 hour.toNat ++ ascii ":" ++ decimal02 min.toNat ++ ascii ":" ++ decimal02 sec.toNat ++
    ascii " " ++ decimal02 month.toNat ++ ascii "/" ++ decimal02 day.toNat ++ ascii "/" ++
    decimal02 year

/-- `sntp_time+(sntp_tz*3600)`, passed on as an `unsigned long`. -/
def localEpoch (sntpTime sntpTz : Int32) : ℕ := (sntpTime + sntpTz * 3600).toUInt32.toNat

/-- `Now` -/
def now (sntpTime sntpTz : Int32) : DateTime := getDateTime (localEpoch sntpTime sntpTz)

/-! ### The loops on words -/

/-- The loop of `get_year` on `unsigned long`s, with at most `fuel` tests. -/
def getYearLoop (fuel t : ℕ) : Option TakenOff := takeOff (2 ^ 32) secInYear fuel t 1970

/-- What `cal[i]` reads: a byte of the table, or of what lies `behind` it. -/
def calendarAt (behind : ℕ → UInt8) (year i : ℕ) : ℕ := (getCalendar year).getD i (behind i).toNat

/-- The loop of `get_month` on `unsigned long`s, with at most `fuel` tests; the month is its counter and
one more. -/
def getMonthLoop (behind : ℕ → UInt8) (fuel t year : ℕ) : Option TakenOff :=
  takeOff (2 ^ 32) (fun i => calendarAt behind year i * 86400) fuel t 0

/-! ### The time of day

The loops take off whole days only. -/

lemma secInYear_mod (year : ℕ) : secInYear year % 86400 = 0 := by
  unfold secInYear; split <;> decide

theorem getYearFrom_mod (t year : ℕ) : (getYearFrom t year).1 % 86400 = t % 86400 := by
  induction t, year using getYearFrom.induct with
  | case1 t year h ih =>
    rw [getYearFrom, if_pos h, ih]
    have := secInYear_mod year
    omega
  | case2 t year h => rw [getYearFrom, if_neg h]

theorem getMonthFrom_mod (cal : List ℕ) (t i : ℕ) :
    (getMonthFrom cal t i).1 % 86400 = t % 86400 := by
  induction cal generalizing t i with
  | nil => rfl
  | cons days cal ih =>
    rw [getMonthFrom]
    split
    · rw [ih]; omega
    · rfl

/-- What is left for the day and the time of day. -/
def dayRest (epoch : ℕ) : ℕ := (getMonth (getYear epoch).1 (getYear epoch).2).1

lemma dayRest_mod (epoch : ℕ) : dayRest epoch % 86400 = epoch % 86400 := by
  unfold dayRest getMonth getYear
  rw [getMonthFrom_mod, getYearFrom_mod]

theorem getDateTime_hour (epoch : ℕ) :
    (getDateTime epoch).hour.toNat = epoch % 86400 / 3600 := by
  have h : (getDateTime epoch).hour = (dayRest epoch % 86400 / 3600).toUInt8 := rfl
  rw [h, dayRest_mod, Nat.toUInt8, UInt8.toNat_ofNat']
  omega

theorem getDateTime_min (epoch : ℕ) :
    (getDateTime epoch).min.toNat = epoch % 3600 / 60 := by
  have h : (getDateTime epoch).min = (dayRest epoch % 86400 % 3600 / 60).toUInt8 := rfl
  rw [h, dayRest_mod, Nat.toUInt8, UInt8.toNat_ofNat']
  omega

theorem getDateTime_sec (epoch : ℕ) :
    (getDateTime epoch).sec.toNat = epoch % 60 := by
  have h : (getDateTime epoch).sec = (dayRest epoch % 86400 % 3600 % 60).toUInt8 := rfl
  rw [h, dayRest_mod, Nat.toUInt8, UInt8.toNat_ofNat']
  omega

end Esp8266Rest.Model
