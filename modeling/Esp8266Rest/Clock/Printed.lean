import Esp8266Rest.Clock.Decode
import Esp8266Rest.Lib.Decimal

/-!
# What the clock prints

`epoch_to_str` decodes the seconds once more, into `unsigned char`s, and prints them with least widths.
The bounds of `GetDateTime` make the widths exact: the text shows the date of `GetDateTime`, in 19
characters (`shows_epochToStr`), and a text shows one date only (`Shows.unique`).
-/

namespace Esp8266Rest.Clock

open Esp8266Rest.Lib.CStr Esp8266Rest.Lib.Dates Esp8266Rest.Model

/-! ### Texts of dates -/

/-- The text shows the date as `HH:MM:SS MM/DD/YYYY`. -/
def Shows (d : DateTime) (t : Bytes) : Prop :=
  ∃ hour min sec month day year : Bytes,
    Numeral 2 d.hour.toNat hour ∧ Numeral 2 d.min.toNat min ∧ Numeral 2 d.sec.toNat sec ∧
    Numeral 2 d.month.toNat month ∧ Numeral 2 d.day.toNat day ∧ Numeral 4 d.year year ∧
    t = hour ++ ascii ":" ++ min ++ ascii ":" ++ sec ++ ascii " " ++ month ++ ascii "/" ++ day ++
      ascii "/" ++ year

theorem Shows.length {d : DateTime} {t : Bytes} (h : Shows d t) : t.length = 19 := by
  obtain ⟨hour, min, sec, month, day, year, hhour, hmin, hsec, hmonth, hday, hyear, rfl⟩ := h
  have hcolon : (ascii ":").length = 1 := rfl
  have hslash : (ascii "/").length = 1 := rfl
  have hspace : (ascii " ").length = 1 := rfl
  simp only [List.length_append, hhour.length, hmin.length, hsec.length, hmonth.length, hday.length,
    hyear.length, hcolon, hslash, hspace]

theorem numeral_append_inj {w n n' : ℕ} {s s' t t' : Bytes} (h : Numeral w n t) (h' : Numeral w n' t')
    (heq : s ++ t = s' ++ t') : s = s' ∧ n = n' := by
  obtain ⟨hs, rfl⟩ := List.append_inj' heq (h.length.trans h'.length.symm)
  exact ⟨hs, h.value.symm.trans h'.value⟩

theorem Shows.unique {d d' : DateTime} {t : Bytes} (h : Shows d t) (h' : Shows d' t) : d = d' := by
  obtain ⟨hour, min, sec, month, day, year, hhour, hmin, hsec, hmonth, hday, hyear, rfl⟩ := h
  obtain ⟨hour', min', sec', month', day', year', hhour', hmin', hsec', hmonth', hday', hyear', heq⟩ := h'
  obtain ⟨heq, hyear⟩ := numeral_append_inj hyear hyear' heq
  obtain ⟨heq, hday⟩ := numeral_append_inj hday hday' (List.append_cancel_right heq)
  obtain ⟨heq, hmonth⟩ := numeral_append_inj hmonth hmonth' (List.append_cancel_right heq)
  obtain ⟨heq, hsec⟩ := numeral_append_inj hsec hsec' (List.append_cancel_right heq)
  obtain ⟨heq, hmin⟩ := numeral_append_inj hmin hmin' (List.append_cancel_right heq)
  obtain ⟨-, hhour⟩ := numeral_append_inj hhour hhour'
    (show [] ++ hour = [] ++ hour' from List.append_cancel_right heq)
  cases d
  cases d'
  simp only [DateTime.mk.injEq, ← UInt8.toNat_inj]
  exact ⟨hyear, hmonth, hday, hhour, hmin, hsec⟩

/-! ### The printed clock -/

theorem epochToStr_eq (epoch : ℕ) : epochToStr epoch =
    decimal02 (getDateTime epoch).hour.toNat ++ ascii ":" ++ decimal02 (getDateTime epoch).min.toNat ++
      ascii ":" ++ decimal02 (getDateTime epoch).sec.toNat ++ ascii " " ++
      decimal02 (getDateTime epoch).month.toNat ++ ascii "/" ++
      decimal02 (getDateTime epoch).day.toNat ++ ascii "/" ++ decimal02 (getDateTime epoch).year := rfl

theorem getYearFrom_le (t year : ℕ) : (getYearFrom t year).2 ≤ year + t / 31536000 := by
  induction t, year using getYearFrom.induct with
  | case1 t year h ih =>
    have hyear : 31536000 ≤ secInYear year := by
      unfold secInYear
      split <;> decide
    rw [getYearFrom, if_pos h]
    omega
  | case2 t year h =>
    rw [getYearFrom, if_neg h]
    exact Nat.le_add_right _ _

theorem year_bounds {epoch : ℕ} (h : epoch < 2 ^ 32) :
    1970 ≤ (getDateTime epoch).year ∧ (getDateTime epoch).year ≤ 2106 := by
  have hle : (getDateTime epoch).year ≤ 1970 + epoch / 31536000 := getYearFrom_le epoch 1970
  exact ⟨(parts_year epoch).le, by omega⟩

/-- **`epoch_to_str` shows the date of `GetDateTime`.** -/
theorem shows_epochToStr {epoch : ℕ} (h : epoch < 2 ^ 32) :
    Shows (getDateTime epoch) (epochToStr epoch) := by
  have hs := stamp_getDateTime epoch
  have hmonth : (getDateTime epoch).month.toNat = (parts epoch).month := congrArg Stamp.month hs
  have hday : (getDateTime epoch).day.toNat = 1 + dayRest epoch / 86400 := congrArg Stamp.day hs
  have hmonth_le := parts_month_le epoch
  have hday_le := dayRest_le epoch
  obtain ⟨hlo, hhi⟩ := year_bounds h
  refine ⟨_, _, _, _, _, _, numeral_two ?_, numeral_two ?_, numeral_two ?_, numeral_two ?_, numeral_two ?_,
    numeral_four (by omega) (by omega), epochToStr_eq epoch⟩
  · rw [getDateTime_hour]
    omega
  · rw [getDateTime_min]
    omega
  · rw [getDateTime_sec]
    omega
  · omega
  · omega

/-- **The printed clock agrees with the decoded one**: 19 characters, the six numbers of `GetDateTime`, and
no two times that print alike. -/
theorem epochToStr_shows (epoch : UInt32) : (epochToStr epoch.toNat).length = 19 ∧
    Shows (getDateTime epoch.toNat) (epochToStr epoch.toNat) ∧
    ∀ epoch' : UInt32, epochToStr epoch'.toNat = epochToStr epoch.toNat → epoch' = epoch := by
  have hshows : ∀ e : UInt32, Shows (getDateTime e.toNat) (epochToStr e.toNat) :=
    fun e => shows_epochToStr e.toNat_lt
  refine ⟨(hshows epoch).length, hshows epoch, fun epoch' h => ?_⟩
  have hdate := (h ▸ hshows epoch').unique (hshows epoch)
  have hsec := congrArg secondsOf hdate
  rw [secondsOf_getDateTime, secondsOf_getDateTime] at hsec
  exact UInt32.toNat_inj.1 hsec

end Esp8266Rest.Clock
