import Esp8266Rest.Lib.Circle
import Esp8266Rest.Outputs.Commands

/-!
# What a tick does

A tick of the scheduler computes new values for the ports in a scratch copy of `portsVal` and then
calls `PortPinSet` for those that changed.  `foldl_eventStep` says what the scratch copy holds,
`oneSecLoop_induct` that the rest of the tick is calls of `PortPinSet` on ports, with `0` or `1`, and
`oneSecLoop_portsVal` what `portsVal` is afterwards.
-/

namespace Esp8266Rest.Outputs

open Esp8266Rest.Lib.CStr Esp8266Rest.Lib.Circle Esp8266Rest.Model Esp8266Rest.Url

/-! ### Times of day -/

def minutes (t : Time) : ℤ := t.hour.toInt * 60 + t.min.toInt

/-- A time of day in the form `HH:MM`. -/
structure IsTime (t : Time) : Prop where
  hour : 0 ≤ t.hour.toInt ∧ t.hour.toInt < 24
  min : 0 ≤ t.min.toInt ∧ t.min.toInt < 60

theorem IsTime.minutes {t : Time} (h : IsTime t) : 0 ≤ minutes t ∧ minutes t < 1440 := by
  obtain ⟨hh, hm⟩ := h
  unfold Outputs.minutes
  omega

theorem toInt_minutes {t : Time} (h : IsTime t) : (t.hour * 60 + t.min).toInt = minutes t := by
  obtain ⟨hh, hm⟩ := h
  have h60 : (60 : Int32).toInt = 60 := by decide
  rw [Int32.toInt_add, Int32.toInt_mul, h60]
  rw [Int.bmod_eq_of_le (n := t.hour.toInt * 60) (by omega) (by omega)]
  exact Int.bmod_eq_of_le (by omega) (by omega)

theorem toInt_daySub {a b : Int32} (ha : 0 ≤ a.toInt ∧ a.toInt < 1440)
    (hb : 0 ≤ b.toInt ∧ b.toInt < 1440) :
    (if b - a < 0 then b - a + 24 * 60 else b - a).toInt = (b.toInt - a.toInt) % 1440 := by
  have hsub : (b - a).toInt = b.toInt - a.toInt := by
    rw [Int32.toInt_sub]
    exact Int.bmod_eq_of_le (by omega) (by omega)
  have hday : (24 * 60 : Int32).toInt = 1440 := by decide
  have hneg : b - a < 0 ↔ b.toInt - a.toInt < 0 := by
    rw [Int32.lt_iff_toInt_lt, hsub]
    rfl
  rw [sub_emod_eq ha hb]
  by_cases h : b.toInt - a.toInt < 0
  · rw [if_pos h, if_pos (hneg.2 h), Int32.toInt_add, hsub, hday]
    exact Int.bmod_eq_of_le (by omega) (by omega)
  · rw [if_neg h, if_neg (mt hneg.1 h), hsub]

/-- **`IsTimeInside` decides the circular half-open window.** -/
theorem isTimeInside_iff {start fin current : Time} (hs : IsTime start) (hf : IsTime fin)
    (hc : IsTime current) : isTimeInside start fin current = true ↔
      Within 1440 (minutes start) (minutes fin) (minutes current) := by
  have hs' := toInt_minutes hs
  have hf' := toInt_minutes hf
  have hc' := toInt_minutes hc
  have hdiff := toInt_daySub (hs'.symm ▸ hs.minutes) (hf'.symm ▸ hf.minutes)
  have hcur := toInt_daySub (hs'.symm ▸ hs.minutes) (hc'.symm ▸ hc.minutes)
  rw [hs', hf'] at hdiff
  rw [hs', hc'] at hcur
  unfold isTimeInside
  dsimp only
  rw [decide_eq_true_iff, Int32.lt_iff_toInt_lt, Int32.toInt_sub, hdiff, hcur]
  have h1 := Int.emod_nonneg (minutes fin - minutes start) (b := 1440) (by omega)
  have h2 := Int.emod_lt_of_pos (minutes fin - minutes start) (b := 1440) (by omega)
  have h3 := Int.emod_nonneg (minutes current - minutes start) (b := 1440) (by omega)
  have h4 := Int.emod_lt_of_pos (minutes current - minutes start) (b := 1440) (by omega)
  rw [Int.bmod_eq_of_le (by omega) (by omega)]
  unfold Within
  have h0 : (0 : Int32).toInt = 0 := by decide
  omega

/-- The clock shows the minute of the day that its seconds are in. -/
theorem localTime_eq (sntpTime sntpTz : Int32) :
    (localTime sntpTime sntpTz).hour.toInt = localEpoch sntpTime sntpTz % 86400 / 3600 ∧
    (localTime sntpTime sntpTz).min.toInt = localEpoch sntpTime sntpTz % 3600 / 60 := by
  have hhour := getDateTime_hour (localEpoch sntpTime sntpTz)
  have hmin := getDateTime_min (localEpoch sntpTime sntpTz)
  simp only [localTime, now, hhour, hmin]
  rw [Int32.toInt_ofNat_of_lt (by omega), Int32.toInt_ofNat_of_lt (by omega)]
  omega

lemma localTime_isTime (sntpTime sntpTz : Int32) : IsTime (localTime sntpTime sntpTz) := by
  obtain ⟨hh, hm⟩ := localTime_eq sntpTime sntpTz
  constructor <;> omega

theorem minutes_localTime (sntpTime sntpTz : Int32) :
    minutes (localTime sntpTime sntpTz) = localEpoch sntpTime sntpTz % 86400 / 60 := by
  obtain ⟨hh, hm⟩ := localTime_eq sntpTime sntpTz
  unfold minutes
  omega

/-! ### The event loop -/

/-- The event is active and drives port `p`. -/
def Targets (e : PowerEvent) (p : Fin 8) : Prop := e.active ≠ 0 ∧ slot? 8 e.port = some p

instance (e : PowerEvent) (p : Fin 8) : Decidable (Targets e p) := by
  unfold Targets; infer_instance

/-- Some active event on port `p` has the time of day `t` in its window. -/
def InWindow (events : List PowerEvent) (p : Fin 8) (t : Time) : Prop :=
  ∃ e ∈ events, Targets e p ∧
    Within 1440 (minutes e.startTime) (minutes e.endTime) (minutes t)

section EventStep

variable {curr : Time} {tmp : Vector UInt8 8} {e : PowerEvent} {p : Fin 8}

theorem eventStep_of_targets (h : Targets e p) : eventStep curr tmp e =
    if isTimeInside e.startTime e.endTime curr then setAt tmp p 1
    else if tmp.get p ≠ 1 then setAt tmp p 0 else tmp := by
  unfold eventStep
  rw [if_pos h.1, h.2]

theorem eventStep_of_not_targets (h : ¬ Targets e p) : (eventStep curr tmp e).get p = tmp.get p := by
  by_cases ha : e.active = 0
  · simp [eventStep, ha]
  · cases hs : slot? 8 e.port with
    | none => simp [eventStep, ha, hs]
    | some q =>
      have hpq : p ≠ q := fun heq => h ⟨ha, heq ▸ hs⟩
      rw [eventStep_of_targets ⟨ha, hs⟩]
      split
      · rw [get_setAt, if_neg hpq]
      · split
        · rw [get_setAt, if_neg hpq]
        · rfl

/-- **One turn** switches the port of an active event on inside the window, and never takes back
a `1`. -/
theorem eventStep_eq_one : (eventStep curr tmp e).get p = 1 ↔
    tmp.get p = 1 ∨ (Targets e p ∧ isTimeInside e.startTime e.endTime curr = true) := by
  by_cases h : Targets e p
  · rw [eventStep_of_targets h]
    by_cases hin : isTimeInside e.startTime e.endTime curr = true
    · simp [hin, h]
    · by_cases h1 : tmp.get p = 1
      · simp [hin, h1]
      · rw [if_neg hin, if_pos h1, get_setAt_self]
        simpa [hin] using h1
  · simp [eventStep_of_not_targets h, h]

theorem eventStep_le (h : tmp.get p = 0 ∨ tmp.get p = 1) :
    (eventStep curr tmp e).get p = 0 ∨ (eventStep curr tmp e).get p = 1 := by
  by_cases ht : Targets e p
  · rw [eventStep_of_targets ht]
    split
    · simp
    · split
      · simp
      · exact h
  · rwa [eventStep_of_not_targets ht]

end EventStep

/-- **The scratch copy** has a `1` where there was one, and where an active event switches on. -/
theorem foldl_eventStep_eq_one {events : List PowerEvent} {curr : Time} (tmp : Vector UInt8 8)
    (p : Fin 8) : (events.foldl (eventStep curr) tmp).get p = 1 ↔ tmp.get p = 1 ∨
      ∃ e ∈ events, Targets e p ∧ isTimeInside e.startTime e.endTime curr = true := by
  induction events generalizing tmp with
  | nil => simp
  | cons e events ih => rw [List.foldl_cons, ih, eventStep_eq_one, List.exists_mem_cons_iff, or_assoc]

/-- The same in terms of windows. -/
theorem foldl_eventStep {events : List PowerEvent} {curr : Time} (hc : IsTime curr)
    (he : ∀ e ∈ events, IsTime e.startTime ∧ IsTime e.endTime) (tmp : Vector UInt8 8) (p : Fin 8) :
    (events.foldl (eventStep curr) tmp).get p = 1 ↔ tmp.get p = 1 ∨ InWindow events p curr := by
  rw [foldl_eventStep_eq_one]
  unfold InWindow
  refine or_congr_right (exists_congr fun e => and_congr_right fun hmem => ?_)
  rw [isTimeInside_iff (he e hmem).1 (he e hmem).2 hc]

theorem foldl_eventStep_le {events : List PowerEvent} {curr : Time} (tmp : Vector UInt8 8)
    {p : Fin 8} (h : tmp.get p = 0 ∨ tmp.get p = 1) :
    (events.foldl (eventStep curr) tmp).get p = 0 ∨ (events.foldl (eventStep curr) tmp).get p = 1 := by
  induction events generalizing tmp with
  | nil => exact h
  | cons e events ih => exact ih (eventStep curr tmp e) (eventStep_le h)

/-! ### The output loop -/

lemma shown_of_le {v : UInt8} (h : v = 0 ∨ v = 1) : shown v = v := by
  rcases h with rfl | rfl <;> rfl

/-- The entry of `portsVal` that is written before `PortPinSet` writes it again does not matter. -/
theorem portPinSet_overwrites (p : Fin 8) (v w : UInt8) (r : Rest) :
    portPinSet (Int32.ofNat p) v
        { r with board := { r.board with portsVal := setAt r.board.portsVal p w } } =
      portPinSet (Int32.ofNat p) v r := by
  refine Rest.ext ?_ (by simp) (by simp [portPinSet_log])
  rw [portPinSet_board, portPinSet_board]
  simp [modifyAt_of_slot (slot?_ofNat p)]

theorem outputStep_eq (tmp : Vector UInt8 8) (r : Rest) (i : Fin 8) : outputStep tmp r i =
    if r.board.portsVal.get i ≠ tmp.get i then portPinSet (Int32.ofNat i) (shown (tmp.get i)) r else r := by
  unfold outputStep
  dsimp only
  split
  · rw [portPinSet_overwrites]
    by_cases h : tmp.get i = 0 <;> simp [shown, h]
  · rfl

/-- The scratch copy of a tick when the output loop starts. -/
def scratch (b : Board) : Vector UInt8 8 :=
  b.flashData.powerEvents.toList.foldl (eventStep b.curr) b.portsVal

lemma oneSecLoop_eq (r : Rest) :
    oneSecLoop r = (List.finRange 8).foldl (outputStep (scratch r.board)) r := rfl

/-- **The rule for a tick.**  What calls of `PortPinSet` on ports with `0` or `1` keep, and the clock
may change, a tick keeps. -/
theorem oneSecLoop_induct {P : Rest → Prop}
    (hset : ∀ (p : Fin 8) v r, v = 0 ∨ v = 1 → P r → P (portPinSet (Int32.ofNat p) v r)) {r : Rest}
    (h : P r) : P (oneSecLoop r) := by
  rw [oneSecLoop_eq]
  generalize scratch r.board = tmp
  induction List.finRange 8 generalizing r with
  | nil => exact h
  | cons i is ih =>
    refine ih ?_
    rw [outputStep_eq]
    split
    · exact hset i _ r (shown_eq _) h
    · exact h

section Logs

/-! What the calls of `PortPinSet` do not log is left alone. -/

variable {β : Type*} {f : Log → β} (hf : ∀ l pinSets accesses, f { l with pinSets, accesses } = f l) (r : Rest)
include hf

theorem tick_log (sntpTime sntpTz : Int32) : f (tick sntpTime sntpTz r).log = f r.log := by
  unfold tick
  refine oneSecLoop_induct (P := fun r' => f r'.log = f r.log) ?_ rfl
  intro p v r' _ h
  rw [portPinSet_log, hf, h]

theorem openTimerExpire_log : f (openTimerExpire r).log = f r.log := by
  unfold openTimerExpire setPortToLow
  split
  · rw [portPinSet_log, hf]
  · rfl

end Logs

lemma step_tick (r : Rest) (sntpTime sntpTz : Int32) :
    step r (.tick sntpTime sntpTz) = oneSecLoop (r.setClock sntpTime sntpTz) := rfl

/-! ### After the tick -/

theorem outputStep_portsVal {tmp : Vector UInt8 8} {p : Fin 8} (h : tmp.get p = 0 ∨ tmp.get p = 1)
    (r : Rest) (i : Fin 8) : (outputStep tmp r i).board.portsVal.get p =
      if p = i then tmp.get p else r.board.portsVal.get p := by
  rw [outputStep_eq]
  by_cases hi : r.board.portsVal.get i = tmp.get i
  · rw [if_neg (not_not.2 hi)]
    by_cases hp : p = i
    · rw [if_pos hp, hp, hi]
    · rw [if_neg hp]
  · rw [if_pos hi]
    simp only [portPinSet_portsVal (slot?_ofNat i), get_setAt]
    by_cases hp : p = i
    · subst hp
      rw [if_pos rfl, if_pos rfl, shown_of_le h]
      exact shown_of_le h
    · rw [if_neg hp, if_neg hp]

theorem foldl_outputStep {tmp : Vector UInt8 8} {p : Fin 8} (h : tmp.get p = 0 ∨ tmp.get p = 1)
    {is : List (Fin 8)} {r : Rest} (hp : p ∈ is ∨ r.board.portsVal.get p = tmp.get p) :
    (is.foldl (outputStep tmp) r).board.portsVal.get p = tmp.get p := by
  induction is generalizing r with
  | nil =>
    rcases hp with hp | hp
    · cases hp
    · exact hp
  | cons i is ih =>
    refine ih ?_
    rw [outputStep_portsVal h]
    by_cases hi : p = i
    · exact .inr (if_pos hi)
    · rw [if_neg hi]
      exact hp.imp_left fun hmem => (List.mem_cons.1 hmem).resolve_left hi

/-- **After a tick** `portsVal` is the scratch copy. -/
theorem oneSecLoop_portsVal {r : Rest} {p : Fin 8}
    (h : r.board.portsVal.get p = 0 ∨ r.board.portsVal.get p = 1) :
    (oneSecLoop r).board.portsVal.get p = (scratch r.board).get p := by
  have hs : (scratch r.board).get p = 0 ∨ (scratch r.board).get p = 1 := foldl_eventStep_le _ h
  rw [oneSecLoop_eq, foldl_outputStep hs (.inl (List.mem_finRange p))]

theorem oneSecLoop_frame (r : Rest) : ∃ portsVal gpioOut rtcGpioOut,
    (oneSecLoop r).board = { r.board with portsVal, gpioOut, rtcGpioOut } := by
  refine oneSecLoop_induct (P := fun r' => ∃ portsVal gpioOut rtcGpioOut,
    r'.board = { r.board with portsVal, gpioOut, rtcGpioOut }) ?_ ⟨_, _, _, rfl⟩
  rintro p v r' - ⟨_, _, _, h⟩
  obtain ⟨_, _, _, h'⟩ := portPinSet_frame (Int32.ofNat p) v r'
  rw [h', h]
  exact ⟨_, _, _, rfl⟩

end Esp8266Rest.Outputs
