import Esp8266Rest.Outputs.Bounds

/-!
# `portsVal` and the outputs

`portsVal` is a shadow copy of the output latches.  Every writer goes through `PortPinSet`, which
keeps the two in step but for one case: the driver of pin `16` looks at the lowest bit of a value,
and the shadow at the whole of it (`portPinSet_inStep_iff`).  `inStep_iff` carries this to runs.
-/

namespace Esp8266Rest.Outputs

open Esp8266Rest.Lib.CStr Esp8266Rest.Lib.Runs Esp8266Rest.Model Esp8266Rest.Url

/-- `portsVal` shows the latches. -/
def InStep (b : Board) : Prop := ∀ p : Fin 8, b.portsVal.get p = if b.latch p then 1 else 0

instance (b : Board) : Decidable (InStep b) := by unfold InStep; infer_instance

/-- The latch that is driven with `v` and the entry that is written for it agree. -/
def Agrees (p : Fin 8) (v : UInt8) : Prop := portPinNumber.get p = 16 → v = 0 ∨ v &&& 1 ≠ 0

theorem agrees_iff {p : Fin 8} {v : UInt8} :
    (shown v = if driven p v then 1 else 0) ↔ Agrees p v := by
  unfold shown driven Agrees
  by_cases hp : portPinNumber.get p = 16
  · by_cases hv : v = 0
    · simp [hp, hv]
    · by_cases hb : v &&& 1 = 0 <;> simp [hp, hv, hb]
  · by_cases hv : v = 0 <;> simp [hp, hv]

theorem agrees_of_le {p : Fin 8} {v : UInt8} (h : v = 0 ∨ v = 1) : Agrees p v := by
  rcases h with rfl | rfl
  · exact fun _ => .inl rfl
  · exact fun _ => .inr (by decide)

/-- **`PortPinSet` keeps `portsVal` in step** exactly if the two readings of its value agree. -/
theorem portPinSet_inStep_iff {n : Int32} {p : Fin 8} (h : slot? 8 n = some p) {v : UInt8}
    {r : Rest} (hr : InStep r.board) : InStep (portPinSet n v r).board ↔ Agrees p v := by
  unfold InStep
  simp only [portPinSet_portsVal h, portPinSet_latch h, get_setAt]
  rw [← agrees_iff]
  constructor
  · intro hall
    simpa using hall p
  · intro ha q
    by_cases hq : q = p
    · simpa [hq] using ha
    · simpa [hq] using hr q

/-! ### The writers -/

/-- The requests that drive a port, for a port; ticks; expiries. -/
def IsPinEvent : Event → Prop
  | .request conn => command conn.url ∈ driving ∧ IsPort (number (command conn.url) conn.url)
  | _ => True

/-- A port that a request drives is one. -/
def DrivesPort : Event → Prop
  | .request conn => command conn.url ∈ driving → IsPort (number (command conn.url) conn.url)
  | _ => True

theorem IsPinEvent.drivesPort {e : Event} (h : IsPinEvent e) : DrivesPort e := by
  rcases e with conn | ⟨t, tz⟩ | _
  · exact fun _ => h.2
  · trivial
  · trivial

/-- A value that `setpin` sends to port `6` is `0` or odd in its low byte. -/
def SetsCleanly : Event → Prop
  | .request conn => command conn.url = ascii "setpin" →
      number (ascii "setpin") conn.url = 6 → pinValue conn.url = 0 ∨ pinValue conn.url &&& 1 ≠ 0
  | _ => True

/-- The invariant: `portsVal` is in step, and an armed timer is armed for a port. -/
structure PinInv (r : Rest) : Prop where
  inStep : InStep r.board
  port : r.board.openTimer.armed = true → IsPort r.board.openTimer.arg

lemma inStep_openTimer (b : Board) (t : OsTimer) :
    InStep { b with openTimer := t } ↔ InStep b := Iff.rfl

theorem latch_congr {b b' : Board} (h : outputs b = outputs b') (p : Fin 8) : b.latch p = b'.latch p := by
  simp only [outputs, OutputState.mk.injEq] at h
  obtain ⟨-, hgpio, hrtc, -⟩ := h
  unfold Board.latch
  rw [hgpio, hrtc]

lemma inStep_congr {b b' : Board} (h : outputs b = outputs b') : InStep b ↔ InStep b' := by
  have hval : b.portsVal = b'.portsVal := congrArg OutputState.portsVal h
  simp only [InStep, hval, latch_congr h]

lemma flipped_le (n : Int32) (b : Board) : flipped n b = 0 ∨ flipped n b = 1 := by
  unfold flipped
  split <;> split <;> simp

section Steps

variable {r : Rest}

/-- **A request** keeps `portsVal` in step unless it is a `setpin` of port `6` with another value. -/
theorem request_inStep_iff (hr : InStep r.board) {conn : Conn} (hv : IsPinEvent (.request conn)) :
    InStep (step r (.request conn)).board ↔ SetsCleanly (.request conn) := by
  obtain ⟨hcmd, hport⟩ := hv
  obtain ⟨p, hp⟩ := isPort_iff.1 hport
  simp only [driving, List.mem_cons, List.not_mem_nil, or_false] at hcmd
  rcases hcmd with h | h | h
  · rw [h] at hp
    have hne : ¬ ascii "flipinput" = ascii "setpin" := by decide
    have hstart : InStep (dispatched conn (ascii "flipinput") { r with sendBuff := [] }).board := hr
    have hflip := agrees_of_le (p := p) (flipped_le (number (ascii "flipinput") conn.url) r.board)
    rw [step, request_flipinput _ h, doFlipinput_board]
    exact iff_of_true ((portPinSet_inStep_iff hp hstart).2 hflip) fun e => absurd (h.symm.trans e) hne
  · rw [h] at hp
    have hne : ¬ ascii "open" = ascii "setpin" := by decide
    have hstart : InStep (dispatched conn (ascii "open") { r with sendBuff := [] }).board := hr
    have hone : Agrees p 1 := agrees_of_le (.inr rfl)
    rw [step, request_open _ h, doOpen_board, inStep_openTimer]
    exact iff_of_true ((portPinSet_inStep_iff hp hstart).2 hone) fun e => absurd (h.symm.trans e) hne
  · rw [h] at hp
    have hstart : InStep (dispatched conn (ascii "setpin") { r with sendBuff := [] }).board := hr
    rw [step, request_setpin _ h, doSetPin_board, portPinSet_inStep_iff hp hstart]
    have h6 : portPinNumber.get p = 16 ↔ number (ascii "setpin") conn.url = 6 := by
      rw [slot?_eq_some_iff] at hp
      rw [portPinNumber_eq_sixteen, ← Int32.toInt_inj, hp]
      change (p : ℕ) = 6 ↔ ((p : ℕ) : ℤ) = 6
      omega
    unfold Agrees SetsCleanly
    rw [h6]
    exact ⟨fun ha _ => ha, fun ha => ha h⟩

theorem request_pinInv (hi : PinInv r) {conn : Conn} (hv : IsPinEvent (.request conn))
    (hok : SetsCleanly (.request conn)) : PinInv (step r (.request conn)) := by
  refine ⟨(request_inStep_iff hi.inStep hv).2 hok, ?_⟩
  rw [step, request_openTimer]
  split
  · rename_i h
    have hport := hv.2
    rw [h] at hport
    exact fun _ => hport
  · exact hi.port

theorem quiet_pinInv (hi : PinInv r) {conn : Conn} (h : command conn.url ∉ driving) :
    PinInv (step r (.request conn)) := by
  have hout : outputs (step r (.request conn)).board = outputs r.board := (request_quiet _ h).outputs
  refine ⟨(inStep_congr hout).2 hi.inStep, ?_⟩
  have htimer := congrArg OutputState.openTimer hout
  simp only [outputs] at htimer
  rw [htimer]
  exact hi.port

/-- A request that drives no port sends no value to one. -/
theorem quiet_setsCleanly {conn : Conn} (h : command conn.url ∉ driving) :
    SetsCleanly (.request conn) := by
  intro hset
  rw [hset] at h
  exact absurd (by decide) h

theorem tick_pinInv (hi : PinInv r) (t tz : Int32) : PinInv (step r (.tick t tz)) := by
  rw [step_tick]
  refine oneSecLoop_induct (P := PinInv) (fun p v r' hv h => ⟨?_, ?_⟩) ⟨hi.inStep, hi.port⟩
  · exact (portPinSet_inStep_iff (slot?_ofNat p) h.inStep).2 (agrees_of_le hv)
  · rw [portPinSet_openTimer]
    exact h.port

theorem expire_pinInv (hi : PinInv r) : PinInv (step r .expire) := by
  cases ha : r.board.openTimer.armed with
  | false =>
    rw [step, openTimerExpire_idle ha]
    exact hi
  | true =>
    obtain ⟨p, hp⟩ := isPort_iff.1 (hi.port ha)
    have hfired : InStep (fired r).board := hi.inStep
    rw [step, openTimerExpire_armed ha]
    constructor
    · exact (portPinSet_inStep_iff hp hfired).2 (agrees_of_le (.inl rfl))
    · rw [portPinSet_openTimer]
      rintro ⟨⟩

end Steps

/-! ### Runs -/

/-- `portsVal` and the latches at the start: all `0`, and no timer armed. -/
structure AllLow (b : Board) : Prop where
  portsVal : ∀ p : Fin 8, b.portsVal.get p = 0
  latch : ∀ p : Fin 8, b.latch p = false
  idle : b.openTimer.armed = false

lemma AllLow.pinInv {r : Rest} (h : AllLow r.board) : PinInv r where
  inStep p := by simp [h.portsVal, h.latch]
  port ha := by simp [h.idle] at ha

/-- The rule for runs with requests of all kinds. -/
theorem throughout_inStep_iff {r : Rest} (hr : PinInv r) {es : List Event}
    (hes : ∀ e ∈ es, DrivesPort e) :
    Throughout step (fun r => InStep r.board) r es ↔ ∀ e ∈ es, SetsCleanly e := by
  rw [← along_event_iff step (s := r)]
  refine throughout_iff_along step (V := fun _ e => DrivesPort e) (I := PinInv) ?_ ?_ hr hr.inStep
    ((along_event_iff step).2 hes)
  · rintro r (conn | ⟨t, tz⟩ | _) hi hv hok
    · by_cases hd : command conn.url ∈ driving
      · exact request_pinInv hi ⟨hd, hv hd⟩ hok
      · exact quiet_pinInv hi hd
    · exact tick_pinInv hi t tz
    · exact expire_pinInv hi
  · rintro r (conn | ⟨t, tz⟩ | _) hi hv
    · by_cases hd : command conn.url ∈ driving
      · exact request_inStep_iff hi.inStep ⟨hd, hv hd⟩
      · exact iff_of_true (quiet_pinInv hi hd).inStep (quiet_setsCleanly hd)
    · exact iff_of_true (tick_pinInv hi t tz).inStep trivial
    · exact iff_of_true (expire_pinInv hi).inStep trivial

/-- **`portsVal` shows the outputs** throughout a run, and no request of it goes beyond an array or a
buffer, exactly if every request is proper and every `setpin` of port `6` has a value whose low byte is
`0` or odd. -/
theorem inStep_iff {r : Rest} (hr : AllLow r.board) (hs : Safe r.log) {es : List Event}
    (hes : ∀ e ∈ es, IsPinEvent e) :
    Throughout step (fun r => Safe r.log ∧ InStep r.board) r es ↔ ∀ e ∈ es, IsProper e ∧ SetsCleanly e := by
  have hsafe := staysSafe_iff hs hr.idle es
  have hstep := throughout_inStep_iff hr.pinInv fun e he => (hes e he).drivesPort
  rw [throughout_and, hsafe, hstep]
  exact ⟨fun h e he => ⟨h.1 e he, h.2 e he⟩, fun h => ⟨fun e he => (h e he).1, fun e he => (h e he).2⟩⟩

theorem start_allLow (f : FlashData) : AllLow (Rest.start f).board where
  portsVal := by
    intro p
    simp [Rest.start, get_eq_getElem]
  latch := by
    intro p
    simp [Rest.start, Board.latch]
  idle := rfl

/-- Ports driven by all four writers. -/
theorem inStep_start : Throughout step (fun r => Safe r.log ∧ InStep r.board) (.start .zero)
    [.request (.get "/setpin/6/1"), .tick 0 0, .request (.get "/flipinput/6"), .request (.get "/open"), .expire,
      .request (.get "/setpin/3/2")] := by
  refine (inStep_iff (start_allLow _) safe_empty ?_).2 ?_
  · simp only [List.forall_mem_cons, List.not_mem_nil, false_implies, implies_true, and_true]
    exact ⟨⟨by decide, by decide⟩, trivial, ⟨by decide, by decide⟩, ⟨by decide, by decide⟩, trivial,
      by decide, by decide⟩
  · simp only [List.forall_mem_cons, List.not_mem_nil, false_implies, implies_true, and_true]
    refine ⟨⟨by decide, fun _ _ => .inr (by decide)⟩, ⟨trivial, trivial⟩,
      ⟨by decide, fun h => absurd h (by decide)⟩, ⟨by decide, fun h => absurd h (by decide)⟩,
      ⟨trivial, trivial⟩, by decide, fun _ h => absurd h (by decide)⟩

/-- **An even value for port `6`**: `portsVal` shows a `1` that the pin does not have. -/
theorem not_inStep_setpin_two :
    ¬ Throughout step (fun r => InStep r.board) (.start .zero) [.request (.get "/setpin/6/2")] := by
  intro h
  have hend := run_of_throughout step h
  rw [run_cons, run_nil, request_inStep_iff (start_allLow .zero).pinInv.inStep ⟨by decide, by decide⟩] at hend
  exact absurd (hend (by decide) (by decide)) (by decide)

end Esp8266Rest.Outputs
