import Esp8266Rest.Outputs.Door

/-!
# Every output is written by `PortPinSet`

A step of the board changes the outputs by calls of `PortPinSet` only: `step_induct` is the rule for
what such calls keep.  With it, the entries of `portsVal` stay `0` or `1` (`step_isBool`), and every
output is as the last call for its port left it (`step_recorded`).
-/

namespace Esp8266Rest.Outputs

open Esp8266Rest.Lib.CStr Esp8266Rest.Lib.Runs Esp8266Rest.Model Esp8266Rest.Url

/-! ### The rule -/

/-- `r'` has the outputs of `r` and the same calls of `PortPinSet` behind it. -/
structure SamePins (r r' : Rest) : Prop where
  portsVal : r'.board.portsVal = r.board.portsVal
  gpioOut : r'.board.gpioOut = r.board.gpioOut
  rtcGpioOut : r'.board.rtcGpioOut = r.board.rtcGpioOut
  pinSets : r'.log.pinSets = r.log.pinSets

theorem Quiet.samePins {r r' : Rest} (h : Quiet r r') : SamePins r r' where
  portsVal := congrArg OutputState.portsVal h.outputs
  gpioOut := congrArg OutputState.gpioOut h.outputs
  rtcGpioOut := congrArg OutputState.rtcGpioOut h.outputs
  pinSets := h.pinSets

lemma samePins_of_board {r r' : Rest} (hb : r'.board = r.board)
    (hl : r'.log.pinSets = r.log.pinSets) : SamePins r r' :=
  ⟨by rw [hb], by rw [hb], by rw [hb], hl⟩

theorem SamePins.latch {r r' : Rest} (h : SamePins r r') (p : Fin 8) :
    r'.board.latch p = r.board.latch p := by
  unfold Board.latch
  rw [h.gpioOut, h.rtcGpioOut]

theorem SamePins.lastSet {r r' : Rest} (h : SamePins r r') (n : Int32) :
    lastSet r' n = lastSet r n := by
  unfold Outputs.lastSet
  rw [h.pinSets]

theorem request_drives {conn : Conn} (h : command conn.url ∈ driving) (r : Rest) :
    ∃ n v r', SamePins r r' ∧ SamePins (portPinSet n v r') (parseURLCommand conn r) := by
  simp only [driving, List.mem_cons, List.not_mem_nil, or_false] at h
  rcases h with h | h | h
  · refine ⟨number (ascii "flipinput") conn.url, flipped (number (ascii "flipinput") conn.url) r.board,
      dispatched conn (ascii "flipinput") r, ⟨rfl, rfl, rfl, rfl⟩, ?_⟩
    rw [request_flipinput r h]
    refine samePins_of_board (doFlipinput_board _ _) ?_
    rw [doFlipinput_pinSets, portPinSet_pinSets]
    rfl
  · refine ⟨openPort conn.url, 1, dispatched conn (ascii "open") r, ⟨rfl, rfl, rfl, rfl⟩, ?_⟩
    rw [request_open r h]
    refine ⟨?_, ?_, ?_, ?_⟩
    · rw [doOpen_board]
    · rw [doOpen_board]
    · rw [doOpen_board]
    · rw [doOpen_pinSets, portPinSet_pinSets]
  · refine ⟨number (ascii "setpin") conn.url, pinValue conn.url, dispatched conn (ascii "setpin") r,
      ⟨rfl, rfl, rfl, rfl⟩, ?_⟩
    rw [request_setpin r h]
    refine samePins_of_board (doSetPin_board _ _) ?_
    rw [doSetPin_pinSets, portPinSet_pinSets]

/-- **The rule for a step.**  A property of the outputs that calls of `PortPinSet` keep, whatever they
are given, every step keeps. -/
theorem step_induct {P : Rest → Prop} (hsame : ∀ r r', SamePins r r' → P r → P r')
    (hset : ∀ n v r, P r → P (portPinSet n v r)) {r : Rest} (h : P r) (e : Event) : P (step r e) := by
  rcases e with conn | ⟨t, tz⟩ | _
  · have hbuff : P { r with sendBuff := [] } := hsame r _ ⟨rfl, rfl, rfl, rfl⟩ h
    rw [step]
    by_cases hd : command conn.url ∈ driving
    · obtain ⟨n, v, r', hr', hreq⟩ := request_drives hd { r with sendBuff := [] }
      exact hsame _ _ hreq (hset n v r' (hsame _ _ hr' hbuff))
    · exact hsame _ _ (request_quiet _ hd).samePins hbuff
  · rw [step_tick]
    refine oneSecLoop_induct (fun p v r' _ h' => hset _ v r' h') ?_
    exact hsame r _ ⟨rfl, rfl, rfl, rfl⟩ h
  · cases ha : r.board.openTimer.armed with
    | false =>
      rw [step, openTimerExpire_idle ha]
      exact h
    | true =>
      rw [step, openTimerExpire_armed ha]
      exact hset _ _ _ (hsame r _ ⟨rfl, rfl, rfl, rfl⟩ h)

/-! ### Entries of `portsVal` -/

/-- Every entry of `portsVal` is `0` or `1`. -/
def IsBool (b : Board) : Prop := ∀ p : Fin 8, b.portsVal.get p = 0 ∨ b.portsVal.get p = 1

theorem portPinSet_isBool (n : Int32) (v : UInt8) {r : Rest} (h : IsBool r.board) :
    IsBool (portPinSet n v r).board := by
  cases hs : slot? 8 n with
  | none =>
    rw [portPinSet_none hs]
    exact h
  | some q =>
    intro p
    rw [portPinSet_portsVal hs, get_setAt]
    split
    · exact shown_eq v
    · exact h p

theorem step_isBool {r : Rest} (h : IsBool r.board) (e : Event) : IsBool (step r e).board := by
  refine step_induct (P := fun r => IsBool r.board) (fun r r' hs hi p => ?_)
    (fun n v r => portPinSet_isBool n v) h e
  rw [hs.portsVal]
  exact hi p

/-! ### The last call for a port -/

/-- Every output is as the last call of `PortPinSet` for its port left it, and `0` without one. -/
structure Recorded (r : Rest) : Prop where
  latch : ∀ p : Fin 8, r.board.latch p = (lastSet r (Int32.ofNat p)).elim false (driven p)
  portsVal : ∀ p : Fin 8, r.board.portsVal.get p = (lastSet r (Int32.ofNat p)).elim 0 shown

theorem portPinSet_recorded (n : Int32) (v : UInt8) {r : Rest} (h : Recorded r) :
    Recorded (portPinSet n v r) := by
  have hlast := lastSet_of_pinSets (portPinSet_pinSets n v r)
  cases hs : slot? 8 n with
  | none =>
    have hne : ∀ p : Fin 8, Int32.ofNat p ≠ n := by
      rintro p rfl
      rw [slot?_ofNat] at hs
      cases hs
    constructor
    · intro p
      rw [portPinSet_none hs, hlast, if_neg (hne p)]
      exact h.latch p
    · intro p
      rw [portPinSet_none hs, hlast, if_neg (hne p)]
      exact h.portsVal p
  | some q =>
    obtain rfl := eq_ofNat_of_slot hs
    constructor
    · intro p
      rw [portPinSet_latch hs, hlast]
      by_cases hp : p = q
      · simp [hp]
      · rw [if_neg hp, if_neg (mt (ofNat_inj p q).1 hp)]
        exact h.latch p
    · intro p
      rw [portPinSet_portsVal hs, get_setAt, hlast]
      by_cases hp : p = q
      · simp [hp]
      · rw [if_neg hp, if_neg (mt (ofNat_inj p q).1 hp)]
        exact h.portsVal p

/-- **Every step leaves every output as the last call left it.** -/
theorem step_recorded {r : Rest} (h : Recorded r) (e : Event) : Recorded (step r e) := by
  refine step_induct (fun r r' hs hi => ⟨fun p => ?_, fun p => ?_⟩)
    (fun n v r => portPinSet_recorded n v) h e
  · rw [hs.latch, hs.lastSet]
    exact hi.latch p
  · rw [hs.portsVal, hs.lastSet]
    exact hi.portsVal p

end Esp8266Rest.Outputs
