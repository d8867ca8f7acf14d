import Esp8266Rest.Http.Refine
import Esp8266Rest.Model.Firmware

/-!
# One board

The board belongs to several parts of the device: the server's handlers and the main loop work on the
record and the outputs, the SNTP client on the clock, the watchdog on the address.  None writes what is
another's (`request_clock`, `oneSecLoop_clock`), so the board's clock is the client's in every state of the
device (`coherent_run`).
-/

namespace Esp8266Rest.Firmware

open Esp8266Rest.Lib.CStr Esp8266Rest.Lib.Runs Esp8266Rest.Model Esp8266Rest.Url Esp8266Rest.Outputs
  Esp8266Rest.Http

/-! ### What the handlers leave alone -/

/-- What of the board belongs to `sntp.c` and to `network_check_ip`. -/
def clockOf (b : Board) : Int32 × Int32 × Bytes := (b.sntpTime, b.sntpTz, b.ipStation)

section Handlers

variable (conn : Conn) (r : Rest)

theorem portPinSet_clock (n : Int32) (v : UInt8) : clockOf (portPinSet n v r).board = clockOf r.board := by
  obtain ⟨_, _, _, h⟩ := portPinSet_frame n v r
  rw [h]
  rfl

theorem respondJson_clock {w : Rest} (h : clockOf w.board = clockOf r.board) (body : List Part) :
    clockOf (respondJson conn body w).board = clockOf r.board := by
  rw [respondJson_board]
  exact h

theorem readFromFlash_clock : clockOf (readFromFlash r).board = clockOf r.board := by
  unfold readFromFlash
  dsimp only
  split <;> split <;> rfl

theorem setNumber_clock (shown : String) (get : FlashData → Int32) (set : Int32 → FlashData → FlashData) :
    clockOf (setNumber shown get set conn r).board = clockOf r.board := by
  unfold setNumber
  apply respondJson_clock
  split <;> rfl

/-- **No handler writes the clock or the address.** -/
theorem handler_clock : ∀ p ∈ commands, clockOf (p.f conn r).board = clockOf r.board := by
  rw [forall_commands]
  dsimp only
  refine ⟨?_, ?_, ?_, ?_, ?_, ?_, ?_, ?_, ?_, ?_, ?_, ?_, ?_, ?_, ?_⟩
  · rw [doFlipinput_board]
    exact portPinSet_clock r _ _
  · rw [doOpen_board]
    exact portPinSet_clock r _ _
  · unfold doStatus sendPortStatus
    exact respondJson_clock conn r rfl _
  · unfold doSetWifi sendHTTPResponse
    exact respondJson_clock conn r (by simp [clockOf]) _
  · unfold doGetWifi sendHTTPResponse
    exact respondJson_clock conn r (by simpa using readFromFlash_clock r) _
  · unfold doGetEvents
    exact respondJson_clock conn r rfl _
  · unfold doSetEvent doGetEvents
    exact respondJson_clock conn r (by simp [clockOf, Rest.setEvent]) _
  · unfold doGetTime
    exact respondJson_clock conn r rfl _
  · unfold doGetPorts
    exact respondJson_clock conn r rfl _
  · unfold doSetPorts doGetPorts
    exact respondJson_clock conn r (by simp [clockOf]) _
  · unfold doInitialize
    rw [foldl_osSprintf]
    rfl
  · exact setNumber_clock conn r _ _ _
  · exact setNumber_clock conn r _ _ _
  · unfold doScanWifi
    exact respondJson_clock conn r rfl _
  · rw [doSetPin_board]
    exact portPinSet_clock r _ _

theorem request_clock : clockOf (parseURLCommand conn r).board = clockOf r.board := by
  by_cases hmem : command conn.url ∈ commandNames
  · obtain ⟨p, hp, -, heq⟩ := parseURLCommand_of_mem hmem r
    rw [heq]
    exact handler_clock conn (dispatched conn (command conn.url) r) p hp
  · rw [parseURLCommand_of_notMem hmem]
    rfl

theorem oneSecLoop_clock : clockOf (oneSecLoop r).board = clockOf r.board := by
  obtain ⟨_, _, _, h⟩ := oneSecLoop_frame r
  rw [h]
  rfl

theorem openTimerExpire_clock : clockOf (openTimerExpire r).board = clockOf r.board := by
  unfold openTimerExpire setPortToLow
  split
  · rw [portPinSet_clock]
    rfl
  · rfl

end Handlers

/-! ### What a callback leaves alone -/

/-- The callbacks that are turns of their own in the device. -/
def IsTurn : Callback → Prop
  | .tick _ _ => False
  | _ => True

/-- The events of the board that do not set its clock. -/
def KeepsClock : Event → Prop
  | .tick _ _ => False
  | _ => True

theorem step_clock {e : Event} (h : KeepsClock e) (r : Rest) : clockOf (step r e).board = clockOf r.board := by
  cases e with
  | request conn => exact request_clock conn { r with sendBuff := [] }
  | tick t tz => exact h.elim
  | expire => exact openTimerExpire_clock r

theorem run_clock {es : List Event} (h : ∀ e ∈ es, KeepsClock e) (r : Rest) :
    clockOf (run step r es).board = clockOf r.board := by
  induction es generalizing r with
  | nil => rfl
  | cons e es ih =>
    rw [run_cons, ih (fun f hf => h f (List.mem_cons_of_mem e hf)), step_clock (h e List.mem_cons_self)]

theorem boardEvents_keepsClock {e : Callback} (h : IsTurn e) (s : Server) :
    ∀ b ∈ boardEvents s e, KeepsClock b := by
  intro b hb
  cases e with
  | recv arg data uninit =>
    unfold boardEvents at hb
    dsimp only at hb
    split at hb
    · nomatch hb
    · obtain ⟨u, -, rfl⟩ := List.mem_map.1 hb
      trivial
  | tick t tz => exact h.elim
  | expire =>
    obtain rfl := List.mem_singleton.1 hb
    trivial
  | connect arg => nomatch hb
  | sent arg => nomatch hb
  | discon state => nomatch hb
  | recon arg err => nomatch hb

theorem serverStep_clock {e : Callback} (h : IsTurn e) {s : Server} (hs : Sound s.pool) :
    clockOf (s.step e).board = clockOf s.board := by
  have hrefines := step_refines s e hs
  have hboard : (s.step e).board = (run step (toRest s) (boardEvents s e)).board :=
    congrArg Rest.board hrefines
  rw [hboard, run_clock (boardEvents_keepsClock h s)]
  rfl

end Esp8266Rest.Firmware
