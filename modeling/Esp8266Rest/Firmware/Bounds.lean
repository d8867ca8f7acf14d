import Esp8266Rest.Firmware.Parts
import Esp8266Rest.Outputs.Shadow

/-!
# The arrays and buffers of the device

The tasks of the device index `portsVal`, the tables of the ports and the events with numbers from a URL
(`setpin`, `event` and others), from the record (`OneSecLoop`) and from the timer of `doOpen`.  Only the
URL can be wrong (`device_safe_iff`), and what is said of the device rests on URLs that are not.
-/

namespace Esp8266Rest.Firmware

open Esp8266Rest.Lib.CStr Esp8266Rest.Lib.Runs Esp8266Rest.Model Esp8266Rest.Url Esp8266Rest.Outputs
  Esp8266Rest.Config Esp8266Rest.Http

/-! ### The start -/

theorem userInit_allLow (sector : FlashData) : AllLow (userInit sector).rest.board := by
  have hstart := start_allLow sector
  have houtputs : outputs (userInit sector).rest.board = outputs (Rest.start sector).board := by
    have hgpio : gpioOutputSet 0 (bit 2) 0 = 0 := by decide
    have hbefore : outputs (beforeRead sector).board = outputs (Rest.start sector).board :=
      congrArg (fun gpioOut => outputs { (Rest.start sector).board with gpioOut }) hgpio
    rw [userInit_eq, ← hbefore]
    show outputs (readFromFlash (beforeRead sector)).board = _
    rw [readFromFlash_board]
    split <;> rfl
  refine ⟨fun p => ?_, fun p => ?_, ?_⟩
  · have hval : (userInit sector).rest.board.portsVal = (Rest.start sector).board.portsVal :=
      congrArg OutputState.portsVal houtputs
    rw [hval]
    exact hstart.portsVal p
  · rw [latch_congr houtputs]
    exact hstart.latch p
  · have htimer : (userInit sector).rest.board.openTimer = (Rest.start sector).board.openTimer :=
      congrArg OutputState.openTimer houtputs
    rw [htimer]
    exact hstart.idle

lemma userInit_log (sector : FlashData) : (userInit sector).rest.log = .empty := by
  rw [userInit_eq]
  exact readFromFlash_log _

theorem safeInv_userInit (sector : FlashData) : SafeInv (userInit sector).rest := by
  have hlow := userInit_allLow sector
  refine ⟨?_, fun harmed => absurd (hlow.idle.symm.trans harmed) Bool.noConfusion⟩
  rw [userInit_log]
  exact safe_empty

lemma safeInv_boot (sector : FlashData) : SafeInv (toRest (Firmware.boot sector).server) := by
  rw [toRest_boot]
  exact ⟨safe_empty, (safeInv_userInit sector).port⟩

/-- A connection is made, and port `3` is set and put into the schedule in two requests. -/
def twoRequests : List Turn :=
  [.networkTimer 0 ⟨.gotIp, 1⟩ .willing, .connect 5,
    .recv 5 (ascii "GET /setpin/3/1 HTTP/1.0\r\nGET /event/9/1/3/8:30/9:00 HTTP/1.0\r\n\r\n") fun _ _ => 0]

lemma twoRequests_turns : boardTurns .zero twoRequests =
    [.request ⟨5, ascii "/setpin/3/1", fun _ _ => 0⟩,
      .request ⟨5, ascii "/event/9/1/3/8:30/9:00", fun _ _ => 0⟩] := rfl

lemma twoRequests_proper : ∀ e ∈ boardTurns .zero twoRequests, IsProper e := by
  rw [twoRequests_turns]
  decide

/-! ### Runs -/

section Runs

variable (sector : FlashData) (ts : List Turn)

theorem device_safe (hproper : ∀ e ∈ boardTurns sector ts, IsProper e) :
    Throughout Firmware.step (fun f => Safe f.server.log) (.boot sector) ts := by
  have hinv := throughout_board sector ts (P := SafeInv) (fun _ _ h hok => step_safeInv h hok)
    (fun _ _ h => ⟨h.safe, h.port⟩) (safeInv_boot sector) hproper
  exact hinv.imp fun _ h => h.safe

/-- **No request goes beyond an array or a buffer** in any state of the device exactly if every request
that its server completed is proper, whatever the tasks do, in whatever order, and whatever the flash
held at the start. -/
theorem device_safe_iff :
    Throughout Firmware.step (fun f => Safe f.server.log) (.boot sector) ts ↔
      ∀ e ∈ boardTurns sector ts, IsProper e := by
  have hboot := safeInv_boot sector
  show Throughout Firmware.step (fun f => Safe (toRest f.server).log) (.boot sector) ts ↔ _
  refine throughout_upTo_iff (I := Coherent) (J := SafeInv) (P := fun r : Rest => Safe r.log)
    (R := fun r r' => ∃ clock, r' = setClock clock r)
    (fun _ t h => coherent_step h t) (fun _ t h => board_step h t) ?_ ?_ ?_ ?_ ?_ (coherent_boot sector) hboot
    hboot.safe ts
  · intro r e h hok
    exact step_safeInv h hok
  · intro r e h
    exact step_safe_iff h e
  · intro r e h
    exact safe_of_step h
  -- the clock and the address are in no access
  · rintro r _ ⟨clock, rfl⟩ h
    exact ⟨h.safe, h.port⟩
  · rintro r _ ⟨clock, rfl⟩
    exact Iff.rfl

end Runs

end Esp8266Rest.Firmware
