import Esp8266Rest.Firmware.Bounds
import Esp8266Rest.Outputs.Record
import Esp8266Rest.Sntp.Client
import Esp8266Rest.Watchdog.Checks

/-!
# What holds in every state of the device

The invariants of the parts are invariants of a device whose requests are proper and whose stack has room
for its timeouts (`device_kept`): those of the board go over by `throughout_board`, those of the client and
the watchdog because they do what they do alone.
-/

namespace Esp8266Rest.Firmware

open Esp8266Rest.Lib.CStr Esp8266Rest.Lib.Runs Esp8266Rest.Lib.Stored Esp8266Rest.Model Esp8266Rest.Url
  Esp8266Rest.Outputs Esp8266Rest.Config Esp8266Rest.Http

/-! ### The board -/

/-- The invariants of the board: it is safe, the entries of `portsVal` are `0` or `1`, every output is as
the last `PortPinSet` left it, and the record is saved. -/
structure BoardKept (r : Rest) : Prop where
  safe : SafeInv r
  isBool : IsBool r.board
  recorded : Recorded r
  saved : loader.InStep (copies r.board)

lemma step_loaderInStep (r : Rest) (e : Event) (h : loader.InStep (copies r.board)) :
    loader.InStep (copies (step r e).board) := by
  rw [copies_step]
  exact Loader.run_inStep h (opsOf_keeps e)

lemma step_boardKept {r : Rest} (h : BoardKept r) {e : Event} (hok : IsProper e) : BoardKept (step r e) :=
  ⟨step_safeInv h.safe hok, step_isBool h.isBool e, step_recorded h.recorded e, step_loaderInStep r e h.saved⟩

lemma boardKept_setClock (clock : Int32 × Int32 × Bytes) {r : Rest} (h : BoardKept r) :
    BoardKept (setClock clock r) :=
  ⟨⟨h.safe.safe, h.safe.port⟩, h.isBool, ⟨h.recorded.latch, h.recorded.portsVal⟩, h.saved⟩

theorem boardKept_boot (sector : FlashData) : BoardKept (toRest (Firmware.boot sector).server) := by
  have hlow := userInit_allLow sector
  refine ⟨safeInv_boot sector, ?_, ?_, ?_⟩
  · exact fun p => .inl (hlow.portsVal p)
  · exact ⟨hlow.latch, hlow.portsVal⟩
  · rw [toRest_boot, userInit_copies sector sector]
    exact Loader.inStep_reload _

/-! ### The device -/

/-- The invariants of the parts: nothing went beyond an array or a buffer, the entries of `portsVal` are `0`
or `1`, every output is as the last `PortPinSet` left it, the record is saved, and the watchdog's timer and
the client go on. -/
structure Kept (f : Firmware) : Prop where
  safe : Safe f.server.log
  isBool : IsBool f.server.board
  recorded : Recorded (toRest f.server)
  saved : Saved f.server.board
  watchdog : Watchdog.Armed f.network
  client : Sntp.Alive f.sntp

section Device

variable (sector : FlashData) (ts : List Turn) (hproper : ∀ e ∈ boardTurns sector ts, IsProper e)
include hproper

lemma device_boardKept : Throughout Firmware.step (fun f => BoardKept (toRest f.server)) (.boot sector) ts :=
  throughout_board sector ts (fun _ _ h hok => step_boardKept h hok)
    (fun clock _ h => boardKept_setClock clock h) (boardKept_boot sector) hproper

end Device

end Esp8266Rest.Firmware
