import Esp8266Rest.Model.Device

/-!
# The start of the device and its main loop (`user_main.c`)

`userInit` is `user_init` up to the call of `wifi_station_set_config`: what it makes of the flash sector,
and the station configuration it hands to the SDK.  The calls behind it set up the network and the main
loop and do not look at the record.

`loop` is the task of the main loop, which posts itself again each time it ran.  Between two of its runs
the other tasks of the device have their turn.
-/

namespace Esp8266Rest.Model

open Esp8266Rest.Lib.CStr

/-- `SSID` -/
def ssidDefault : Bytes := ascii "STRS"

/-- `SSID_PASSWORD` -/
def ssidPassword : Bytes := ascii "1011040311037"

/-- `struct station_config` of the SDK, as far as it is set. -/
structure StationConfig where
  ssid : Vector UInt8 32
  password : Vector UInt8 64
  bssidSet : UInt8
  deriving DecidableEq, Repr

/-- `stationConf` as the loader leaves it. -/
def StationConfig.zero : StationConfig := ⟨.replicate 32 0, .replicate 64 0, 0⟩

/-- `memcpy(a, text, strlen(text))` -/
def memcpy {n : ℕ} (a : Vector UInt8 n) (text : Bytes) : Vector UInt8 n :=
  bytesToVector n (text ++ a.toList.drop text.length)

/-- The device at power-on with `sector` in its flash: the record in RAM is zero. -/
def powerOn (sector : FlashData) : Rest :=
  { Rest.start .zero with board := { (Rest.start .zero).board with flash := sector } }

/-- `user_init_gpio` sets GPIO2 low; no port is on it. -/
def userInitGpio (r : Rest) : Rest :=
  { r with board := { r.board with gpioOut := gpioOutputSet 0 (bit 2) r.board.gpioOut } }

/-- What `user_init` leaves, and what it gives to `wifi_station_set_config`. -/
structure Started where
  rest : Rest
  stationConf : StationConfig
  deriving DecidableEq, Repr

/-- `user_init` -/
def userInit (sector : FlashData) : Started :=
  let r := userInitGpio (powerOn sector)
  let r := readFromFlash (r.mapFlashData initFlash)
  let f := r.board.flashData
  if f.magic ≠ magicNum then
    let stationConf :=
      { StationConfig.zero with
        ssid := memcpy StationConfig.zero.ssid ssidDefault
        password := memcpy StationConfig.zero.password ssidPassword
        bssidSet := 0 }
    let r := if f.serverPort < 0 then r.mapFlashData fun f => { f with serverPort := 80 } else r
    ⟨r, stationConf⟩
  else ⟨r, { StationConfig.zero with ssid := f.ssid, password := f.password }⟩

/-! ### The main loop -/

/-- The globals of `loop`, and the board it ticks. -/
structure MainLoop where
  rest : Rest
  stime : UInt32
  gSec : Int32
  deriving DecidableEq, Repr

/-- Both globals start at zero. -/
def MainLoop.start (r : Rest) : MainLoop := ⟨r, 0, 0⟩

/-- `system_get_time`, when `time` microseconds have passed since boot. -/
def systemGetTime (time : ℕ) : UInt32 := UInt32.ofNat time

/-- `loop`, run `time` microseconds after boot, and whether it called `OneSecLoop`. -/
def loop (time : ℕ) (m : MainLoop) : MainLoop × Bool :=
  let tmp := systemGetTime time
  if tmp - m.stime > 5000000 then
    ({ rest := oneSecLoop m.rest, stime := tmp, gSec := m.gSec + 1 }, true)
  else (m, false)

/-- What has its turn on the device: the main loop, at a time, or one of the other tasks. -/
inductive Task where
  | loop (time : ℕ)
  | clock (sntpTime sntpTz : Int32)
  | request (conn : Conn)
  | expire

def MainLoop.step (m : MainLoop) : Task → MainLoop
  | .loop time => (Model.loop time m).1
  | .clock sntpTime sntpTz => { m with rest := m.rest.setClock sntpTime sntpTz }
  | .request conn => { m with rest := Model.step m.rest (.request conn) }
  | .expire => { m with rest := Model.step m.rest .expire }

end Esp8266Rest.Model
