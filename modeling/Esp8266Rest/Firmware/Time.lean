import Esp8266Rest.Clock.Printed
import Esp8266Rest.Clock.Zone
import Esp8266Rest.Firmware.Kept
import Esp8266Rest.Firmware.Settings
import Esp8266Rest.Outputs.Schedule
import Esp8266Rest.Sntp.Clock

/-!
# From the time server to the outputs

The client takes the second out of a response, `ntp_timer` counts on from it, the last connected check has
set the zone, and `OneSecLoop` switches the ports by what this comes to.  `Answered` is a run with a
response, and `Answered.localSecond` the local second after it; this is what the device's clock shows, and
what the next `OneSecLoop` goes by (`switched_by_clock`).
-/

namespace Esp8266Rest.Firmware

open Esp8266Rest.Lib.CStr Esp8266Rest.Lib.Runs Esp8266Rest.Lib.Circle Esp8266Rest.Model Esp8266Rest.Url
  Esp8266Rest.Outputs Esp8266Rest.Http Esp8266Rest.Clock Esp8266Rest.Sntp

/-! ### A run with a response -/

/-- A run of the device whose requests are proper, with the last response that the client accepted in it. -/
structure Answered (sector : FlashData) where
  before : List Turn
  time : ℕ
  m : SntpMsg
  stack : Stack
  second : ℕ
  after : List Turn
  proper : ∀ e ∈ boardTurns sector (before ++ .datagram time m.bytes stack :: after), IsProper e
  socket : (run Firmware.step (.boot sector) before).sntp.sntpPcb = true
  accepted : m.Accepted
  stamp : m.receiveTimestamp.1 = stampOf second
  last : ∀ e ∈ projected Firmware.step sntpEvents
    ((run Firmware.step (.boot sector) before).step (.datagram time m.bytes stack)) after, response? e = none

namespace Answered

variable {sector : FlashData} (a : Answered sector)

def turns : List Turn := a.before ++ .datagram a.time a.m.bytes a.stack :: a.after

/-- The device at the end. -/
def device : Firmware := run Firmware.step (.boot sector) a.turns

/-- How often `ntp_timer` expired since the response. -/
def ticks : ℕ := Sntp.ticks (projected Firmware.step sntpEvents
  ((run Firmware.step (.boot sector) a.before).step (.datagram a.time a.m.bytes a.stack)) a.after)

/-- The zone of the last connected check. -/
def zone : Int32 := (projected Firmware.step zonesGiven (.boot sector) a.turns).getLastD 0

def localSecond : ℤ := a.second + a.ticks + 3600 * a.zone.toInt

/-! ### The clock -/

theorem sntpTime_eq : a.device.server.board.sntpTime = Int32.ofNat (a.second + a.ticks) := by
  have hcoherent := coherent_run sector a.turns
  have hset := clock_response a.socket (response_of_accepted a.time a.stack a.accepted a.stamp)
  have htime : ((run Firmware.step (.boot sector) a.before).sntp.step
      ⟨a.time, .recv a.m.bytes a.stack⟩).sntpTime = Int32.ofNat a.second := congrArg Prod.fst hset
  have hon : ((run Firmware.step (.boot sector) a.before).sntp.step
      ⟨a.time, .recv a.m.bytes a.stack⟩).ntpTimer = true := congrArg Prod.snd hset
  have hrun := run_sntp ((run Firmware.step (.boot sector) a.before).step
    (.datagram a.time a.m.bytes a.stack)) a.after
  have hsntp : a.device.sntp.sntpTime = Int32.ofNat a.second + Int32.ofNat a.ticks := by
    unfold device turns
    rw [run_append, run_cons, hrun]
    rw [← htime]
    exact clock_of_armed hon a.last
  rw [Int32.ofNat_add, ← hsntp]
  exact hcoherent.time

lemma sntpTz_eq : a.device.server.board.sntpTz = a.zone := by
  obtain ⟨-, hzone⟩ := settings_run (coherent_boot sector) a.turns
  exact (coherent_run sector a.turns).tz.trans hzone

theorem localEpoch_eq (h : 0 ≤ a.localSecond ∧ a.localSecond < 2 ^ 32) :
    (localEpoch a.device.server.board.sntpTime a.device.server.board.sntpTz : ℤ) = a.localSecond := by
  have hbmod : (Int32.ofNat (a.second + a.ticks)).toInt = Int.bmod (a.second + a.ticks : ℕ) (2 ^ 32) :=
    Int32.toInt_ofNat
  rw [Clock.localEpoch_eq, a.sntpTime_eq, a.sntpTz_eq, Clock.localSecond, hbmod]
  unfold localSecond at h ⊢
  rw [Int.bmod_def]
  split <;> omega

/-! ### The outputs -/

theorem oneSecLoop_on {r : Rest} (hbool : IsBool r.board) (htimes : HasTimes r.board) (p : Fin 8) :
    (oneSecLoop r).board.portsVal.get p = 1 ↔
      r.board.portsVal.get p = 1 ∨ InWindow (events r.board) p r.board.curr := by
  rw [oneSecLoop_portsVal (hbool p)]
  exact foldl_eventStep (localTime_isTime _ _) htimes _ p

/-- **The loop of the device**, when more than five seconds have passed. -/
theorem loop_on {f : Firmware} {time : ℕ} (hcall : systemGetTime time - f.stime > 5000000)
    (hbool : IsBool f.server.board) (htimes : HasTimes f.server.board) (p : Fin 8) :
    (f.step (.loop time)).server.board.portsVal.get p = 1 ↔
      f.server.board.portsVal.get p = 1 ∨
        InWindow (events f.server.board) p (localTime f.server.board.sntpTime f.server.board.sntpTz) := by
  have hloop : Model.loop time ⟨toRest f.server, f.stime, f.gSec⟩ =
      ({ rest := oneSecLoop (toRest f.server), stime := systemGetTime time, gSec := f.gSec + 1 }, true) :=
    if_pos hcall
  have hboard : (f.step (.loop time)).server.board =
      (Model.loop time ⟨toRest f.server, f.stime, f.gSec⟩).1.rest.board := rfl
  have hon := oneSecLoop_on (r := toRest f.server) hbool htimes p
  have hrest : (f.step (.loop time)).server.board = (oneSecLoop (toRest f.server)).board := by
    rw [hboard, hloop]
  rw [hrest, hon]
  rfl

end Answered

/-- A response, one tick later, in zone `3`. -/
def firstResponse : Answered .zero where
  before := [.networkTimer 0 ⟨.gotIp, 1⟩ .willing]
  time := 20
  m := { liVnMode := 0x24, stratum := 1, poll := 0, precision := 0, rootDelay := 0, rootDispersion := 0,
         referenceIdentifier := 0, referenceTimestamp := (0, 0), originateTimestamp := (0, 0),
         receiveTimestamp := (stampOf 1700000000, 0), transmitTimestamp := (0, 0) }
  stack := .nameless
  second := 1700000000
  after := [.ntpTimer 1020]
  proper := nofun
  socket := rfl
  accepted := by decide
  stamp := rfl
  last := by
    intro e he
    obtain rfl := List.mem_singleton.1 he
    rfl

end Esp8266Rest.Firmware
