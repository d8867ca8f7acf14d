import Esp8266Rest.Model.Device

/-!
# The network watchdog (`user_main.c`)

`network_check_ip` runs when the one-shot `network_timer` expires, and arms it again.  What it calls in the
SDK and in `server.c` is listed; texts that it only prints are left out.
-/

namespace Esp8266Rest.Model

open Esp8266Rest.Lib.CStr

/-- `wifi_station_get_connect_status` -/
inductive StationStatus where
  | idle | connecting | wrongPassword | noApFound | connectFail | gotIp
  deriving DecidableEq, Repr

/-- The station as a check finds it: its status and the address of `wifi_get_ip_info`. -/
structure Station where
  status : StationStatus
  addr : UInt32
  deriving DecidableEq, Repr

/-- The functions that are set on `network_timer`. -/
inductive TimerFunc where
  | networkCheckIp
  deriving DecidableEq, Repr

/-- `network_timer`, armed for a number of milliseconds. -/
structure NetworkTimer where
  func : Option TimerFunc
  armed : Option ℕ
  deriving DecidableEq, Repr

inductive NetworkCall where
  | serverInit (port : Int32)
  | initmDNS (addr : UInt32)
  | sntpInit (tz : Int32)
  | osTimerArm (ms : ℕ)
  | wifiStationDisconnect
  | wifiStationConnect
  deriving DecidableEq, Repr

/-- A call of `network_check_ip`: whether it found an IP, and what it called. -/
structure Check where
  gotIp : Bool
  calls : List NetworkCall
  deriving DecidableEq, Repr

/-- `checks` is not part of the device: it lists the calls of `network_check_ip`, and `calls` what the
latest of them called. -/
structure Network where
  board : Board
  counter : Int32
  networkTimer : NetworkTimer
  calls : List NetworkCall
  checks : List Check
  deriving DecidableEq, Repr

def Network.call (c : NetworkCall) (n : Network) : Network := { n with calls := n.calls ++ [c] }

def Network.osTimerDisarm (n : Network) : Network :=
  { n with networkTimer := { n.networkTimer with armed := none } }

def Network.osTimerSetfn (func : TimerFunc) (n : Network) : Network :=
  { n with networkTimer := { n.networkTimer with func := some func } }

def Network.osTimerArm (ms : ℕ) (n : Network) : Network :=
  { n with networkTimer := { n.networkTimer with armed := some ms } }.call (.osTimerArm ms)

/-- `IP2STR` in `%d.%d.%d.%d`; the lowest byte is the first number. -/
def ipText (addr : UInt32) : Bytes :=
  decimal addr.toUInt8.toNat ++ ascii "." ++ decimal (addr >>> 8).toUInt8.toNat ++ ascii "." ++
    decimal (addr >>> 16).toUInt8.toNat ++ ascii "." ++ decimal (addr >>> 24).toUInt8.toNat

/-- The station has an IP. -/
def Station.hasIp (s : Station) : Bool := s.status = .gotIp ∧ s.addr ≠ 0

/-- `network_check_ip` -/
def networkCheckIp (s : Station) (n : Network) : Network :=
  let n := n.osTimerDisarm
  if s.hasIp then
    let n := { n with board := { n.board with ipStation := ipText s.addr } }
    let n := n.call (.serverInit n.board.flashData.serverPort)
    let n := n.call (.initmDNS s.addr)
    let n := n.call (.sntpInit n.board.flashData.sntp)
    n.osTimerArm (10 * 60 * 1000)
  else
    let n := { n with counter := n.counter + 1 }
    if n.counter < 30 then (n.osTimerSetfn .networkCheckIp).osTimerArm 1000
    else
      let n := n.call .wifiStationDisconnect
      let n := n.call (.serverInit n.board.flashData.serverPort)
      let n := n.osTimerArm (2 * 60 * 1000)
      let n := n.call .wifiStationConnect
      { n with counter := 0 }

/-- `network_init` -/
def networkInit (n : Network) : Network :=
  (n.osTimerDisarm.osTimerSetfn .networkCheckIp).osTimerArm 1000

/-- `user_init` ends with `network_init`. -/
def Network.boot (board : Board) : Network :=
  networkInit { board, counter := 0, networkTimer := ⟨none, none⟩, calls := [], checks := [] }

/-- The timer expires and its function runs, or anything else runs, that leaves the watchdog alone. -/
inductive NetworkEvent where
  | check (s : Station)
  | other (f : Board → Board)

def Network.step (n : Network) : NetworkEvent → Network
  | .check s =>
    let n' := networkCheckIp s { n with calls := [] }
    { n' with checks := n.checks ++ [⟨s.hasIp, n'.calls⟩] }
  | .other f => { n with board := f n.board }

/-- The fallback: reconnect, with the server on and the next check in two minutes. -/
def Check.fellBack (c : Check) : Bool :=
  match c.calls with
  | [.wifiStationDisconnect, .serverInit _, .osTimerArm ms, .wifiStationConnect] => ms = 2 * 60 * 1000
  | _ => false

end Esp8266Rest.Model
