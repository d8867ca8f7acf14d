import Esp8266Rest.Model.Network
import Esp8266Rest.Model.Sntp
import Esp8266Rest.Model.UserMain

/-!
# The whole device

The tasks of the device and the callbacks of its stack take turns, in any order, and each runs to its end.
`Firmware` puts their models together.  The board is one, and `sntp_time` and `sntp_tz` are variables of
`sntp.c` that the board's functions read.

`network_check_ip` starts the server and the client.  The pointers that `InitializeRest` sets are not set
before, and no connection is accepted.
-/

namespace Esp8266Rest.Model

open Esp8266Rest.Lib.CStr

/-- `localPort` is `httpdTcp.local_port` once `espconn_accept` was called, and `restPtrs` says whether
`RestPtrsTable`, `PowerEvents` and `ports` are set. -/
structure Firmware where
  server : Server
  network : Network
  sntp : Sntp
  stime : UInt32
  gSec : Int32
  localPort : Option Int32
  restPtrs : Bool
  deriving DecidableEq, Repr

/-- `user_init` -/
def Firmware.boot (sector : FlashData) : Firmware :=
  let board := (userInit sector).rest.board
  { server := .fresh board, network := .boot board, sntp := .start, stime := 0, gSec := 0,
    localPort := none, restPtrs := false }

/-- What has its turn: the task of the main loop, at a time in microseconds, a callback of the server, the
timer of `doOpen`, `network_timer`, or a callback of the SNTP client, at a time in milliseconds. -/
inductive Turn where
  | loop (time : ℕ)
  | connect (arg : Ptr)
  | recv (arg : Ptr) (data : Bytes) (uninit : ℕ → ℕ → Byte)
  | sent (arg : Ptr)
  | discon (state : Ptr → ℕ)
  | recon (arg : Ptr) (err : ℤ)
  | openTimer
  | networkTimer (time : ℕ) (station : Station) (stack : Stack)
  | timeout (time : ℕ) (stack : Stack)
  | dnsFound (time : ℕ) (ipaddr : Option UInt32) (stack : Stack)
  | datagram (time : ℕ) (p : Bytes) (stack : Stack)
  | ntpTimer (time : ℕ)

namespace Firmware

def setBoard (board : Board) (f : Firmware) : Firmware :=
  { f with server := { f.server with board }, network := f.network.step (.other fun _ => board) }

def callback (e : Callback) (f : Firmware) : Firmware :=
  let server := f.server.step e
  { f with server }.setBoard server.board

def sntpCall (e : SntpEvent) (f : Firmware) : Firmware :=
  let sntp := f.sntp.step e
  { f with sntp }.setBoard
    { f.server.board with sntpTime := sntp.sntpTime, sntpTz := sntp.sntpTz }

/-- `loop` -/
def loop (time : ℕ) (f : Firmware) : Firmware :=
  let m := (Model.loop time ⟨⟨f.server.board, [], f.server.log⟩, f.stime, f.gSec⟩).1
  { f with server := { f.server with log := m.rest.log }, stime := m.stime, gSec := m.gSec }.setBoard
    m.rest.board

/-- `InitializeRest`, without what it sets up of the pins. -/
def initializeRest (f : Firmware) : Firmware := { f with restPtrs := true }

/-- `ServerInit` -/
def serverInit (port : Int32) (f : Firmware) : Firmware :=
  { f.initializeRest with localPort := some port }

/-- The calls of `network_check_ip` that are not to the SDK. -/
def perform (time : ℕ) (stack : Stack) (f : Firmware) : NetworkCall → Firmware
  | .serverInit port => f.serverInit port
  | .sntpInit tz => f.sntpCall ⟨time, .init tz stack⟩
  | _ => f

/-- `network_check_ip` -/
def check (time : ℕ) (station : Station) (stack : Stack) (f : Firmware) : Firmware :=
  let network := f.network.step (.check station)
  network.calls.foldl (perform time stack)
    { f with network, server := { f.server with board := network.board } }

def step (f : Firmware) : Turn → Firmware
  | .loop time => f.loop time
  | .connect arg => if f.localPort.isSome then f.callback (.connect arg) else f
  | .recv arg data uninit => f.callback (.recv arg data uninit)
  | .sent arg => f.callback (.sent arg)
  | .discon state => f.callback (.discon state)
  | .recon arg err => f.callback (.recon arg err)
  | .openTimer => f.callback .expire
  | .networkTimer time station stack => f.check time station stack
  | .timeout time stack => f.sntpCall ⟨time, .timeout stack⟩
  | .dnsFound time ipaddr stack => f.sntpCall ⟨time, .dnsFound ipaddr stack⟩
  | .datagram time p stack => f.sntpCall ⟨time, .recv p stack⟩
  | .ntpTimer time => f.sntpCall ⟨time, .ntpTimer⟩

end Firmware

end Esp8266Rest.Model
