import Esp8266Rest.Model.Server
import Esp8266Rest.Lib.Runs

/-!
# The device as a machine

Two machines over the functions of the source.  `step` is the board alone: an event is a request, a
tick of the scheduler or the expiry of the timer of `doOpen`.  `Server.step` adds the connection
pool: an event is one callback.  A run is a list of events, in any order.
-/

namespace Esp8266Rest.Model

open Esp8266Rest.Lib.CStr

def PowerEvent.zero : PowerEvent := ⟨⟨0, 0⟩, ⟨0, 0⟩, 0, 0, 0, .replicate 3 0⟩

/-- A record of zeros. -/
def FlashData.zero : FlashData :=
  { magic := 0, ssid := .replicate 32 0, password := .replicate 64 0,
    powerEvents := .replicate 10 .zero,
    ports := .replicate 8 ⟨0, 0, .replicate 20 0⟩, sntp := 0, serverPort := 0,
    settings := .replicate 412 0 }

/-- The device at power-on, with the record `f`: outputs low, no timer armed. -/
def Rest.start (f : FlashData) : Rest :=
  { board :=
      { flashData := f, flash := f, portsVal := .replicate 8 0, gpioOut := 0, rtcGpioOut := 0,
        openTimer := ⟨0, false⟩, sntpTime := 0, sntpTz := 0, ipStation := [] }
    sendBuff := []
    log := .empty }

/-- The expiry of `open_timer`: an armed timer fires once. -/
def openTimerExpire (r : Rest) : Rest :=
  if r.board.openTimer.armed then
    setPortToLow r.board.openTimer.arg
      { r with board := { r.board with openTimer := { r.board.openTimer with armed := false } } }
  else r

def Rest.setClock (r : Rest) (sntpTime sntpTz : Int32) : Rest :=
  { r with board := { r.board with sntpTime, sntpTz } }

/-- A tick with the clock at `sntpTime`, `sntpTz`. -/
def tick (sntpTime sntpTz : Int32) (r : Rest) : Rest := oneSecLoop (r.setClock sntpTime sntpTz)

inductive Event where
  | request (conn : Conn)
  | tick (sntpTime sntpTz : Int32)
  | expire

/-- A connection with a request for this URL. -/
def Conn.get (url : String) : Conn := ⟨0, ascii url, fun _ _ => 0⟩

/-- A request starts with an empty send buffer, that of its receive callback. -/
def step (r : Rest) : Event → Rest
  | .request conn => parseURLCommand conn { r with sendBuff := [] }
  | .tick sntpTime sntpTz => tick sntpTime sntpTz r
  | .expire => openTimerExpire r

inductive Callback where
  | connect (arg : Ptr)
  | recv (arg : Ptr) (data : Bytes) (uninit : ℕ → ℕ → Byte)
  | sent (arg : Ptr)
  | discon (state : Ptr → ℕ)
  | recon (arg : Ptr) (err : ℤ)
  | tick (sntpTime sntpTz : Int32)
  | expire

/-- A board step taken by the server; its send buffer is gone afterwards. -/
def Server.onBoard (f : Rest → Rest) (s : Server) : Server :=
  let r := f ⟨s.board, [], s.log⟩
  { s with board := r.board, log := r.log }

lemma onBoard_log (f : Rest → Rest) (s : Server) :
    (s.onBoard f).log = (f ⟨s.board, [], s.log⟩).log := rfl

@[simp] theorem onBoard_pool (f : Rest → Rest) (s : Server) : (s.onBoard f).pool = s.pool := rfl

def Server.step (s : Server) : Callback → Server
  | .connect arg => httpdConnectCb arg s
  | .recv arg data uninit => httpdRecvCb arg data uninit s
  | .sent arg => httpdSentCb arg s
  | .discon state => httpdDisconCb state s
  | .recon arg err => httpdReconCb arg err s
  | .tick sntpTime sntpTz => s.onBoard (Model.tick sntpTime sntpTz)
  | .expire => s.onBoard openTimerExpire

end Esp8266Rest.Model
