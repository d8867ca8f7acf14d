import Esp8266Rest.Lib.CStr
import Esp8266Rest.Lib.Timeouts

/-!
# The SNTP client (`sntp.c`)

The client runs in callbacks of the network stack: a timeout that it set, the end of a name lookup, a
datagram.  What the stack answers to the calls of a callback is a `Stack`.  A `time_t` is a word of 32 bits.

The build has one server, names for addresses and no check of the sender (`SNTP_CHECK_RESPONSE` is 0), so
`sntp_try_next_server` is `sntp_retry`.

The timers are those of the network stack, which is not part of the repository: the timeouts expire in
the order in which they are due, `sys_untimeout` removes the first one with its function, and a
`sys_timeout` that finds no room for its entry sets nothing.
-/

namespace Esp8266Rest.Model

open Esp8266Rest.Lib.CStr Esp8266Rest.Lib.Timeouts

def sntpPort : ℕ := 123

/-- `SNTP_RECV_TIMEOUT` -/
def sntpRecvTimeout : UInt32 := 3000

/-- `SNTP_RETRY_TIMEOUT` -/
def sntpRetryTimeout : UInt32 := sntpRecvTimeout

/-- `SNTP_RETRY_TIMEOUT_MAX` -/
def sntpRetryTimeoutMax : UInt32 := sntpRetryTimeout * 10

/-- `SNTP_UPDATE_DELAY` -/
def sntpUpdateDelay : UInt32 := 3600000

def sntpMsgLen : ℕ := 48

def sntpVersion : UInt8 := (4 : UInt8) <<< 3

def sntpModeMask : UInt8 := 0x07

def sntpModeClient : UInt8 := 0x03

def sntpModeServer : UInt8 := 0x04

def sntpModeBroadcast : UInt8 := 0x05

def sntpOffsetLiVnMode : ℕ := 0

def sntpOffsetStratum : ℕ := 1

def sntpStratumKod : UInt8 := 0x00

def sntpOffsetReceiveTime : ℕ := 32

/-- `DIFF_SEC_1900_1970` -/
def diffSec1900To1970 : UInt32 := 2208988800

/-! ### The state -/

/-- The functions that are given to `sys_timeout`. -/
inductive SntpHandler where
  | sntpRequest | sntpRetry
  deriving DecidableEq, Repr

/-- What the client did: a call of `dns_gethostbyname`, a datagram, a run of `sntp_retry`, a run of
`sntp_process`. -/
inductive SntpAct where
  | lookup
  | send (addr : UInt32) (port : ℕ) (p : Bytes)
  | retry (ms : UInt32)
  | process (t : Int32)
  deriving DecidableEq, Repr

/-- `now` is the time since boot in milliseconds, `lookups` counts the lookups that wait for
`sntp_dns_found`, and `ntpTimer` says whether `ntp_timer` is armed.  `acts` is not part of the device: it
lists what the client did, and when. -/
structure Sntp where
  now : ℕ
  sntpTime : Int32
  sntpTz : Int32
  sntpPcb : Bool
  sntpRetryTimeout : UInt32
  ntpTimer : Bool
  timeouts : List (Timeout SntpHandler)
  lookups : ℕ
  acts : List (ℕ × SntpAct)
  deriving DecidableEq, Repr

/-- The client as the loader leaves it. -/
def Sntp.start : Sntp :=
  { now := 0, sntpTime := 0, sntpTz := 0, sntpPcb := false, sntpRetryTimeout := 0, ntpTimer := false,
    timeouts := [], lookups := 0, acts := [] }

/-- The answer of `dns_gethostbyname`: `ERR_OK`, `ERR_INPROGRESS` or another error. -/
inductive DnsErr where
  | ok (addr : UInt32)
  | inProgress
  | other
  deriving DecidableEq, Repr

/-- The answers of `udp_new`, `dns_gethostbyname` and `pbuf_alloc`, and whether `sys_timeout` finds room for
an entry.  No function below calls one of them twice. -/
structure Stack where
  udpNew : Bool
  dns : DnsErr
  pbufAlloc : Bool
  room : Bool
  deriving DecidableEq, Repr

/-- A stack that gives what it is asked for. -/
def Stack.willing : Stack := ⟨true, .ok 1, true, true⟩

/-- A stack that knows no names. -/
def Stack.nameless : Stack := ⟨true, .other, true, true⟩

def Sntp.act (a : SntpAct) (s : Sntp) : Sntp := { s with acts := s.acts ++ [(s.now, a)] }

def sysTimeout (stack : Stack) (msecs : UInt32) (handler : SntpHandler) (s : Sntp) : Sntp :=
  { s with timeouts :=
      if stack.room then put ⟨s.now + msecs.toNat, handler⟩ s.timeouts else s.timeouts }

def sysUntimeout (handler : SntpHandler) (s : Sntp) : Sntp :=
  { s with timeouts := cancel handler s.timeouts }

/-! ### Requests -/

/-- `sntp_initialize_request` -/
def sntpInitializeRequest : Bytes :=
  (List.replicate sntpMsgLen 0).set sntpOffsetLiVnMode (0x00 ||| sntpVersion ||| sntpModeClient)

/-- `sntp_retry` -/
def sntpRetry (stack : Stack) (s : Sntp) : Sntp :=
  let s := sysTimeout stack s.sntpRetryTimeout .sntpRequest (s.act (.retry s.sntpRetryTimeout))
  let newRetryTimeout := s.sntpRetryTimeout <<< 1
  if newRetryTimeout ≤ sntpRetryTimeoutMax ∧ newRetryTimeout > s.sntpRetryTimeout then
    { s with sntpRetryTimeout := newRetryTimeout }
  else s

/-- `sntp_send_request` -/
def sntpSendRequest (stack : Stack) (serverAddr : UInt32) (s : Sntp) : Sntp :=
  if stack.pbufAlloc then
    sysTimeout stack sntpRecvTimeout .sntpRetry
      (s.act (.send serverAddr sntpPort sntpInitializeRequest))
  else sysTimeout stack sntpRetryTimeout .sntpRequest s

/-- `sntp_dns_found` -/
def sntpDnsFound (stack : Stack) (ipaddr : Option UInt32) (s : Sntp) : Sntp :=
  match ipaddr with
  | some addr => sntpSendRequest stack addr s
  | none => sntpRetry stack s

/-- `sntp_request` -/
def sntpRequest (stack : Stack) (s : Sntp) : Sntp :=
  let s := s.act .lookup
  match stack.dns with
  | .inProgress => { s with lookups := s.lookups + 1 }
  | .ok addr => sntpSendRequest stack addr s
  | .other => sysTimeout stack sntpRetryTimeout .sntpRetry s

/-- `sntp_init` -/
def sntpInit (tz : Int32) (stack : Stack) (s : Sntp) : Sntp :=
  let s := { s with sntpTz := tz }
  if s.sntpPcb then s
  else
    let s := { s with sntpRetryTimeout }
    if stack.udpNew then sntpRequest stack { s with sntpPcb := true } else s

/-! ### Responses -/

/-- A word in network order. -/
def ntohl (b : Bytes) : UInt32 := UInt32.ofNat (b.foldl (fun n x => 256 * n + x.toNat) 0)

/-- `ERR_ARG`, `SNTP_ERR_KOD` -/
inductive SntpErr where
  | arg | kod
  deriving DecidableEq, Repr

/-- What `sntp_recv` makes of a datagram: the bytes of its receive timestamp, or why it is not used. -/
def sntpCheck (p : Bytes) : Except SntpErr Bytes :=
  if p.length = sntpMsgLen then
    let mode := p.getD sntpOffsetLiVnMode 0 &&& sntpModeMask
    if mode = sntpModeServer ∨ mode = sntpModeBroadcast then
      let stratum := p.getD sntpOffsetStratum 0
      if stratum = sntpStratumKod then .error .kod else .ok ((p.drop sntpOffsetReceiveTime).take 4)
    else .error .arg
  else .error .arg

/-- The time that `sntp_process` sets. -/
def unixTime (receiveTimestamp : Bytes) : Int32 := (ntohl receiveTimestamp - diffSec1900To1970).toInt32

/-- `sntp_process` -/
def sntpProcess (receiveTimestamp : Bytes) (s : Sntp) : Sntp :=
  let t := unixTime receiveTimestamp
  { s.act (.process t) with sntpTime := t, ntpTimer := true }

/-- `sntp_recv` -/
def sntpRecv (stack : Stack) (p : Bytes) (s : Sntp) : Sntp :=
  let s := sysUntimeout .sntpRequest (sysUntimeout .sntpRetry s)
  match sntpCheck p with
  | .ok receiveTimestamp =>
    sysTimeout stack sntpUpdateDelay .sntpRequest (sntpProcess receiveTimestamp { s with sntpRetryTimeout })
  | .error .kod => sntpRetry stack s
  | .error .arg => sntpRetry stack s

/-- `ntp_time_update` -/
def ntpTimeUpdate (s : Sntp) : Sntp := { s with sntpTime := s.sntpTime + 1 }

/-! ### Runs -/

/-- What the stack and the rest of the device call: `sntp_init`, the function of the first timeout,
`sntp_dns_found` for a lookup that waits, `sntp_recv` once it is registered, the function of an armed
`ntp_timer`. -/
inductive SntpCall where
  | init (tz : Int32) (stack : Stack)
  | timeout (stack : Stack)
  | dnsFound (ipaddr : Option UInt32) (stack : Stack)
  | recv (p : Bytes) (stack : Stack)
  | ntpTimer
  deriving DecidableEq, Repr

def SntpHandler.run (stack : Stack) : SntpHandler → Sntp → Sntp
  | .sntpRequest => Model.sntpRequest stack
  | .sntpRetry => Model.sntpRetry stack

def Sntp.call (s : Sntp) : SntpCall → Sntp
  | .init tz stack => sntpInit tz stack s
  | .timeout stack =>
    match s.timeouts with
    | [] => s
    | t :: timeouts => t.handler.run stack { s with timeouts }
  | .dnsFound ipaddr stack =>
    if s.lookups = 0 then s else sntpDnsFound stack ipaddr { s with lookups := s.lookups - 1 }
  | .recv p stack => if s.sntpPcb then sntpRecv stack p s else s
  | .ntpTimer => if s.ntpTimer then ntpTimeUpdate s else s

/-- A call, and the time at which it is made. -/
structure SntpEvent where
  time : ℕ
  call : SntpCall
  deriving DecidableEq, Repr

def Sntp.step (s : Sntp) (e : SntpEvent) : Sntp := { s with now := e.time }.call e.call

theorem Sntp.step_timeout {s : Sntp} {e : SntpEvent} {stack : Stack} {t : Timeout SntpHandler}
    {timeouts : List (Timeout SntpHandler)} (hcall : e.call = .timeout stack)
    (hts : s.timeouts = t :: timeouts) :
    s.step e = t.handler.run stack { s with now := e.time, timeouts } := by
  unfold Sntp.step Sntp.call
  rw [hcall]
  simp only [hts]

/-- What a step does, case by case. -/
theorem Sntp.step_cases {P : Sntp → Prop} (s : Sntp) (e : SntpEvent)
    (still : P { s with now := e.time })
    (init : ∀ tz stack, e.call = .init tz stack → P (sntpInit tz stack { s with now := e.time }))
    (timeout : ∀ stack t timeouts, e.call = .timeout stack → s.timeouts = t :: timeouts →
      P (t.handler.run stack { s with now := e.time, timeouts }))
    (dnsFound : ∀ ipaddr stack, e.call = .dnsFound ipaddr stack → s.lookups ≠ 0 →
      P (sntpDnsFound stack ipaddr { s with now := e.time, lookups := s.lookups - 1 }))
    (recv : ∀ p stack, e.call = .recv p stack → s.sntpPcb = true →
      P (sntpRecv stack p { s with now := e.time }))
    (ntpTimer : e.call = .ntpTimer → s.ntpTimer = true → P (ntpTimeUpdate { s with now := e.time })) :
    P (s.step e) := by
  obtain ⟨time, call⟩ := e
  cases call with
  | init tz stack => exact init tz stack rfl
  | timeout stack =>
    unfold Sntp.step Sntp.call
    dsimp only
    split
    · exact still
    · rename_i t timeouts hts
      exact timeout stack t timeouts rfl hts
  | dnsFound ipaddr stack =>
    unfold Sntp.step Sntp.call
    dsimp only
    split
    · exact still
    · rename_i hlookups
      exact dnsFound ipaddr stack rfl hlookups
  | recv p stack =>
    unfold Sntp.step Sntp.call
    dsimp only
    split
    · rename_i hpcb
      exact recv p stack rfl hpcb
    · exact still
  | ntpTimer =>
    unfold Sntp.step Sntp.call
    dsimp only
    split
    · rename_i harmed
      exact ntpTimer rfl harmed
    · exact still

end Esp8266Rest.Model
