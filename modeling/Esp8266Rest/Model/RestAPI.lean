import Esp8266Rest.Model.Respond

/-!
# The request handlers and the scheduler (`RestAPI.c`, flash access of `user_main.c`)

A handler takes the connection, of which it reads the URL, and the state it works on.  Nothing but
`InitializeRest` assigns the pointers `PowerEvents` and `ports` of the source, which point into
`flashData` when a handler runs, so the model writes to `flashData` itself.  `os_printf` and the empty
`ThingSpeak()` are left out, and so are the accesses that only repeat one to the same element.
-/

namespace Esp8266Rest.Model

open Esp8266Rest.Lib.CStr

/-! ### The record in RAM and in flash -/

def Rest.mapFlashData (r : Rest) (f : FlashData → FlashData) : Rest :=
  { r with board := { r.board with flashData := f r.board.flashData } }

@[simp] theorem mapFlashData_board (r : Rest) (f : FlashData → FlashData) :
    (r.mapFlashData f).board = { r.board with flashData := f r.board.flashData } := rfl

@[simp] theorem mapFlashData_log (r : Rest) (f : FlashData → FlashData) :
    (r.mapFlashData f).log = r.log := rfl

/-- The first `n` bytes of memory, as an array. -/
def bytesToVector (n : ℕ) (m : Bytes) : Vector UInt8 n := Vector.ofFn fun i => m.getD i 0

/-- `strncpy(name, text, 20)` -/
def portName (text : Bytes) : Vector UInt8 20 := bytesToVector 20 (strncpy 20 text)

/-- `flash_write` -/
def flashWrite (r : Rest) : Rest := { r with board := { r.board with flash := r.board.flashData } }

@[simp] theorem flashWrite_board (r : Rest) :
    (flashWrite r).board = { r.board with flash := r.board.flashData } := rfl

@[simp] theorem flashWrite_log (r : Rest) : (flashWrite r).log = r.log := rfl

/-- `initFlash` -/
def initFlash (f : FlashData) : FlashData :=
  { f with
    magic := magicNum
    ports := (f.ports.set 0
      { portPinNumber := 5, type := portOutput, portName := portName (ascii "output1") }).set 1
      { portPinNumber := 0, type := portOutput, portName := portName (ascii "output2") }
    sntp := 3
    serverPort := 80 }

/-- `ReadFromFlash`: a sector without the magic number is replaced by `initFlash` of what was read. -/
def readFromFlash (r : Rest) : Rest :=
  let r := r.mapFlashData fun f => { f with magic := 0 }
  let r := r.mapFlashData fun _ => r.board.flash
  let r := if r.board.flashData.magic ≠ magicNum then flashWrite (r.mapFlashData initFlash) else r
  if r.board.flashData.serverPort = 0 then r.mapFlashData fun f => { f with serverPort := 80 } else r

@[simp] theorem readFromFlash_log (r : Rest) : (readFromFlash r).log = r.log := by
  unfold readFromFlash
  dsimp only
  split <;> split <;> rfl

/-! ### The scheduler -/

def isTimeInside (start fin current : Time) : Bool :=
  let startSec := start.hour * 60 + start.min
  let endSec := fin.hour * 60 + fin.min
  let currSec := current.hour * 60 + current.min
  let diff := endSec - startSec
  let diffCur := currSec - startSec
  let diff := if diff < 0 then diff + 24 * 60 else diff
  let diffCur := if diffCur < 0 then diffCur + 24 * 60 else diffCur
  decide (0 < diff - diffCur)

/-- One turn of the event loop on the scratch copy `portsValtmp`. -/
def eventStep (curr : Time) (portsValtmp : Vector UInt8 8) (e : PowerEvent) : Vector UInt8 8 :=
  if e.active ≠ 0 then
    match slot? 8 e.port with
    | some p =>
      if isTimeInside e.startTime e.endTime curr then setAt portsValtmp p 1
      else if portsValtmp.get p ≠ 1 then setAt portsValtmp p 0
      else portsValtmp
    | none => portsValtmp
  else portsValtmp

/-- One turn of the output loop. -/
def outputStep (portsValtmp : Vector UInt8 8) (r : Rest) (i : Fin 8) : Rest :=
  if r.board.portsVal.get i ≠ portsValtmp.get i then
    let v : UInt8 := if portsValtmp.get i ≠ 0 then 1 else 0
    let r := { r with board := { r.board with portsVal := setAt r.board.portsVal i v } }
    portPinSet (Int32.ofNat i) v r
  else r

/-- The hour and minute that `OneSecLoop` schedules by, from the clock. -/
def localTime (sntpTime sntpTz : Int32) : Time :=
  let now := now sntpTime sntpTz
  { hour := Int32.ofNat now.hour.toNat, min := Int32.ofNat now.min.toNat }

def Board.curr (b : Board) : Time := localTime b.sntpTime b.sntpTz

def oneSecLoop (r : Rest) : Rest :=
  let portsValtmp := r.board.flashData.powerEvents.toList.foldl (eventStep r.board.curr)
    r.board.portsVal
  (List.finRange 8).foldl (outputStep portsValtmp) r

/-! ### Bodies of the responses -/

/-- Parts with a comma between them. -/
def commaSep : List (List Part) → List Part
  | [] => []
  | [p] => p
  | p :: ps => p ++ .lit (ascii ",") :: commaSep ps

/-- `%s GMT%s%02d` of the clock. -/
def clockText (b : Board) : Bytes :=
  epochToStr (localEpoch b.sntpTime b.sntpTz) ++ ascii " GMT" ++
    (if 0 < b.sntpTz then ascii "+" else []) ++ decimal02 b.sntpTz.toInt

/-- The ports with their values, each formatted into a buffer of `cap` bytes. -/
def portStatusBody (cap : ℕ) (b : Board) : List Part :=
  .lit (ascii "\x7b\"ports\":\x7b") :: commaSep ((List.finRange 8).map fun i : Fin 8 =>
    [.fmt cap (ascii "\"" ++ b.flashData.portNameStr i ++ ascii "\":\"" ++
      decimal (b.portsVal.get i).toNat ++ ascii "\"")]) ++ [.lit (ascii "\x7d\x7d")]

def portsInfoBody (b : Board) : List Part :=
  .lit (ascii "\x7b\"PortsInfo\":[") :: commaSep ((List.finRange 8).map fun i : Fin 8 =>
    [.fmt 50 (ascii "\x7b\"Name\":\"" ++ b.flashData.portNameStr i ++ ascii "\", \"Type\":\"" ++
      decimal (b.flashData.ports.get i).type.toInt ++ ascii "\", \"PinNum\":\"" ++
      decimal (b.flashData.ports.get i).portPinNumber.toInt ++ ascii "\"\x7d")]) ++ [.lit (ascii "]\x7d")]

/-- `"name":"value",` -/
def eventField (name : String) (value : ℤ) : Part :=
  .fmt 200 (ascii "\"" ++ ascii name ++ ascii "\":\"" ++ decimal value ++ ascii "\",")

def eventBody (i : ℕ) (e : PowerEvent) : List Part :=
  [.fmt 200 (ascii "\x7b\"id\":\"" ++ decimal i ++ ascii "\","),
    eventField "Active" e.active.toNat, eventField "input" e.port.toInt,
    eventField "Interval" e.daysRepeat.toInt,
    .fmt 200 (ascii "\"Start\":\"" ++ decimal2 e.startTime.hour.toInt ++ ascii ":" ++
      decimal2 e.startTime.min.toInt ++ ascii "\","),
    .fmt 200 (ascii "\"End\":\"" ++ decimal2 e.endTime.hour.toInt ++ ascii ":" ++
      decimal2 e.endTime.min.toInt ++ ascii "\"\x7d")]

def eventsBody (b : Board) : List Part :=
  .lit (ascii "\x7b\"Events\":[") :: commaSep ((List.finRange 10).map fun i : Fin 10 =>
    eventBody i (b.flashData.powerEvents.get i)) ++ [.lit (ascii "]\x7d")]

/-- One number under one name, formatted into a buffer of `10` bytes. -/
def numberBody (name : String) (value : Int32) : List Part :=
  [.lit (ascii "\x7b\"" ++ ascii name ++ ascii "\":"),
    .fmt 10 (ascii "\"" ++ decimal value.toInt ++ ascii "\""), .lit (ascii "\x7d")]

/-! ### Handlers that only answer -/

abbrev Handler := Conn → Rest → Rest

def doGetTime : Handler := fun conn r =>
  respondJson conn
    [.lit (ascii "\x7b\"time\":\x7b"), .fmt 50 (clockText r.board ++ ascii "\""),
      .lit (ascii "\x7d\x7d")] r

def doGetPorts : Handler := fun conn r => respondJson conn (portsInfoBody r.board) r

def sendPortStatus : Handler := fun conn r => respondJson conn (portStatusBody 200 r.board) r

def doStatus : Handler := sendPortStatus

def doScanWifi : Handler := fun conn r => respondJson conn (portStatusBody 50 r.board) r

def doGetEvents : Handler := fun conn r => respondJson conn (eventsBody r.board) r

def doGetWifi : Handler := fun conn r =>
  let r := readFromFlash r
  let f := r.board.flashData
  let buff := ascii "\x7b'ssid':'" ++ f.ssidStr ++ ascii "', 'pass':'" ++
    f.passwordStr ++ ascii "', 'IP':'" ++ r.board.ipStation ++
    ascii "', Port:'" ++ decimal f.serverPort.toInt ++ ascii "'\x7d"
  sendHTTPResponse conn buff (osSprintf 256 buff r)

/-! ### Handlers that set something -/

/-- Sends nothing.  The loop over the ports formats each name into `tmp[20]` first. -/
def doInitialize : Handler := fun _ r =>
  let r := (List.finRange 8).foldl
    (fun r i => osSprintf 20 (ascii "Output" ++ decimal (i : ℕ)) r) r
  let r := r.mapFlashData fun f =>
    { f with
      sntp := 3
      serverPort := 80
      ports := Vector.ofFn fun i =>
        { portPinNumber := portPinNumber.get i, type := portOutput,
          portName := portName (ascii "Output" ++ decimal (i : ℕ)) }
      powerEvents := f.powerEvents.map fun e =>
        { e with active := 0, port := 0, startTime := ⟨0, 0⟩, endTime := ⟨0, 0⟩ } }
  flashWrite r

def doSetPorts : Handler := fun conn r =>
  let tmp := getValue (conn.buffer 0 120) conn.url slash 2
  let r := r.noteCopy tmp
  let idx := atoi tmp.str
  let tmp := getValue tmp.param conn.url slash 3
  let r := r.noteCopy tmp
  let r := r.access .ports idx
  let r := r.mapFlashData fun f =>
    { f with ports := modifyAt f.ports idx fun p => { p with portName := portName tmp.str } }
  doGetPorts conn (flashWrite r)

/-- A number that is set when the URL has it, and reported: `doSNTP` and `doWifiport`. -/
def setNumber (name : String) (get : FlashData → Int32) (set : Int32 → FlashData → FlashData) :
    Handler := fun conn r =>
  let tmp := getValue (conn.buffer 0 10) conn.url slash 2
  let r := r.noteCopy tmp
  let r := if tmp.ret ≠ -1 then flashWrite (r.mapFlashData (set (atoi tmp.str))) else r
  respondJson conn (numberBody name (get r.board.flashData)) r

def doSNTP : Handler := setNumber "sntp" FlashData.sntp fun v f => { f with sntp := v }

def doWifiport : Handler :=
  setNumber "ServerPort" FlashData.serverPort fun v f => { f with serverPort := v }

/-- A write to a field of `PowerEvents[idx]`. -/
def Rest.setEvent (r : Rest) (idx : Int32) (f : PowerEvent → PowerEvent) : Rest :=
  (r.access .powerEvents idx).mapFlashData fun d =>
    { d with powerEvents := modifyAt d.powerEvents idx f }

@[simp] theorem setEvent_log (r : Rest) (idx : Int32) (f : PowerEvent → PowerEvent) :
    (r.setEvent idx f).log =
      { r.log with accesses := r.log.accesses ++ [⟨.powerEvents, idx⟩] } := rfl

def doSetEvent : Handler := fun conn r =>
  let tmp := getValue (conn.buffer 0 120) conn.url slash 2
  let r := r.noteCopy tmp
  let idx := atoi tmp.str
  let tmp := getValue tmp.param conn.url slash 3
  let r := r.noteCopy tmp
  let active := (atoi tmp.str).toUInt32.toUInt8
  let r := r.setEvent idx fun e => { e with active }
  let tmp := getValue tmp.param conn.url slash 4
  let r := r.noteCopy tmp
  let port := atoi tmp.str
  let r := r.setEvent idx fun e => { e with port }
  -- get startTime
  let tmp := getValue tmp.param conn.url slash 5
  let r := r.noteCopy tmp
  let tmp2 := getValue (conn.buffer 1 10) tmp.param.mem colon 0
  let r := r.noteCopy tmp2
  let hour := atoi tmp2.str
  let r := r.setEvent idx fun e => { e with startTime := { e.startTime with hour } }
  let tmp2 := getValue tmp2.param tmp.param.mem colon 1
  let r := r.noteCopy tmp2
  let min := atoi tmp2.str
  let r := r.setEvent idx fun e => { e with startTime := { e.startTime with min } }
  -- get endTime
  let tmp := getValue tmp.param conn.url slash 6
  let r := r.noteCopy tmp
  let tmp2 := getValue tmp2.param tmp.param.mem colon 0
  let r := r.noteCopy tmp2
  let hour := atoi tmp2.str
  let r := r.setEvent idx fun e => { e with endTime := { e.endTime with hour } }
  let tmp2 := getValue tmp2.param tmp.param.mem colon 1
  let r := r.noteCopy tmp2
  let min := atoi tmp2.str
  let r := r.setEvent idx fun e => { e with endTime := { e.endTime with min } }
  -- get repeat; it is not stored
  let tmp := getValue tmp.param conn.url slash 7
  let r := r.noteCopy tmp
  doGetEvents conn (flashWrite r)

def doSetWifi : Handler := fun conn r =>
  let paramSSID := getValue (conn.buffer 0 120) conn.url slash 2
  let r := r.noteCopy paramSSID
  let paramPASS := getValue (conn.buffer 1 120) conn.url slash 3
  let r := r.noteCopy paramPASS
  let r := r.mapFlashData fun f =>
    { f with ssid := bytesToVector 32 paramSSID.param.mem, password := bytesToVector 64 paramPASS.param.mem }
  let passsize := paramPASS.str.length
  let x := if 3 < passsize then passsize / 2 else 3
  let shown := cstr (paramPASS.param.mem.set x 0)
  let buff := ascii "\x7b'ssid':'" ++ r.board.flashData.ssidStr ++
    ascii "', 'pass':'" ++ shown ++ ascii "...'\x7d"
  let r := osSprintf 256 buff r
  let r := r.mapFlashData fun f => { f with magic := magicNum }
  sendHTTPResponse conn buff (flashWrite r)

def doSetPin : Handler := fun conn r =>
  let param := getValue (conn.buffer 0 10) conn.url slash 2
  let r := r.noteCopy param
  let param2 := getValue (conn.buffer 1 10) conn.url slash 3
  -- a value of ten bytes or more overruns `param2`, maybe into `param`, which is read below
  let r := r.noteCopy param2
  let inputNum := atoi param.str
  let inputVal := atoi param2.str
  -- `inValue` is a `bool`, an unsigned char: the call keeps the low byte of `inputVal`
  sendPortStatus conn (portPinSet inputNum inputVal.toUInt32.toUInt8 r)

def doFlipinput : Handler := fun conn r =>
  let param := getValue (conn.buffer 0 20) conn.url slash 2
  let r := r.noteCopy param
  let inputNum := atoi param.str
  let r := r.access .portPinNumber inputNum
  let r :=
    if readAt portPinNumber inputNum = 16 then
      let v : UInt8 := if readAt r.board.portsVal inputNum ≠ 0 then 0 else 1
      portPinSet inputNum v (r.setPortsVal inputNum v)
    else
      let r := r.access .portsBits inputNum
      if r.board.gpioOut &&& readAt portsBits inputNum ≠ 0 then portPinSet inputNum 0 r
      else portPinSet inputNum 1 r
  sendPortStatus conn r

def setPortToLow (inputNum : Int32) (r : Rest) : Rest := portPinSet inputNum 0 r

def doOpen : Handler := fun conn r =>
  let param := getValue (conn.buffer 0 50) conn.url slash 2
  let r := r.noteCopy param
  let param := getValue param.param conn.url slash 2
  let r := r.noteCopy param
  let inputNum : Int32 := if param.ret ≠ -1 then atoi param.str else 6
  let r := portPinSet inputNum 1 r
  let timer := osTimerArm (osTimerSetfn (osTimerDisarm r.board.openTimer) inputNum)
  let r := { r with board := { r.board with openTimer := timer } }
  respondJson conn
    [.fmt 50 (ascii "\x7b\"Open\": " ++ decimal inputNum.toInt ++ ascii " \x7d")] r

/-! ### The command table -/

structure RestPtrs where
  command : Bytes
  f : Handler

/-- `_RestPtrsTable` -/
def restPtrsTable : List RestPtrs :=
  [⟨ascii "flipinput", doFlipinput⟩, ⟨ascii "open", doOpen⟩, ⟨ascii "status", doStatus⟩,
    ⟨ascii "setwifi", doSetWifi⟩, ⟨ascii "getwifi", doGetWifi⟩, ⟨ascii "events", doGetEvents⟩,
    ⟨ascii "event", doSetEvent⟩, ⟨ascii "time", doGetTime⟩, ⟨ascii "portsinfo", doGetPorts⟩,
    ⟨ascii "portinfo", doSetPorts⟩, ⟨ascii "initialize", doInitialize⟩, ⟨ascii "sntp", doSNTP⟩,
    ⟨ascii "wifiport", doWifiport⟩, ⟨ascii "scan", doScanWifi⟩, ⟨ascii "setpin", doSetPin⟩,
    ⟨ascii "END", doStatus⟩]

/-- The search of `ParseURLCommand` with `bound` turns left: at most `15`, and none past `"END"`. -/
def findCommand (param : Bytes) : ℕ → List RestPtrs → Option RestPtrs
  | bound + 1, p :: table =>
    if param = p.command then some p
    else if p.command = ascii "END" then none
    else findCommand param bound table
  | _, _ => none

/-- `ParseURLCommand` -/
def parseURLCommand (conn : Conn) (r : Rest) : Rest :=
  let param := getValue (conn.buffer 2 30) conn.url slash 1
  let r := r.noteCopy param
  match findCommand param.str 15 restPtrsTable with
  | some p =>
    let run : HandlerRun := ⟨conn.conn, p.command, conn.url⟩
    p.f conn { r with log := { r.log with handlers := r.log.handlers ++ [run] } }
  | none => r

end Esp8266Rest.Model
