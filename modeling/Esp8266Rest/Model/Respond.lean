import Esp8266Rest.Model.Board

/-!
# Fields of a URL and parts of a response (`server.c`)

`getValue` cuts a field out of a URL into a buffer, and the functions below it build the response
in the send buffer and hand it to `espconn_sent`.
-/

namespace Esp8266Rest.Model

open Esp8266Rest.Lib.CStr

def maxSendbuffLen : ℕ := 2048

def slash : Byte := 47
def colon : Byte := 58

/-- A local `char` array: its size and what it holds. -/
structure Buffer where
  cap : ℕ
  mem : Bytes
  deriving DecidableEq, Repr

/-- The side of a connection that its handler reads.  `uninit k` is what the `k`-th uninitialised
local buffer of the running function happens to hold. -/
structure Conn where
  conn : Ptr
  url : Bytes
  uninit : ℕ → ℕ → Byte

/-- A local `char` array without initialiser. -/
def Conn.buffer (c : Conn) (k n : ℕ) : Buffer := ⟨n, (List.range n).map (c.uninit k)⟩

/-! ### `getValue` -/

/-- The loop of `getValue` at index `i` of `data`, of which `rest` is what is left before the NUL:
`found` and the two entries of `strIndex` when it ends. -/
def getValueLoop (separator : Byte) (index : ℕ) : Bytes → ℕ → ℕ → ℤ → ℤ → ℕ × ℤ × ℤ
  | [], i, found, i0, i1 => if found ≤ index then (found + 1, i1 + 1, i) else (found, i0, i1)
  | b :: rest, i, found, i0, i1 =>
    if found ≤ index then
      if b = separator then getValueLoop separator index rest (i + 1) (found + 1) (i1 + 1) i
      else getValueLoop separator index rest (i + 1) found i0 i1
    else (found, i0, i1)

/-- What a call leaves: the result, the destination buffer, and the sizes for the log. -/
structure Value where
  ret : ℤ
  param : Buffer
  copy : Copy
  deriving DecidableEq, Repr

/-- The destination as a C string. -/
def Value.str (v : Value) : Bytes := cstr v.param.mem

/-- `getValue(retParam, data, separator, index)`.  Nothing bounds `size`: a destination that is too
short is overrun, and then holds more than its size here. -/
def getValue (retParam : Buffer) (data : Bytes) (separator : Byte) (index : ℕ) : Value :=
  let (found, i0, i1) := getValueLoop separator index (cstr data) 0 0 0 (-1)
  let size := (i1 - i0).toNat
  let mem := (data.drop i0.toNat).take size ++ 0 :: retParam.mem.drop (size + 1)
  let copy : Copy := ⟨size + 1, retParam.cap⟩
  if found - 1 < index ∨ size = 0 then ⟨-1, ⟨retParam.cap, mem.set 0 0⟩, copy⟩
  else ⟨size, ⟨retParam.cap, mem⟩, copy⟩

def Rest.noteCopy (r : Rest) (v : Value) : Rest :=
  { r with log := { r.log with copies := r.log.copies ++ [v.copy] } }

@[simp] theorem noteCopy_board (r : Rest) (v : Value) : (r.noteCopy v).board = r.board := rfl

@[simp] theorem noteCopy_log (r : Rest) (v : Value) :
    (r.noteCopy v).log = { r.log with copies := r.log.copies ++ [v.copy] } := rfl

/-! ### Building a response -/

/-- Returns `0` without a copy when the data does not fit. -/
def httpdSend (data : Bytes) (r : Rest) : Rest :=
  if maxSendbuffLen < r.sendBuff.length + data.length then
    { r with log := { r.log with queued := r.log.queued ++ [(data, false)] } }
  else
    { r with sendBuff := r.sendBuff ++ data,
             log := { r.log with queued := r.log.queued ++ [(data, true)] } }

/-- `os_sprintf` of `text` into a buffer of `cap` bytes. -/
def osSprintf (cap : ℕ) (text : Bytes) (r : Rest) : Rest :=
  { r with log := { r.log with formatted := r.log.formatted ++ [⟨text.length + 1, cap⟩] } }

@[simp] theorem osSprintf_board (cap : ℕ) (text : Bytes) (r : Rest) :
    (osSprintf cap text r).board = r.board := rfl

@[simp] theorem osSprintf_log (cap : ℕ) (text : Bytes) (r : Rest) : (osSprintf cap text r).log =
    { r.log with formatted := r.log.formatted ++ [⟨text.length + 1, cap⟩] } := rfl

theorem foldl_osSprintf {α : Type*} (cap : ℕ) (text : α → Bytes) (l : List α) (r : Rest) :
    l.foldl (fun r a => osSprintf cap (text a) r) r =
      { r with log := { r.log with
          formatted := r.log.formatted ++ l.map fun a => ⟨(text a).length + 1, cap⟩ } } := by
  induction l generalizing r with
  | nil => simp
  | cons a l ih =>
    rw [List.foldl_cons, ih]
    simp [osSprintf]

def xmitSendBuff (conn : Conn) (r : Rest) : Rest :=
  if r.sendBuff.length ≠ 0 then
    { r with sendBuff := [],
             log := { r.log with sent := r.log.sent ++ [(conn.conn, r.sendBuff)] } }
  else r

/-- A part of a response: a literal, or text formatted into a buffer of `cap` bytes first. -/
inductive Part where
  | lit (text : Bytes)
  | fmt (cap : ℕ) (text : Bytes)
  deriving DecidableEq, Repr

def sendPart (r : Rest) : Part → Rest
  | .lit text => httpdSend text r
  | .fmt cap text => httpdSend text (osSprintf cap text r)

def startResponse (code : ℤ) : Part :=
  .fmt 128 (ascii "HTTP/1.0 " ++ decimal code ++
    ascii " OK\r\nServer: esp8266-httpd\"HTTPDVER\"\r\n")

def addHeader (field val : String) : Part := .fmt 256 (ascii field ++ ascii ": " ++ ascii val ++ crlf)

def endHeaders : Part := .lit crlf

/-- The parts of `StartResponseJson`. -/
def startResponseJson : List Part :=
  [startResponse 200, addHeader "Content-Type" "application/json",
    addHeader "Access-Control-Allow-Origin" "*",
    addHeader "Access-Control-Allow-Methods" "GET, POST, PUT",
    addHeader "Connection" "close", endHeaders]

/-- `StartResponseJson`, the parts of the body, `xmitSendBuff`: what every handler that answers
ends with. -/
def respondJson (conn : Conn) (body : List Part) (r : Rest) : Rest :=
  xmitSendBuff conn ((startResponseJson ++ body).foldl sendPart r)

/-- `SendHTTPResponse` writes the headers of `StartResponseJson` itself. -/
def sendHTTPResponse (conn : Conn) (msg : Bytes) (r : Rest) : Rest := respondJson conn [.lit msg] r

end Esp8266Rest.Model
