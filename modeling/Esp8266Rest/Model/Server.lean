import Esp8266Rest.Model.RestAPI

/-!
# The connection pool and its callbacks (`server.c`)

A connection's slot is found by its `espconn` pointer, and its request head is read byte by byte
into the slot's own buffer, from one receive callback to the next.  Pointers into that buffer
(`url`, `getArgs`, the line pointer `p`) are offsets.  `sendBuff` points to a local array of the
running callback and is part of the `Rest` that the callback starts with.

`httpdSendResp` has an empty body (all of it is commented out) and is left out.
-/

namespace Esp8266Rest.Model

open Esp8266Rest.Lib.CStr

def maxHeadLen : ℕ := 1024

def maxConn : ℕ := 8

/-- `espconn_state` -/
def espconnNone : ℕ := 0

def espconnClose : ℕ := 6

/-- `headPos` lies directly behind `head`. -/
structure HttpdPriv where
  head : Vector UInt8 1024
  headPos : ℕ
  postPos : ℤ
  deriving DecidableEq, Repr

/-- A slot of `gServerConnData`; its `priv` is the slot of `connPrivData` with the same index. -/
structure ServerConnData where
  conn : Option Ptr
  url : Option ℕ
  postLen : ℤ
  postBuff : Option Bytes
  getArgs : Option ℕ
  priv : HttpdPriv
  deriving DecidableEq, Repr

/-- The memory from offset `p` of `head` on. -/
def ServerConnData.from (c : ServerConnData) (p : ℕ) : Bytes := c.priv.head.toList.drop p

/-- `head[i] = 0` -/
def ServerConnData.cut (c : ServerConnData) (i : ℕ) : ServerConnData :=
  { c with priv := { c.priv with head := c.priv.head.setIfInBounds i 0 } }

/-! ### Receiving -/

/-- What a receive callback works on: the slot of its connection and the rest of the device.
`headWrites` is not part of the device: it lists the places written in a `head`. -/
structure Session where
  slot : ServerConnData
  rest : Rest
  headWrites : List ℕ
  deriving DecidableEq, Repr

/-- What `ServerParseHeaderURL` does to the slot on a line at `p` that starts with a method: `url` is
set behind the first space, and when another space ends it, it is terminated there and at a `?`.
The second result says whether the URL goes on to `ParseURLCommand`. -/
def ServerConnData.cutURL (c : ServerConnData) (p : ℕ) : ServerConnData × Bool :=
  let url := p + ((c.from p).takeWhile (· ≠ space)).length + 1
  let c := { c with url := some url }
  match strstr (cstr (c.from url)) [space] with
  | none => (c, false)
  | some e =>
    let c := c.cut (url + e)
    match strstr (cstr (c.from url)) (ascii "?") with
    | some k => ({ c.cut (url + k) with getArgs := some (url + k + 1) }, true)
    | none => ({ c with getArgs := none }, true)

/-- The places of the NULs that this writes. -/
def ServerConnData.urlCuts (c : ServerConnData) (p : ℕ) : List ℕ :=
  let url := p + ((c.from p).takeWhile (· ≠ space)).length + 1
  match strstr (cstr (c.from url)) [space] with
  | none => []
  | some e =>
    match strstr (cstr ((c.cut (url + e)).from url)) (ascii "?") with
    | some k => [url + e, url + k]
    | none => [url + e]

def isRequestLine (h : Bytes) : Bool := (ascii "GET ").isPrefixOf h || (ascii "POST ").isPrefixOf h

section Receive

variable (arg : Ptr) (uninit : ℕ → ℕ → Byte)

/-- The URL at `conn->url`, and the connection, as a handler sees them. -/
def ServerConnData.toConn (c : ServerConnData) : Conn :=
  { conn := arg, url := cstr (c.from (c.url.getD 0)), uninit }

/-- `ServerParseHeaderURL` on the line at `p`.  On a `Content-Length: ` line the source only sets a
local variable. -/
def serverParseHeaderURL (p : ℕ) (s : Session) : Session :=
  if isRequestLine (s.slot.from p) then
    let (slot, run) := s.slot.cutURL p
    let headWrites := s.headWrites ++ s.slot.urlCuts p
    if run then { slot, headWrites, rest := parseURLCommand (slot.toConn arg uninit) s.rest }
    else { s with slot, headWrites }
  else s

theorem cutURL_headPos (c : ServerConnData) (p : ℕ) :
    (c.cutURL p).1.priv.headPos = c.priv.headPos := by
  unfold ServerConnData.cutURL
  dsimp only
  split
  · rfl
  · split <;> rfl

theorem serverParseHeaderURL_headPos (p : ℕ) (s : Session) :
    (serverParseHeaderURL arg uninit p s).slot.priv.headPos = s.slot.priv.headPos := by
  unfold serverParseHeaderURL
  split
  · dsimp only
    split <;> exact cutURL_headPos _ _
  · rfl

/-- `e[0] = 0` at the end of a header line. -/
def Session.endLine (s : Session) (i : ℕ) : Session :=
  { s with slot := s.slot.cut i, headWrites := s.headWrites ++ [i] }

/-- The loop over the header lines, at `p`. -/
def lineLoop (p : ℕ) (s : Session) : Session :=
  if p + 4 < s.slot.priv.headPos then
    match strstr (cstr (s.slot.from p)) crlf with
    | none => s
    | some e => lineLoop (p + e + 2) (serverParseHeaderURL arg uninit p (s.endLine (p + e)))
  else s
termination_by s.slot.priv.headPos - p
decreasing_by
  rw [serverParseHeaderURL_headPos]
  simp only [Session.endLine, ServerConnData.cut]
  omega

/-- A byte goes to `head` unless that is full, and a NUL behind it.  With a full `head` the NUL is
written to the low byte of `headPos`. -/
def ServerConnData.putHead (c : ServerConnData) (b : Byte) : ServerConnData :=
  let c := if c.priv.headPos ≠ maxHeadLen then
      { c with priv := { c.priv with head := c.priv.head.setIfInBounds c.priv.headPos b,
                                     headPos := c.priv.headPos + 1 } }
    else c
  if c.priv.headPos < maxHeadLen then c.cut c.priv.headPos
  else { c with priv := { c.priv with headPos := c.priv.headPos - c.priv.headPos % 256 } }

/-- The places those two writes go to. -/
def ServerConnData.putWrites (c : ServerConnData) : List ℕ :=
  if c.priv.headPos ≠ maxHeadLen then [c.priv.headPos, c.priv.headPos + 1] else [c.priv.headPos]

/-- A header byte: the newline that completes the block starts the loop over its lines. -/
def headerByte (b : Byte) (s : Session) : Session :=
  let s : Session :=
    { s with slot := s.slot.putHead b, headWrites := s.headWrites ++ s.slot.putWrites }
  if b = lf ∧ (strstr (cstr (s.slot.from 0)) (crlf ++ crlf)).isSome then
    lineLoop arg uninit 0 { s with slot := { s.slot with postLen := 0, url := none } }
  else s

/-- A byte of the body, and whether it was the last one. -/
def ServerConnData.putPost (c : ServerConnData) (b : Byte) : ServerConnData × Bool :=
  let c := { c with postBuff := c.postBuff.map fun m => m.set c.priv.postPos.toNat b,
                    priv := { c.priv with postPos := c.priv.postPos + 1 } }
  if c.postLen ≤ c.priv.postPos then
    ({ c with postBuff := c.postBuff.map fun m => m.set c.priv.postPos.toNat 0,
              priv := { c.priv with postPos := -1 } }, true)
  else (c, false)

/-- The loop of `httpdRecvCb` over the received bytes. -/
def recvLoop : Bytes → Session → Session
  | [], s => s
  | b :: data, s =>
    if s.slot.postLen < 0 then recvLoop data (headerByte arg uninit b s)
    else if s.slot.priv.postPos ≠ -1 ∧ s.slot.postLen ≠ 0 ∧ s.slot.priv.postPos ≤ s.slot.postLen then
      let (slot, last) := s.slot.putPost b
      if last then { s with slot } else recvLoop data { s with slot }
    else recvLoop data s

end Receive

/-! ### The pool -/

abbrev Pool := Vector ServerConnData 8

/-- `registered` lists the connections whose callbacks were registered, `disconnected` those that were
given to `espconn_disconnect`. -/
structure Server where
  pool : Pool
  board : Board
  log : Log
  headWrites : List ℕ
  registered : List Ptr
  disconnected : List Ptr
  deriving DecidableEq, Repr

/-- `httpdFindConnData` -/
def httpdFindConnData (pool : Pool) (arg : Ptr) : Option (Fin 8) :=
  (List.finRange 8).find? fun i => (pool.get i).conn = some arg

/-- The search for an empty slot. -/
def findFree (pool : Pool) : Option (Fin 8) := (List.finRange 8).find? fun i => (pool.get i).conn = none

def serverRetireConn (c : ServerConnData) : ServerConnData := { c with postBuff := none, conn := none }

def httpdRecvCb (arg : Ptr) (data : Bytes) (uninit : ℕ → ℕ → Byte) (s : Server) : Server :=
  match httpdFindConnData s.pool arg with
  | none => s
  | some i =>
    let t := recvLoop arg uninit data ⟨s.pool.get i, ⟨s.board, [], s.log⟩, s.headWrites⟩
    { s with pool := setAt s.pool i t.slot, board := t.rest.board, log := t.rest.log,
             headWrites := t.headWrites }

def httpdSentCb (arg : Ptr) (s : Server) : Server :=
  match httpdFindConnData s.pool arg with
  | none => s
  | some i =>
    { s with pool := setAt s.pool i (serverRetireConn (s.pool.get i)),
             disconnected := s.disconnected ++ [arg] }

/-- Does nothing. -/
def httpdReconCb (_arg : Ptr) (_err : ℤ) (s : Server) : Server := s

/-- An `espconn` in this state counts as disconnected. -/
def goneState (state : ℕ) : Bool := state = espconnNone || espconnClose ≤ state

/-- The callback looks at the states of all connections; `state` is what it finds there. -/
def httpdDisconCb (state : Ptr → ℕ) (s : Server) : Server :=
  { s with pool := s.pool.map fun c =>
      match c.conn with
      | some q => if goneState (state q) then { c with conn := none } else c
      | none => c }

/-- A slot is taken over with its old `head`, `url` and `getArgs`. -/
def ServerConnData.takeOver (c : ServerConnData) (arg : Ptr) : ServerConnData :=
  { c with conn := some arg, postBuff := none, postLen := -1,
           priv := { c.priv with headPos := 0, postPos := 0 } }

def httpdConnectCb (arg : Ptr) (s : Server) : Server :=
  match findFree s.pool with
  | none => { s with disconnected := s.disconnected ++ [arg] }
  | some i =>
    { s with pool := setAt s.pool i ((s.pool.get i).takeOver arg), registered := s.registered ++ [arg] }

/-- A slot as the loader leaves it. -/
def ServerConnData.zero : ServerConnData :=
  { conn := none, url := none, postLen := 0, postBuff := none, getArgs := none,
    priv := { head := Vector.replicate 1024 0, headPos := 0, postPos := 0 } }

/-- The server before any connection. -/
def Server.fresh (board : Board) : Server :=
  { pool := Vector.replicate 8 .zero, board, log := .empty, headWrites := [], registered := [],
    disconnected := [] }

end Esp8266Rest.Model
