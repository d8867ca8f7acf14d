import Esp8266Rest.Outputs.Pins
import Esp8266Rest.Model.Device

/-!
# Which commands drive an output

`setpin`, `flipinput` and `open` call `PortPinSet` once; `open` also arms the timer.  The other
commands leave the outputs and the timer alone (`request_quiet`).
-/

namespace Esp8266Rest.Outputs

open Esp8266Rest.Lib.CStr Esp8266Rest.Model Esp8266Rest.Url

/-- What the outputs and the timer of a board are. -/
structure OutputState where
  portsVal : Vector UInt8 8
  gpioOut : UInt32
  rtcGpioOut : UInt32
  openTimer : OsTimer
  deriving DecidableEq

def outputs (b : Board) : OutputState := ⟨b.portsVal, b.gpioOut, b.rtcGpioOut, b.openTimer⟩

/-- `r'` has the outputs of `r`, and no port was driven in between. -/
structure Quiet (r r' : Rest) : Prop where
  outputs : outputs r'.board = outputs r.board
  pinSets : r'.log.pinSets = r.log.pinSets

section Handlers

variable (conn : Conn) (r : Rest)

/-! ### The commands that drive a port -/

/-- The value of a `setpin` request: the low byte of field `3`. -/
def pinValue (u : Bytes) : UInt8 := (atoi (field u 3)).toUInt32.toUInt8

theorem doSetPin_board : (doSetPin conn r).board =
    (portPinSet (number (ascii "setpin") conn.url) (pinValue conn.url) r).board := by
  have hn : number (ascii "setpin") conn.url = atoi (piece conn.url slash 2) :=
    number_of_ne (by decide) _
  simp [doSetPin, sendPortStatus, portPinSet_board, getValue_str, hn, pinValue, field]

theorem doSetPin_pinSets : (doSetPin conn r).log.pinSets =
    r.log.pinSets ++ [(number (ascii "setpin") conn.url, pinValue conn.url)] := by
  have hn : number (ascii "setpin") conn.url = atoi (piece conn.url slash 2) :=
    number_of_ne (by decide) _
  simp [doSetPin, sendPortStatus, getValue_str, hn, pinValue, field]

/-- The value `flipinput` gives a port: the opposite of its entry in `portsVal` on pin `16`, of its
bit in the register elsewhere. -/
def flipped (n : Int32) (b : Board) : UInt8 :=
  if readAt portPinNumber n = 16 then if readAt b.portsVal n ≠ 0 then 0 else 1
  else if b.gpioOut &&& readAt portsBits n ≠ 0 then 0 else 1

/-- The entry that `flipinput` writes first is overwritten by `PortPinSet`. -/
theorem portPinSet_setPortsVal (n : Int32) (v w : UInt8) :
    (portPinSet n v (r.setPortsVal n w)).board = (portPinSet n v r).board := by
  have h : modifyAt (modifyAt r.board.portsVal n fun _ => w) n (fun _ => shown v) =
      modifyAt r.board.portsVal n fun _ => shown v := by
    cases hs : slot? 8 n with
    | none => simp [modifyAt, hs]
    | some p => simp [modifyAt_of_slot hs]
  rw [portPinSet_board, portPinSet_board]
  simp only [Rest.setPortsVal, access_board, h]

theorem doFlipinput_board : (doFlipinput conn r).board =
    (portPinSet (number (ascii "flipinput") conn.url)
      (flipped (number (ascii "flipinput") conn.url) r.board) r).board := by
  have hn : number (ascii "flipinput") conn.url = atoi (piece conn.url slash 2) :=
    number_of_ne (by decide) _
  have hboard : ∀ v s, s.board = r.board →
      (portPinSet (atoi (piece conn.url slash 2)) v s).board =
        (portPinSet (atoi (piece conn.url slash 2)) v r).board := by
    intro v s hs
    rw [portPinSet_board, portPinSet_board, hs]
  unfold doFlipinput sendPortStatus flipped
  simp only [respondJson_board, getValue_str, hn]
  by_cases h : readAt portPinNumber (atoi (piece conn.url slash 2)) = 16
  · rw [if_pos h, if_pos h, portPinSet_setPortsVal]
    exact hboard _ _ rfl
  · rw [if_neg h, if_neg h]
    by_cases hb : r.board.gpioOut &&& readAt portsBits (atoi (piece conn.url slash 2)) ≠ 0
    · rw [if_pos hb]
      exact (congrArg Rest.board (if_pos hb)).trans (hboard _ _ rfl)
    · rw [if_neg hb]
      exact (congrArg Rest.board (if_neg hb)).trans (hboard _ _ rfl)

theorem doFlipinput_pinSets : (doFlipinput conn r).log.pinSets =
    r.log.pinSets ++ [(number (ascii "flipinput") conn.url,
      flipped (number (ascii "flipinput") conn.url) r.board)] := by
  have hn : number (ascii "flipinput") conn.url = atoi (piece conn.url slash 2) :=
    number_of_ne (by decide) _
  unfold doFlipinput sendPortStatus flipped
  simp only [respondJson_pinSets, getValue_str, hn]
  by_cases h : readAt portPinNumber (atoi (piece conn.url slash 2)) = 16
  · rw [if_pos h, if_pos h, portPinSet_pinSets]
    rfl
  · rw [if_neg h, if_neg h]
    by_cases hb : r.board.gpioOut &&& readAt portsBits (atoi (piece conn.url slash 2)) ≠ 0
    · rw [if_pos hb]
      exact (congrArg (fun s : Rest => s.log.pinSets) (if_pos hb)).trans (portPinSet_pinSets _ _ _)
    · rw [if_neg hb]
      exact (congrArg (fun s : Rest => s.log.pinSets) (if_neg hb)).trans (portPinSet_pinSets _ _ _)

theorem open_number : (if (getValue (getValue (conn.buffer 0 50) conn.url slash 2).param conn.url
      slash 2).ret ≠ -1 then atoi (piece conn.url slash 2) else 6) = openPort conn.url := by
  simp only [getValue_ret_ne]
  by_cases h : piece conn.url slash 2 = [] <;> simp [openPort, number, field, h]

theorem doOpen_board : (doOpen conn r).board =
    { (portPinSet (openPort conn.url) 1 r).board with openTimer := ⟨openPort conn.url, true⟩ } := by
  unfold doOpen
  simp only [respondJson_board, getValue_str, open_number, osTimerArm, osTimerSetfn]
  simp [portPinSet_board]

theorem doOpen_pinSets : (doOpen conn r).log.pinSets =
    r.log.pinSets ++ [(openPort conn.url, 1)] := by
  unfold doOpen
  simp only [respondJson_pinSets, getValue_str, open_number]
  simp

/-! ### The others -/

lemma respondJson_quiet {w : Rest} (h : Quiet r w) (body : List Part) :
    Quiet r (respondJson conn body w) :=
  ⟨by simpa using h.outputs, by simpa using h.pinSets⟩

theorem readFromFlash_quiet : Quiet r (readFromFlash r) := by
  refine ⟨?_, by simp⟩
  unfold readFromFlash
  dsimp only
  split <;> split <;> rfl

theorem setNumber_quiet (shown : String) (get : FlashData → Int32)
    (set : Int32 → FlashData → FlashData) : Quiet r (setNumber shown get set conn r) := by
  unfold setNumber
  refine respondJson_quiet conn r ⟨?_, ?_⟩ _
  · split <;> simp [outputs]
  · split <;> simp

/-- The commands that drive a port. -/
def driving : List Bytes := [ascii "flipinput", ascii "open", ascii "setpin"]

theorem handler_quiet : ∀ p ∈ commands, p.command ∉ driving → Quiet r (p.f conn r) := by
  rw [forall_commands]
  dsimp only
  refine ⟨fun h => absurd (by decide) h, fun h => absurd (by decide) h, fun _ => ?_, fun _ => ?_,
    fun _ => ?_, fun _ => ?_, fun _ => ?_, fun _ => ?_, fun _ => ?_, fun _ => ?_, fun _ => ?_,
    fun _ => ?_, fun _ => ?_, fun _ => ?_, fun h => absurd (by decide) h⟩
  · unfold doStatus sendPortStatus
    exact respondJson_quiet conn r ⟨rfl, rfl⟩ _
  · unfold doSetWifi sendHTTPResponse
    exact respondJson_quiet conn r ⟨by simp [outputs], by simp⟩ _
  · unfold doGetWifi sendHTTPResponse
    have h := readFromFlash_quiet r
    exact respondJson_quiet conn r ⟨by simpa using h.outputs, by simp⟩ _
  · unfold doGetEvents
    exact respondJson_quiet conn r ⟨rfl, rfl⟩ _
  · unfold doSetEvent doGetEvents
    exact respondJson_quiet conn r ⟨by simp [outputs, Rest.setEvent], by simp⟩ _
  · unfold doGetTime
    exact respondJson_quiet conn r ⟨rfl, rfl⟩ _
  · unfold doGetPorts
    exact respondJson_quiet conn r ⟨rfl, rfl⟩ _
  · unfold doSetPorts doGetPorts
    exact respondJson_quiet conn r ⟨by simp [outputs], by simp⟩ _
  · unfold doInitialize
    rw [foldl_osSprintf]
    exact ⟨rfl, rfl⟩
  · exact setNumber_quiet conn r _ _ _
  · exact setNumber_quiet conn r _ _ _
  · unfold doScanWifi
    exact respondJson_quiet conn r ⟨rfl, rfl⟩ _

end Handlers

/-! ### Requests -/

section Requests

variable {conn : Conn} (r : Rest)

theorem request_setpin (h : command conn.url = ascii "setpin") :
    parseURLCommand conn r = doSetPin conn (dispatched conn (ascii "setpin") r) := by
  have hfind : findCommand (ascii "setpin") 15 restPtrsTable = some ⟨ascii "setpin", doSetPin⟩ := rfl
  rw [parseURLCommand_eq, h, hfind]

theorem request_flipinput (h : command conn.url = ascii "flipinput") :
    parseURLCommand conn r = doFlipinput conn (dispatched conn (ascii "flipinput") r) := by
  have hfind : findCommand (ascii "flipinput") 15 restPtrsTable = some ⟨ascii "flipinput", doFlipinput⟩ := rfl
  rw [parseURLCommand_eq, h, hfind]

theorem request_open (h : command conn.url = ascii "open") :
    parseURLCommand conn r = doOpen conn (dispatched conn (ascii "open") r) := by
  have hfind : findCommand (ascii "open") 15 restPtrsTable = some ⟨ascii "open", doOpen⟩ := rfl
  rw [parseURLCommand_eq, h, hfind]

theorem request_quiet (h : command conn.url ∉ driving) : Quiet r (parseURLCommand conn r) := by
  by_cases hmem : command conn.url ∈ commandNames
  · obtain ⟨p, hp, hname, heq⟩ := parseURLCommand_of_mem hmem r
    have key := handler_quiet conn (dispatched conn (command conn.url) r) p hp (hname ▸ h)
    rw [heq]
    exact ⟨key.outputs, key.pinSets⟩
  · rw [parseURLCommand_of_notMem hmem]
    exact ⟨rfl, rfl⟩

theorem request_openTimer (conn : Conn) : (parseURLCommand conn r).board.openTimer =
    if command conn.url = ascii "open" then ⟨openPort conn.url, true⟩ else r.board.openTimer := by
  by_cases h : command conn.url ∈ driving
  · simp only [driving, List.mem_cons, List.not_mem_nil, or_false] at h
    rcases h with h | h | h
    · rw [request_flipinput r h, doFlipinput_board, portPinSet_openTimer, if_neg (by rw [h]; decide)]
      rfl
    · rw [request_open r h, doOpen_board, if_pos h]
    · rw [request_setpin r h, doSetPin_board, portPinSet_openTimer, if_neg (by rw [h]; decide)]
      rfl
  · have hne : command conn.url ≠ ascii "open" := fun e => h (by rw [e]; decide)
    rw [if_neg hne]
    exact congrArg OutputState.openTimer (request_quiet r h).outputs

end Requests

end Esp8266Rest.Outputs
