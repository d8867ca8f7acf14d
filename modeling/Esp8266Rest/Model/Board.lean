import Esp8266Rest.Model.TimeUtils

/-!
# The board

`Board` holds what outlives a callback outside the connection pool: the record in RAM and in its
flash sector, `portsVal`, the output latches, the one-shot timer of `doOpen`, the clock.  `Log` is
not part of the device: it lists what the code did, so that what it may do can be stated.  A
`Rest` is the state a request handler works on, with the send buffer of the running callback.

What an access outside an array does is not modelled: it is logged like any other, a read gives `0` and a
write leaves the state as it is.  On the device it meets what the linker put there; in the record itself
(`common.h`) the ports follow the events.  The same goes for a text that is longer than its buffer.  So
the model tells what the device does up to the first such access.  `Safe` says of a log that there is
none in it, and `Proper` of a URL that its request makes none; what another access could undo is stated
for proper requests, or with `Safe` as part of what is to hold.
-/

namespace Esp8266Rest.Model

open Esp8266Rest.Lib.CStr

/-- A pointer to a `struct espconn`. -/
abbrev Ptr := ℕ

/-! ### The log -/

/-- The arrays that are indexed by a number from a URL. -/
inductive Arr where
  | powerEvents | ports | portPinNumber | portsBits | portsVal
  deriving DecidableEq, Repr

def Arr.size : Arr → ℕ
  | .powerEvents => maxTimedPowerEvents
  | _ => numOfPorts

structure Access where
  arr : Arr
  idx : Int32
  deriving DecidableEq, Repr

/-- The index is one of the array. -/
def Access.Ok (a : Access) : Prop := 0 ≤ a.idx.toInt ∧ a.idx.toInt < a.arr.size

instance (a : Access) : Decidable a.Ok := by unfold Access.Ok; infer_instance

/-- A call of `getValue`: the bytes it wrote and the bytes its destination has. -/
structure Copy where
  wrote : ℕ
  cap : ℕ
  deriving DecidableEq, Repr

def Copy.Fits (c : Copy) : Prop := c.wrote ≤ c.cap

instance (c : Copy) : Decidable c.Fits := by unfold Copy.Fits; infer_instance

/-- A handler run by `ParseURLCommand`: for whom, under which command, with which URL. -/
structure HandlerRun where
  conn : Ptr
  command : Bytes
  url : Bytes
  deriving DecidableEq, Repr

/-- `queued` holds the data and the result of every `httpdSend`, `formatted` what every `os_sprintf`
wrote, with its NUL, and the size of its buffer. -/
structure Log where
  handlers : List HandlerRun
  copies : List Copy
  accesses : List Access
  pinSets : List (Int32 × UInt8)
  queued : List (Bytes × Bool)
  formatted : List Copy
  sent : List (Ptr × Bytes)
  deriving DecidableEq, Repr

def Log.empty : Log := ⟨[], [], [], [], [], [], []⟩

/-! ### The state -/

/-- `open_timer`: its callback is always `setPortToLow`. -/
structure OsTimer where
  arg : Int32
  armed : Bool
  deriving DecidableEq, Repr

def osTimerDisarm (t : OsTimer) : OsTimer := { t with armed := false }

def osTimerSetfn (t : OsTimer) (arg : Int32) : OsTimer := { t with arg }

def osTimerArm (t : OsTimer) : OsTimer := { t with armed := true }

/-- `flash` is the record as it stands in the sector at `0x3c000`. -/
structure Board where
  flashData : FlashData
  flash : FlashData
  portsVal : Vector UInt8 8
  gpioOut : UInt32
  rtcGpioOut : UInt32
  openTimer : OsTimer
  sntpTime : Int32
  sntpTz : Int32
  ipStation : Bytes
  deriving DecidableEq, Repr

@[ext] structure Rest where
  board : Board
  sendBuff : Bytes
  log : Log
  deriving DecidableEq, Repr

def Rest.access (r : Rest) (arr : Arr) (idx : Int32) : Rest :=
  { r with log := { r.log with accesses := r.log.accesses ++ [⟨arr, idx⟩] } }

@[simp] theorem access_board (r : Rest) (arr : Arr) (idx : Int32) :
    (r.access arr idx).board = r.board := rfl

@[simp] theorem access_log (r : Rest) (arr : Arr) (idx : Int32) :
    (r.access arr idx).log = { r.log with accesses := r.log.accesses ++ [⟨arr, idx⟩] } := rfl

/-- What stands at an index; outside the array, what is there is not modelled, and `0` stands for it. -/
def readAt {α : Type*} [OfNat α 0] {n : ℕ} (a : Vector α n) (i : Int32) : α :=
  match slot? n i with
  | some j => a.get j
  | none => 0

/-! ### The outputs -/

/-- `BIT0`, `BIT1`, … -/
def bit (n : UInt32) : UInt32 := 1 <<< n

def portsBits : Vector UInt32 8 := #v[bit 0, bit 1, bit 12, bit 13, bit 14, bit 15, bit 16, bit 7]

def portPinNumber : Vector Int32 8 := #v[0, 1, 12, 13, 14, 15, 16, 7]

/-- `gpio_output_set` on the output register; its last two masks enable outputs. -/
def gpioOutputSet (setMask clearMask gpioOut : UInt32) : UInt32 :=
  (gpioOut ||| setMask) &&& ~~~clearMask

def gpio16OutputSet (value : UInt8) (rtcGpioOut : UInt32) : UInt32 :=
  (rtcGpioOut &&& 0xfffffffe) ||| (value &&& 1).toUInt32

def Rest.setPortsVal (r : Rest) (inputNum : Int32) (v : UInt8) : Rest :=
  let r := r.access .portsVal inputNum
  { r with board := { r.board with portsVal := modifyAt r.board.portsVal inputNum fun _ => v } }

def portPinSet (inputNum : Int32) (inValue : UInt8) (r : Rest) : Rest :=
  let r := { r with log := { r.log with pinSets := r.log.pinSets ++ [(inputNum, inValue)] } }
  let r := r.access .portPinNumber inputNum
  if readAt portPinNumber inputNum = 16 then
    let r := { r with board :=
      { r.board with rtcGpioOut := gpio16OutputSet inValue r.board.rtcGpioOut } }
    r.setPortsVal inputNum (if inValue ≠ 0 then 1 else 0)
  else
    let r := r.access .portsBits inputNum
    let bits := readAt portsBits inputNum
    if inValue = 0 then
      let r := { r with board := { r.board with gpioOut := gpioOutputSet 0 bits r.board.gpioOut } }
      r.setPortsVal inputNum 0
    else
      let r := { r with board := { r.board with gpioOut := gpioOutputSet bits 0 r.board.gpioOut } }
      r.setPortsVal inputNum 1

/-- The array accesses of `PortPinSet`. -/
def portAccesses (inputNum : Int32) : List Access :=
  if readAt portPinNumber inputNum = 16 then [⟨.portPinNumber, inputNum⟩, ⟨.portsVal, inputNum⟩]
  else [⟨.portPinNumber, inputNum⟩, ⟨.portsBits, inputNum⟩, ⟨.portsVal, inputNum⟩]

theorem portPinSet_log (inputNum : Int32) (inValue : UInt8) (r : Rest) :
    (portPinSet inputNum inValue r).log =
      { r.log with pinSets := r.log.pinSets ++ [(inputNum, inValue)],
                   accesses := r.log.accesses ++ portAccesses inputNum } := by
  unfold portPinSet portAccesses
  by_cases h : readAt portPinNumber inputNum = 16
  · simp [h, Rest.setPortsVal]
  · by_cases hv : inValue = 0 <;> simp [h, hv, Rest.setPortsVal]

@[simp] theorem portPinSet_sendBuff (inputNum : Int32) (inValue : UInt8) (r : Rest) :
    (portPinSet inputNum inValue r).sendBuff = r.sendBuff := by
  unfold portPinSet
  by_cases h : readAt portPinNumber inputNum = 16
  · simp only [h, if_true]
    rfl
  · by_cases hv : inValue = 0
    · simp only [h, hv, if_true, if_false]
      rfl
    · simp only [h, hv, if_false]
      rfl

/-- What `PortPinSet` writes to `portsVal`. -/
def shown (inValue : UInt8) : UInt8 := if inValue = 0 then 0 else 1

/-- **What `PortPinSet` does**: it drives the latch of the port's own driver and writes `portsVal`. -/
theorem portPinSet_board (inputNum : Int32) (inValue : UInt8) (r : Rest) :
    (portPinSet inputNum inValue r).board =
      let b := { r.board with
        portsVal := modifyAt r.board.portsVal inputNum fun _ => shown inValue }
      if readAt portPinNumber inputNum = 16 then
        { b with rtcGpioOut := gpio16OutputSet inValue r.board.rtcGpioOut }
      else if inValue = 0 then
        { b with gpioOut := gpioOutputSet 0 (readAt portsBits inputNum) r.board.gpioOut }
      else { b with gpioOut := gpioOutputSet (readAt portsBits inputNum) 0 r.board.gpioOut } := by
  unfold portPinSet shown
  by_cases h : readAt portPinNumber inputNum = 16
  · by_cases hv : inValue = 0 <;> simp [h, hv, Rest.setPortsVal]
  · by_cases hv : inValue = 0 <;> simp [h, hv, Rest.setPortsVal]

/-- The output latch of a port. -/
def Board.latch (b : Board) (p : Fin 8) : Bool :=
  if portPinNumber.get p = 16 then b.rtcGpioOut &&& 1 ≠ 0 else b.gpioOut &&& portsBits.get p ≠ 0

end Esp8266Rest.Model
