import Mathlib.Data.Vector.Defs
import Esp8266Rest.Lib.CStr

/-!
# The shared record (`common.h`)

`FlashData` is the configuration record, kept in RAM and copied whole to and from one flash sector.
It is a union with `char settings[128*8]`, and its strings are read by `%s` beyond their own array
when they hold no NUL, so the record is modelled with its padding, and `FlashData.bytes` is its
memory image (little endian, natural alignment).

A C `int` is an `Int32`, a `bool` of the SDK an unsigned char, `Days` the word of its bit fields,
and `PortType`, an `enum` read back from flash, the `int` it is stored as.
-/

namespace Esp8266Rest.Model

open Esp8266Rest.Lib.CStr

def maxTimedPowerEvents : ℕ := 10

def numOfPorts : ℕ := 8

def magicNum : Int32 := 7059

structure Time where
  hour : Int32
  min : Int32
  deriving DecidableEq, Repr

/-- Three bytes of padding follow `active`. -/
structure PowerEvent where
  startTime : Time
  endTime : Time
  daysRepeat : Int32
  port : Int32
  active : UInt8
  padding : Vector UInt8 3
  deriving DecidableEq, Repr

def portOutput : Int32 := 1

structure PortInfo where
  portPinNumber : Int32
  type : Int32
  portName : Vector UInt8 20
  deriving DecidableEq, Repr

/-- The union of the record with 1024 bytes of settings; `settings` is what lies behind it. -/
structure FlashData where
  magic : Int32
  ssid : Vector UInt8 32
  password : Vector UInt8 64
  powerEvents : Vector PowerEvent 10
  ports : Vector PortInfo 8
  sntp : Int32
  serverPort : Int32
  settings : Vector UInt8 412
  deriving DecidableEq, Repr

/-! ### The memory image -/

/-- The four bytes of a word. -/
def le32 (x : Int32) : Bytes :=
  let u := x.toUInt32
  [u.toUInt8, (u >>> 8).toUInt8, (u >>> 16).toUInt8, (u >>> 24).toUInt8]

def Time.bytes (t : Time) : Bytes := le32 t.hour ++ le32 t.min

def PowerEvent.bytes (e : PowerEvent) : Bytes :=
  e.startTime.bytes ++ e.endTime.bytes ++ le32 e.daysRepeat ++ le32 e.port ++
    e.active :: e.padding.toList

def PortInfo.bytes (p : PortInfo) : Bytes :=
  le32 p.portPinNumber ++ le32 p.type ++ p.portName.toList

def FlashData.bytes (f : FlashData) : Bytes :=
  le32 f.magic ++ f.ssid.toList ++ f.password.toList ++
    f.powerEvents.toList.flatMap PowerEvent.bytes ++ f.ports.toList.flatMap PortInfo.bytes ++
    le32 f.sntp ++ le32 f.serverPort ++ f.settings.toList

lemma length_le32 (x : Int32) : (le32 x).length = 4 := rfl

lemma length_timeBytes (t : Time) : t.bytes.length = 8 := rfl

lemma length_powerEventBytes (e : PowerEvent) : e.bytes.length = 28 := by
  simp [PowerEvent.bytes, length_le32, length_timeBytes]

lemma length_portInfoBytes (p : PortInfo) : p.bytes.length = 28 := by
  simp [PortInfo.bytes, length_le32]

/-- The record is as long as the settings it is a union with. -/
theorem length_flashDataBytes (f : FlashData) : f.bytes.length = 128 * 8 := by
  have he : (f.powerEvents.toList.flatMap PowerEvent.bytes).length = 280 := by
    rw [List.length_flatMap, List.map_congr_left fun e _ => length_powerEventBytes e]
    simp
  have hp : (f.ports.toList.flatMap PortInfo.bytes).length = 224 := by
    rw [List.length_flatMap, List.map_congr_left fun p _ => length_portInfoBytes p]
    simp
  simp [FlashData.bytes, length_le32, he, hp]

/-! ### The strings of the record, as `%s` reads them -/

def FlashData.ssidStr (f : FlashData) : Bytes := cstr (f.bytes.drop 4)

def FlashData.passwordStr (f : FlashData) : Bytes := cstr (f.bytes.drop 36)

def FlashData.portNameStr (f : FlashData) (i : ℕ) : Bytes := cstr (f.bytes.drop (380 + 28 * i + 8))

/-! ### Indexing a C array -/

section Index

variable {α : Type*} {n : ℕ}

/-- `a[i] = x` -/
def setAt (a : Vector α n) (i : Fin n) (x : α) : Vector α n := a.set i x

lemma get_eq_getElem (a : Vector α n) (i : Fin n) : a.get i = a[i] := rfl

theorem get_setAt (a : Vector α n) (i j : Fin n) (x : α) :
    (setAt a i x).get j = if j = i then x else a.get j := by
  rw [get_eq_getElem, get_eq_getElem, setAt]
  by_cases h : j = i
  · subst h; simp
  · have : (i : ℕ) ≠ j := fun e => h (Fin.ext e.symm)
    simp [h, this]

@[simp] theorem get_setAt_self (a : Vector α n) (i : Fin n) (x : α) : (setAt a i x).get i = x := by
  rw [get_setAt, if_pos rfl]

@[simp] theorem setAt_setAt (a : Vector α n) (i : Fin n) (x y : α) :
    setAt (setAt a i x) i y = setAt a i y := by
  simp [setAt]

end Index

/-- The slot that an index names, if it names one. -/
def slot? (n : ℕ) (i : Int32) : Option (Fin n) :=
  if h : 0 ≤ i.toInt ∧ i.toInt < n then some ⟨i.toInt.toNat, by omega⟩ else none

theorem slot?_eq_some_iff {n : ℕ} {i : Int32} {j : Fin n} : slot? n i = some j ↔ i.toInt = j := by
  unfold slot?
  split
  · rename_i h
    simp only [Option.some.injEq, Fin.ext_iff]
    omega
  · rename_i h
    have := j.isLt
    constructor
    · rintro ⟨⟩
    · intro e; omega

/-- `a[i] = f(a[i])`.  Outside the array nothing of it changes; what does is not modelled. -/
def modifyAt {α : Type*} {n : ℕ} (a : Vector α n) (i : Int32) (f : α → α) : Vector α n :=
  match slot? n i with
  | some j => setAt a j (f (a.get j))
  | none => a

end Esp8266Rest.Model
