import Esp8266Rest.Lib.Layout
import Esp8266Rest.Model.Common

/-!
# The memory image of the record

`FlashData` is put together from words and bytes as the compiler lays it out, so any 1024 bytes are the
image of one record (`flashData`).  The strings of the record are read from its image; one that holds a
NUL ends within its own array.
-/

namespace Esp8266Rest.Config

open Esp8266Rest.Lib.CStr Esp8266Rest.Lib.Layout Esp8266Rest.Model

namespace Image

/-! ### The parts of the record -/

def int : Codec Int32 :=
  Codec.word.map ⟨UInt32.toInt32, Int32.toUInt32, fun _ => rfl, fun _ => rfl⟩

def chars (n : ℕ) : Codec (Vector UInt8 n) := Codec.byte.array n

def time : Codec Time :=
  (int.prod int).map ⟨fun p => ⟨p.1, p.2⟩, fun t => (t.hour, t.min), fun _ => rfl, fun _ => rfl⟩

def powerEvent : Codec PowerEvent :=
  (time.prod (time.prod (int.prod (int.prod (Codec.byte.prod (chars 3)))))).map
    ⟨fun ⟨s, e, d, p, a, x⟩ => ⟨s, e, d, p, a, x⟩,
      fun e => (e.startTime, e.endTime, e.daysRepeat, e.port, e.active, e.padding),
      fun _ => rfl, fun _ => rfl⟩

def portInfo : Codec PortInfo :=
  (int.prod (int.prod (chars 20))).map
    ⟨fun ⟨n, t, s⟩ => ⟨n, t, s⟩, fun p => (p.portPinNumber, p.type, p.portName),
      fun _ => rfl, fun _ => rfl⟩

def flashData : Codec FlashData :=
  (int.prod ((chars 32).prod ((chars 64).prod ((powerEvent.array 10).prod
    ((portInfo.array 8).prod (int.prod (int.prod (chars 412)))))))).map
    ⟨fun ⟨m, s, w, e, p, z, n, x⟩ => ⟨m, s, w, e, p, z, n, x⟩,
      fun f => (f.magic, f.ssid, f.password, f.powerEvents, f.ports, f.sntp, f.serverPort, f.settings),
      fun _ => rfl, fun _ => rfl⟩

lemma int_enc (x : Int32) : int.enc x = le32 x := rfl

lemma chars_enc {n : ℕ} (v : Vector UInt8 n) : (chars n).enc v = v.toList :=
  List.flatMap_singleton' v.toList

lemma time_enc (t : Time) : time.enc t = t.bytes := rfl

theorem powerEvent_enc (e : PowerEvent) : powerEvent.enc e = e.bytes := by
  have h : powerEvent.enc e = time.enc e.startTime ++ (time.enc e.endTime ++ (int.enc e.daysRepeat ++
      (int.enc e.port ++ ([e.active] ++ (chars 3).enc e.padding)))) := rfl
  rw [h, chars_enc]
  simp [time_enc, int_enc, PowerEvent.bytes]

theorem portInfo_enc (p : PortInfo) : portInfo.enc p = p.bytes := by
  have h : portInfo.enc p = int.enc p.portPinNumber ++ (int.enc p.type ++ (chars 20).enc p.portName) := rfl
  rw [h, chars_enc]
  simp [int_enc, PortInfo.bytes]

/-- **The image of the record** is the layout of its parts. -/
theorem flashData_enc (f : FlashData) : flashData.enc f = f.bytes := by
  have h : flashData.enc f = int.enc f.magic ++ ((chars 32).enc f.ssid ++ ((chars 64).enc f.password ++
      (f.powerEvents.toList.flatMap powerEvent.enc ++ (f.ports.toList.flatMap portInfo.enc ++
        (int.enc f.sntp ++ (int.enc f.serverPort ++ (chars 412).enc f.settings)))))) := rfl
  have he : powerEvent.enc = PowerEvent.bytes := funext powerEvent_enc
  have hp : portInfo.enc = PortInfo.bytes := funext portInfo_enc
  rw [h, chars_enc, chars_enc, chars_enc, he, hp]
  simp [int_enc, FlashData.bytes]

/-! ### Images and records -/

/-- The record whose image these bytes are. -/
def record (image : Bytes) : FlashData := flashData.dec image

theorem record_eq_iff {image : Bytes} (h : image.length = 1024) {f : FlashData} :
    record image = f ↔ image = f.bytes := by
  rw [← flashData_enc]
  exact flashData.dec_eq_iff h

lemma record_bytes (f : FlashData) : record f.bytes = f :=
  (record_eq_iff (length_flashDataBytes f)).2 rfl

lemma record_magic (image : Bytes) : (record image).magic = int.dec image := rfl

theorem magic_of_take (f : FlashData) (rest : Bytes) :
    (record (f.bytes.take 4 ++ rest)).magic = f.magic := by
  have h : f.bytes.take 4 = int.enc f.magic := by
    unfold FlashData.bytes
    simp only [List.append_assoc]
    exact List.take_left' (length_le32 f.magic)
  rw [record_magic, h, int.dec_enc]

end Image

/-! ### The strings of the record -/

section Strings

variable (f : FlashData)

theorem bytes_eq : f.bytes = le32 f.magic ++ (f.ssid.toList ++ (f.password.toList ++
    (f.powerEvents.toList.flatMap PowerEvent.bytes ++ (f.ports.toList.flatMap PortInfo.bytes ++
      (le32 f.sntp ++ le32 f.serverPort ++ f.settings.toList))))) := by
  simp [FlashData.bytes]

lemma ssid_at : f.ssid.toList <+: f.bytes.drop 4 := by
  rw [bytes_eq, List.drop_left' (length_le32 _)]
  exact List.prefix_append _ _

theorem password_at : f.password.toList <+: f.bytes.drop 36 := by
  have hssid : f.ssid.toList.length = 32 := f.ssid.length_toList
  have h : f.bytes.drop 36 = (f.bytes.drop 4).drop 32 := by rw [List.drop_drop]
  rw [h, bytes_eq, List.drop_left' (length_le32 _), List.drop_left' hssid]
  exact List.prefix_append _ _

theorem portName_at (p : Fin 8) :
    (f.ports.get p).portName.toList <+: f.bytes.drop (380 + 28 * p + 8) := by
  have hssid : f.ssid.toList.length = 32 := f.ssid.length_toList
  have hpassword : f.password.toList.length = 64 := f.password.length_toList
  have hevents : (f.powerEvents.toList.flatMap PowerEvent.bytes).length = 280 := by
    rw [length_flatMap_enc length_powerEventBytes, Vector.length_toList]
  have hp : (p : ℕ) < f.ports.toList.length := by
    rw [Vector.length_toList]
    exact p.isLt
  have hports : 28 * (p : ℕ) ≤ (f.ports.toList.flatMap PortInfo.bytes).length := by
    rw [length_flatMap_enc length_portInfoBytes]
    exact Nat.mul_le_mul_left _ hp.le
  have hget : f.ports.toList[(p : ℕ)] = f.ports.get p := by
    rw [Vector.getElem_toList, get_eq_getElem, Fin.getElem_fin]
  have hname : ∀ q : PortInfo,
      q.bytes = (le32 q.portPinNumber ++ le32 q.type) ++ q.portName.toList := fun _ => rfl
  have hnumbers : (le32 (f.ports.get p).portPinNumber ++ le32 (f.ports.get p).type).length = 8 := rfl
  have h : f.bytes.drop (380 + 28 * p + 8) =
      (((((f.bytes.drop 4).drop 32).drop 64).drop 280).drop (28 * p)).drop 8 := by
    simp only [List.drop_drop, Nat.reduceAdd]
  rw [h, bytes_eq, List.drop_left' (length_le32 _), List.drop_left' hssid, List.drop_left' hpassword,
    List.drop_left' hevents, List.drop_append_of_le_length hports,
    drop_flatMap_enc length_portInfoBytes hp, hget, hname, List.append_assoc, List.append_assoc,
    List.drop_left' hnumbers]
  exact List.prefix_append _ _

/-- Every string of the record has a NUL within its own array. -/
structure Terminated : Prop where
  ssid : 0 ∈ f.ssid.toList
  password : 0 ∈ f.password.toList
  portName : ∀ p : Fin 8, 0 ∈ (f.ports.get p).portName.toList

/-- Every `%s` of a string of the record reads only its own array. -/
structure ReadsOwn : Prop where
  ssid : f.ssidStr = cstr f.ssid.toList
  password : f.passwordStr = cstr f.password.toList
  portName : ∀ p : Fin 8, f.portNameStr p = cstr (f.ports.get p).portName.toList

variable {f}

/-- **A string with a NUL is read by itself.** -/
theorem Terminated.readsOwn (h : Terminated f) : ReadsOwn f where
  ssid := cstr_of_prefix h.ssid (ssid_at f)
  password := cstr_of_prefix h.password (password_at f)
  portName p := cstr_of_prefix (h.portName p) (portName_at f p)

end Strings

end Esp8266Rest.Config
