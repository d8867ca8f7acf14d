import Esp8266Rest.Lib.Stored
import Esp8266Rest.Outputs.Ticks
import Esp8266Rest.Outputs.Door

/-!
# The record of the configuration

Seven commands work on the record in RAM and its copy in the flash sector.  Six of them edit the record
and write it back, `getwifi` loads it (`opTable`); all the rest of the device leaves both alone
(`copies_step`).  So the two copies of the board are a machine of `Lib.Stored`.
-/

namespace Esp8266Rest.Config

open Esp8266Rest.Lib.CStr Esp8266Rest.Lib.Runs Esp8266Rest.Lib.Stored Esp8266Rest.Model
  Esp8266Rest.Url Esp8266Rest.Outputs

/-! ### Loading -/

/-- What `ReadFromFlash` makes of a record with the magic number. -/
def adapted (f : FlashData) : FlashData := if f.serverPort = 0 then { f with serverPort := 80 } else f

lemma adapted_magic (f : FlashData) : (adapted f).magic = f.magic := by
  unfold adapted
  split <;> rfl

theorem adapted_adapted (f : FlashData) : adapted (adapted f) = adapted f := by
  by_cases h : f.serverPort = 0
  · simp [adapted, h]
  · simp [adapted, h]

/-- The record of the source as a stored one. -/
def loader : Loader FlashData where
  valid f := f.magic = magicNum
  adapt := adapted
  fresh := initFlash
  adapt_valid f h := by rwa [adapted_magic]
  adapt_adapt := adapted_adapted
  fresh_valid f := by simp [initFlash]

/-- The record in RAM and its copy in the sector. -/
def copies (b : Board) : Copies FlashData := ⟨b.flashData, b.flash⟩

theorem copies_eq_iff {b : Board} {f g : FlashData} :
    copies b = ⟨f, g⟩ ↔ b.flashData = f ∧ b.flash = g := by
  unfold copies
  rw [Copies.mk.injEq]

theorem readFromFlash_board (r : Rest) : (readFromFlash r).board =
    if r.board.flash.magic = magicNum then { r.board with flashData := adapted r.board.flash }
    else { r.board with flashData := initFlash r.board.flash, flash := initFlash r.board.flash } := by
  have hport : ∀ f : FlashData, (initFlash f).serverPort = 80 := fun _ => rfl
  unfold readFromFlash adapted
  by_cases hm : r.board.flash.magic = magicNum
  · by_cases hp : r.board.flash.serverPort = 0 <;> simp [hm, hp]
  · simp [hm, hport]

theorem readFromFlash_copies (r : Rest) :
    copies (readFromFlash r).board = loader.reload (copies r.board) := by
  unfold Loader.reload
  by_cases hm : r.board.flash.magic = magicNum
  · simp [readFromFlash_board, hm, copies, loader]
  · simp [readFromFlash_board, hm, copies, loader]

/-! ### Editing -/

/-- `doSetWifi` stores the buffers as they are, with what lies behind their strings. -/
def setWifi (conn : Conn) (f : FlashData) : FlashData :=
  { f with
    magic := magicNum
    ssid := bytesToVector 32 (getValue (conn.buffer 0 120) conn.url slash 2).param.mem
    password := bytesToVector 64 (getValue (conn.buffer 1 120) conn.url slash 3).param.mem }

/-- What `doSetEvent` makes of the event; it keeps the days and the padding. -/
def setEvent (u : Bytes) (e : PowerEvent) : PowerEvent :=
  { e with
    active := (atoi (field u 3)).toUInt32.toUInt8
    port := atoi (field u 4)
    startTime := ⟨atoi (timePart u 5 0), atoi (timePart u 5 1)⟩
    endTime := ⟨atoi (timePart u 6 0), atoi (timePart u 6 1)⟩ }

def namePort (u : Bytes) (p : PortInfo) : PortInfo := { p with portName := portName (field u 3) }

/-- What `doInitialize` makes of the record; it keeps the credentials. -/
def initialized (f : FlashData) : FlashData :=
  { f with
    sntp := 3
    serverPort := 80
    ports := Vector.ofFn fun i =>
      { portPinNumber := portPinNumber.get i, type := portOutput,
        portName := portName (ascii "Output" ++ decimal (i : ℕ)) }
    powerEvents := f.powerEvents.map fun e =>
      { e with active := 0, port := 0, startTime := ⟨0, 0⟩, endTime := ⟨0, 0⟩ } }

/-- An edit that is made when the URL has a field `2`. -/
def ifGiven (u : Bytes) (f : FlashData → FlashData) (d : FlashData) : Option FlashData :=
  if field u 2 = [] then none else some (f d)

/-- What the commands do to the record. -/
def opTable : List (Bytes × (Conn → Op FlashData)) :=
  [(ascii "setwifi", fun conn => .edit fun f => some (setWifi conn f)),
    (ascii "getwifi", fun _ => .reload),
    (ascii "event", fun conn => .edit fun f =>
      some { f with powerEvents := modifyAt f.powerEvents (number (ascii "event") conn.url)
                                     (setEvent conn.url) }),
    (ascii "portinfo", fun conn => .edit fun f =>
      some { f with ports := modifyAt f.ports (number (ascii "portinfo") conn.url)
                               (namePort conn.url) }),
    (ascii "initialize", fun _ => .edit fun f => some (initialized f)),
    (ascii "sntp", fun conn => .edit
      (ifGiven conn.url fun f => { f with sntp := atoi (field conn.url 2) })),
    (ascii "wifiport", fun conn => .edit
      (ifGiven conn.url fun f => { f with serverPort := atoi (field conn.url 2) }))]

/-- What a command does to the record, if anything. -/
def recordOps (conn : Conn) (name : Bytes) : List (Op FlashData) :=
  ((opTable.lookup name).map fun op => op conn).toList

/-- `r'` is `r` with the operations of command `name` done to its record. -/
def Records (conn : Conn) (name : Bytes) (r r' : Rest) : Prop :=
  copies r'.board = run loader.step (copies r.board) (recordOps conn name)

theorem modifyAt_modifyAt {α : Type*} {n : ℕ} (a : Vector α n) (i : Int32) (f g : α → α) :
    modifyAt (modifyAt a i f) i g = modifyAt a i fun x => g (f x) := by
  cases hs : slot? n i with
  | none => simp [modifyAt, hs]
  | some p => simp [modifyAt, hs]

section Handlers

variable (conn : Conn) (r : Rest)

theorem doSetWifi_records : Records conn (ascii "setwifi") r (doSetWifi conn r) := by
  have hop : recordOps conn (ascii "setwifi") = [.edit fun f => some (setWifi conn f)] := rfl
  unfold Records
  rw [hop]
  simp [doSetWifi, sendHTTPResponse, copies, Loader.step, setWifi]

theorem doGetWifi_records : Records conn (ascii "getwifi") r (doGetWifi conn r) := by
  have hop : recordOps conn (ascii "getwifi") = [.reload] := rfl
  unfold Records
  rw [hop]
  simp only [doGetWifi, sendHTTPResponse, respondJson_board, osSprintf_board]
  exact readFromFlash_copies r

theorem doSetEvent_records : Records conn (ascii "event") r (doSetEvent conn r) := by
  have hop : recordOps conn (ascii "event") = [.edit fun f =>
      some { f with powerEvents := modifyAt f.powerEvents (number (ascii "event") conn.url)
                                     (setEvent conn.url) }] := rfl
  have hn : number (ascii "event") conn.url = atoi (piece conn.url slash 2) :=
    number_of_ne (by decide) _
  unfold Records
  rw [hop]
  simp only [doSetEvent, doGetEvents, respondJson_board]
  -- the six writes are one
  simp [copies, Loader.step, Rest.setEvent, modifyAt_modifyAt, getValue_str, piece_param, hn]
  rfl

theorem doSetPorts_records : Records conn (ascii "portinfo") r (doSetPorts conn r) := by
  have hop : recordOps conn (ascii "portinfo") = [.edit fun f =>
      some { f with ports := modifyAt f.ports (number (ascii "portinfo") conn.url)
                               (namePort conn.url) }] := rfl
  have hn : number (ascii "portinfo") conn.url = atoi (piece conn.url slash 2) :=
    number_of_ne (by decide) _
  unfold Records
  rw [hop]
  simp [doSetPorts, doGetPorts, copies, Loader.step, getValue_str, hn]
  rfl

theorem doInitialize_records : Records conn (ascii "initialize") r (doInitialize conn r) := by
  have hop : recordOps conn (ascii "initialize") = [.edit fun f => some (initialized f)] := rfl
  unfold Records
  rw [hop]
  simp [doInitialize, foldl_osSprintf, copies, Loader.step, initialized]

theorem setNumber_records {name : Bytes} (set : Int32 → FlashData → FlashData)
    (hop : recordOps conn name = [.edit (ifGiven conn.url (set (atoi (field conn.url 2))))])
    (shown : String) (get : FlashData → Int32) :
    Records conn name r (setNumber shown get set conn r) := by
  unfold Records
  rw [hop]
  simp only [setNumber, respondJson_board, getValue_ret_ne, getValue_str, run_cons, run_nil]
  by_cases h : piece conn.url slash 2 = []
  · simp [copies, Loader.step, ifGiven, field, h]
  · simp [copies, Loader.step, ifGiven, field, h]

lemma doSNTP_records : Records conn (ascii "sntp") r (doSNTP conn r) :=
  setNumber_records conn r (fun v f => { f with sntp := v }) rfl _ _

lemma doWifiport_records : Records conn (ascii "wifiport") r (doWifiport conn r) :=
  setNumber_records conn r (fun v f => { f with serverPort := v }) rfl _ _

theorem records_of_eq {name : Bytes} {r' : Rest} (hop : recordOps conn name = [])
    (h : copies r'.board = copies r.board) : Records conn name r r' := by
  unfold Records
  rw [hop, h]
  rfl

theorem portPinSet_copies (n : Int32) (v : UInt8) :
    copies (portPinSet n v r).board = copies r.board := by
  obtain ⟨_, _, _, h⟩ := portPinSet_frame n v r
  rw [h]
  rfl

theorem doSetPin_records : Records conn (ascii "setpin") r (doSetPin conn r) := by
  refine records_of_eq conn r rfl ?_
  rw [doSetPin_board]
  exact portPinSet_copies r _ _

theorem doFlipinput_records : Records conn (ascii "flipinput") r (doFlipinput conn r) := by
  refine records_of_eq conn r rfl ?_
  rw [doFlipinput_board]
  exact portPinSet_copies r _ _

theorem doOpen_records : Records conn (ascii "open") r (doOpen conn r) := by
  refine records_of_eq conn r rfl ?_
  rw [doOpen_board, ← portPinSet_copies r (openPort conn.url) 1]
  generalize (portPinSet (openPort conn.url) 1 r).board = b
  rfl

lemma respondJson_records {name : Bytes} (hop : recordOps conn name = []) (body : List Part) :
    Records conn name r (respondJson conn body r) :=
  records_of_eq conn r hop (by rw [respondJson_board])

/-- **What every command does to the record.** -/
theorem handler_records : ∀ p ∈ commands, Records conn p.command r (p.f conn r) := by
  rw [forall_commands]
  dsimp only
  refine ⟨doFlipinput_records conn r, doOpen_records conn r, ?_, doSetWifi_records conn r,
    doGetWifi_records conn r, ?_, doSetEvent_records conn r, ?_, ?_, doSetPorts_records conn r,
    doInitialize_records conn r, doSNTP_records conn r, doWifiport_records conn r, ?_,
    doSetPin_records conn r⟩
  · unfold doStatus sendPortStatus
    exact respondJson_records conn r rfl _
  · unfold doGetEvents
    exact respondJson_records conn r rfl _
  · unfold doGetTime
    exact respondJson_records conn r rfl _
  · unfold doGetPorts
    exact respondJson_records conn r rfl _
  · unfold doScanWifi
    exact respondJson_records conn r rfl _

end Handlers

/-! ### The board refines the stored record -/

theorem recordOps_of_notMem {conn : Conn} {name : Bytes} (h : name ∉ commandNames) :
    recordOps conn name = [] := by
  have hkeys : ∀ k ∈ opTable.map Prod.fst, k ∈ commandNames := by decide
  have hnone : opTable.lookup name = none :=
    lookup_eq_none_of_notMem (fun e he => hkeys _ (List.mem_map_of_mem he)) h
  rw [recordOps, hnone]
  rfl

/-- The operations of an event. -/
def opsOf : Event → List (Op FlashData)
  | .request conn => recordOps conn (command conn.url)
  | _ => []

/-- **An event does one thing to the record**, the operation of its command, or none. -/
theorem opsOf_cases (e : Event) :
    (opsOf e = [] ∧ ∀ conn, e = .request conn → opTable.lookup (command conn.url) = none) ∨
    ∃ conn, ∃ entry ∈ opTable, e = .request conn ∧ command conn.url = entry.1 ∧
      opsOf e = [entry.2 conn] := by
  rcases e with conn | ⟨t, tz⟩ | _
  · cases hop : opTable.lookup (command conn.url) with
    | none =>
      refine .inl ⟨?_, ?_⟩
      · simp only [opsOf, recordOps, hop]
        rfl
      · rintro _ ⟨⟩
        exact hop
    | some op =>
      obtain ⟨l₁, l₂, hl, -⟩ := List.lookup_eq_some_iff.1 hop
      refine .inr ⟨conn, (command conn.url, op), by rw [hl]; simp, rfl, rfl, ?_⟩
      simp only [opsOf, recordOps, hop]
      rfl
  · exact .inl ⟨rfl, nofun⟩
  · exact .inl ⟨rfl, nofun⟩

theorem request_copies (conn : Conn) (r : Rest) : copies (parseURLCommand conn r).board =
    run loader.step (copies r.board) (recordOps conn (command conn.url)) := by
  by_cases hmem : command conn.url ∈ commandNames
  · obtain ⟨p, hp, hname, heq⟩ := parseURLCommand_of_mem hmem r
    have key := handler_records conn (dispatched conn (command conn.url) r) p hp
    rw [heq, ← hname]
    rw [← hname] at key
    exact key
  · rw [parseURLCommand_of_notMem hmem, recordOps_of_notMem hmem]
    rfl

/-- **The record of the board is a stored record**: an event does to it the operations of its command,
and ticks and expiries do nothing. -/
theorem copies_step (r : Rest) (e : Event) :
    copies (step r e).board = run loader.step (copies r.board) (opsOf e) := by
  rcases e with conn | ⟨t, tz⟩ | _
  · rw [step, request_copies]
    rfl
  · obtain ⟨_, _, _, h⟩ := oneSecLoop_frame (r.setClock t tz)
    rw [step_tick, h]
    rfl
  · cases ha : r.board.openTimer.armed with
    | false =>
      rw [step, openTimerExpire_idle ha]
      rfl
    | true =>
      rw [step, openTimerExpire_armed ha, portPinSet_copies]
      rfl

theorem copies_run (r : Rest) (es : List Event) :
    copies (run step r es).board = run loader.step (copies r.board) (es.flatMap opsOf) := by
  induction es generalizing r with
  | nil => rfl
  | cons e es ih => rw [run_cons, ih, copies_step, List.flatMap_cons, run_append]

end Esp8266Rest.Config
