import Esp8266Rest.Config.Image
import Esp8266Rest.Outputs.Pins

/-!
# The body of a response

`bodyTable` lists what each command answers: a list of parts, from the board that its handler leaves
and the URL (`request_responds`).  What sending these parts does follows from their texts alone
(`respondJson_sends`), as long as they fit into the send buffer together.
-/

namespace Esp8266Rest.Reply

open Esp8266Rest.Lib.CStr Esp8266Rest.Model Esp8266Rest.Url Esp8266Rest.Outputs

/-! ### Sending parts -/

/-- The data of a part. -/
def partText : Part → Bytes
  | .lit text => text
  | .fmt _ text => text

/-- What formatting a part writes, with its NUL, and the size of the buffer. -/
def partFormat : Part → Option Copy
  | .lit _ => none
  | .fmt cap text => some ⟨text.length + 1, cap⟩

/-- The texts of parts, one behind the other. -/
def bodyText (ps : List Part) : Bytes := ps.flatMap partText

@[simp] theorem bodyText_nil : bodyText [] = [] := rfl

@[simp] theorem bodyText_cons (p : Part) (ps : List Part) : bodyText (p :: ps) = partText p ++ bodyText ps :=
  List.flatMap_cons

@[simp] theorem bodyText_append (ps qs : List Part) : bodyText (ps ++ qs) = bodyText ps ++ bodyText qs :=
  List.flatMap_append

/-- Every part was queued whole. -/
def queuedAll (ps : List Part) : List (Bytes × Bool) := ps.map fun p => (partText p, true)

theorem sendPart_formatted (r : Rest) (p : Part) :
    (sendPart r p).log.formatted = r.log.formatted ++ (partFormat p).toList := by
  cases p with
  | lit text =>
    unfold sendPart httpdSend partFormat
    dsimp only
    split
    · simp
    · simp
  | fmt cap text =>
    unfold sendPart httpdSend partFormat
    dsimp only
    split
    · rfl
    · rfl

theorem sendParts_formatted (ps : List Part) (r : Rest) :
    (ps.foldl sendPart r).log.formatted = r.log.formatted ++ ps.filterMap partFormat := by
  induction ps generalizing r with
  | nil => simp
  | cons p ps ih =>
    rw [List.foldl_cons, ih, sendPart_formatted, List.filterMap_cons]
    cases partFormat p <;> simp

theorem sendPart_sends {r : Rest} {p : Part} (h : r.sendBuff.length + (partText p).length ≤ maxSendbuffLen) :
    (sendPart r p).sendBuff = r.sendBuff ++ partText p ∧
    (sendPart r p).log.queued = r.log.queued ++ [(partText p, true)] ∧
    (sendPart r p).log.sent = r.log.sent := by
  cases p with
  | lit text =>
    have hfits : ¬ maxSendbuffLen < r.sendBuff.length + text.length := not_lt.2 h
    unfold sendPart httpdSend
    dsimp only
    rw [if_neg hfits]
    exact ⟨rfl, rfl, rfl⟩
  | fmt cap text =>
    have hfits : ¬ maxSendbuffLen < (osSprintf cap text r).sendBuff.length + text.length := not_lt.2 h
    unfold sendPart httpdSend
    dsimp only
    rw [if_neg hfits]
    exact ⟨rfl, rfl, rfl⟩

/-- **Parts that fit together** are queued whole, in their order. -/
theorem sendParts_sends (ps : List Part) {r : Rest}
    (h : r.sendBuff.length + (bodyText ps).length ≤ maxSendbuffLen) :
    (ps.foldl sendPart r).sendBuff = r.sendBuff ++ bodyText ps ∧
    (ps.foldl sendPart r).log.queued = r.log.queued ++ queuedAll ps ∧
    (ps.foldl sendPart r).log.sent = r.log.sent := by
  induction ps generalizing r with
  | nil => simp [queuedAll]
  | cons p ps ih =>
    rw [bodyText_cons, List.length_append] at h
    obtain ⟨hbuff, hqueued, hsent⟩ := sendPart_sends (r := r) (p := p) (by omega)
    have hroom : (sendPart r p).sendBuff.length + (bodyText ps).length ≤ maxSendbuffLen := by
      rw [hbuff, List.length_append]
      omega
    obtain ⟨hbuff', hqueued', hsent'⟩ := ih hroom
    rw [List.foldl_cons]
    refine ⟨?_, ?_, hsent'.trans hsent⟩
    · rw [hbuff', hbuff, bodyText_cons, List.append_assoc]
    · rw [hqueued', hqueued, List.append_assoc]
      rfl

/-- From `r` to `r'` the parts `ps` were queued whole, and their texts were sent as one buffer. -/
structure Sends (conn : Conn) (ps : List Part) (r r' : Rest) : Prop where
  queued : r'.log.queued = r.log.queued ++ queuedAll ps
  sent : r'.log.sent = r.log.sent ++ [(conn.conn, bodyText ps)]
  sendBuff : r'.sendBuff = []

lemma header_ne_nil : bodyText startResponseJson ≠ [] := by
  simp [startResponseJson, startResponse, partText, ascii]

/-- **A response that fits** into the send buffer is sent whole. -/
theorem respondJson_sends (conn : Conn) (body : List Part) {r : Rest} (hempty : r.sendBuff = [])
    (h : (bodyText (startResponseJson ++ body)).length ≤ maxSendbuffLen) :
    Sends conn (startResponseJson ++ body) r (respondJson conn body r) := by
  have hroom : r.sendBuff.length + (bodyText (startResponseJson ++ body)).length ≤ maxSendbuffLen := by
    rw [hempty]
    simpa using h
  obtain ⟨hbuff, hqueued, hsent⟩ := sendParts_sends _ hroom
  have hne : (bodyText (startResponseJson ++ body)).length ≠ 0 := by
    rw [bodyText_append, List.length_append]
    have hhead := List.length_pos_iff.2 header_ne_nil
    omega
  rw [hempty, List.nil_append] at hbuff
  unfold respondJson xmitSendBuff
  rw [hbuff, if_pos hne]
  exact ⟨hqueued, by rw [hsent], rfl⟩

theorem respondJson_formatted (conn : Conn) (body : List Part) (r : Rest) :
    (respondJson conn body r).log.formatted =
      r.log.formatted ++ (startResponseJson ++ body).filterMap partFormat := by
  rw [← sendParts_formatted]
  unfold respondJson xmitSendBuff
  split <;> rfl

/-! ### The bodies -/

def timeBody (b : Board) : List Part :=
  [.lit (ascii "\x7b\"time\":\x7b"), .fmt 50 (clockText b ++ ascii "\""), .lit (ascii "\x7d\x7d")]

def openBody (n : Int32) : List Part :=
  [.fmt 50 (ascii "\x7b\"Open\": " ++ decimal n.toInt ++ ascii " \x7d")]

/-- What `doSetWifi` shows of the password. -/
def shownPassword (pass : Bytes) : Bytes := pass.take (if 3 < pass.length then pass.length / 2 else 3)

def setWifiText (u : Bytes) (b : Board) : Bytes :=
  ascii "\x7b'ssid':'" ++ b.flashData.ssidStr ++ ascii "', 'pass':'" ++ shownPassword (field u 3) ++
    ascii "...'\x7d"

def getWifiText (b : Board) : Bytes :=
  ascii "\x7b'ssid':'" ++ b.flashData.ssidStr ++ ascii "', 'pass':'" ++ b.flashData.passwordStr ++
    ascii "', 'IP':'" ++ b.ipStation ++ ascii "', Port:'" ++ decimal b.flashData.serverPort.toInt ++
    ascii "'\x7d"

/-- The commands that answer, with their bodies. -/
def bodyTable : List (Bytes × (Bytes → Board → List Part)) :=
  [(ascii "flipinput", fun _ => portStatusBody 200),
    (ascii "open", fun u _ => openBody (openPort u)),
    (ascii "status", fun _ => portStatusBody 200),
    (ascii "setwifi", fun u b => [.lit (setWifiText u b)]),
    (ascii "getwifi", fun _ b => [.lit (getWifiText b)]),
    (ascii "events", fun _ => eventsBody),
    (ascii "event", fun _ => eventsBody),
    (ascii "time", fun _ => timeBody),
    (ascii "portsinfo", fun _ => portsInfoBody),
    (ascii "portinfo", fun _ => portsInfoBody),
    (ascii "sntp", fun _ b => numberBody "sntp" b.flashData.sntp),
    (ascii "wifiport", fun _ b => numberBody "ServerPort" b.flashData.serverPort),
    (ascii "scan", fun _ => portStatusBody 50),
    (ascii "setpin", fun _ => portStatusBody 200)]

def bodyOf (name u : Bytes) (b : Board) : List Part := ((bodyTable.lookup name).map fun f => f u b).getD []

theorem forall_bodyTable {P : Bytes → (Bytes → Board → List Part) → Prop} :
    (∀ entry ∈ bodyTable, P entry.1 entry.2) ↔
      P (ascii "flipinput") (fun _ => portStatusBody 200) ∧
      P (ascii "open") (fun u _ => openBody (openPort u)) ∧
      P (ascii "status") (fun _ => portStatusBody 200) ∧
      P (ascii "setwifi") (fun u b => [.lit (setWifiText u b)]) ∧
      P (ascii "getwifi") (fun _ b => [.lit (getWifiText b)]) ∧
      P (ascii "events") (fun _ => eventsBody) ∧ P (ascii "event") (fun _ => eventsBody) ∧
      P (ascii "time") (fun _ => timeBody) ∧ P (ascii "portsinfo") (fun _ => portsInfoBody) ∧
      P (ascii "portinfo") (fun _ => portsInfoBody) ∧
      P (ascii "sntp") (fun _ b => numberBody "sntp" b.flashData.sntp) ∧
      P (ascii "wifiport") (fun _ b => numberBody "ServerPort" b.flashData.serverPort) ∧
      P (ascii "scan") (fun _ => portStatusBody 50) ∧ P (ascii "setpin") (fun _ => portStatusBody 200) := by
  simp only [bodyTable, List.forall_mem_cons, List.not_mem_nil, false_implies, implies_true, and_true]

theorem bodyOf_cases (name u : Bytes) (b : Board) :
    (bodyOf name u b = [] ∧ name ∉ bodyTable.map Prod.fst) ∨
    ∃ entry ∈ bodyTable, entry.1 = name ∧ bodyOf name u b = entry.2 u b := by
  unfold bodyOf
  cases hf : bodyTable.lookup name with
  | none =>
    refine .inl ⟨rfl, fun hmem => ?_⟩
    obtain ⟨entry, hentry, rfl⟩ := List.mem_map.1 hmem
    simpa using List.lookup_eq_none_iff.1 hf entry hentry
  | some f =>
    obtain ⟨l₁, l₂, htable, -⟩ := List.lookup_eq_some_iff.1 hf
    exact .inr ⟨(name, f), by rw [htable]; simp, rfl, rfl⟩

/-- What `doSetWifi` and `doGetWifi` format before they answer. -/
def wifiFormats (name u : Bytes) (b : Board) : List Copy :=
  if name = ascii "setwifi" ∨ name = ascii "getwifi" then
    [⟨(bodyText (bodyOf name u b)).length + 1, 256⟩]
  else []

/-- The state `w` in which the handler of `name`, that started in `r`, has the board ready. -/
structure Ready (name u : Bytes) (r w : Rest) : Prop where
  sendBuff : w.sendBuff = r.sendBuff
  queued : w.log.queued = r.log.queued
  sent : w.log.sent = r.log.sent
  formatted : w.log.formatted = r.log.formatted ++ wifiFormats name u w.board
  ipStation : w.board.ipStation = r.board.ipStation

/-- The handler brings the board into a state and answers there with the body of its command. -/
def Responds (conn : Conn) (name : Bytes) (r r' : Rest) : Prop :=
  ∃ w, Ready name conn.url r w ∧ r' = respondJson conn (bodyOf name conn.url w.board) w

/-! ### What the handlers leave alone -/

section Frame

variable (r : Rest)

@[simp] theorem noteCopy_sendBuff (v : Value) : (r.noteCopy v).sendBuff = r.sendBuff := rfl

@[simp] theorem access_sendBuff (arr : Arr) (idx : Int32) : (r.access arr idx).sendBuff = r.sendBuff := rfl

@[simp] theorem mapFlashData_sendBuff (f : FlashData → FlashData) :
    (r.mapFlashData f).sendBuff = r.sendBuff := rfl

@[simp] theorem flashWrite_sendBuff : (flashWrite r).sendBuff = r.sendBuff := rfl

@[simp] theorem setEvent_sendBuff (idx : Int32) (f : PowerEvent → PowerEvent) :
    (r.setEvent idx f).sendBuff = r.sendBuff := rfl

@[simp] theorem osSprintf_sendBuff (cap : ℕ) (text : Bytes) :
    (osSprintf cap text r).sendBuff = r.sendBuff := rfl

@[simp] theorem readFromFlash_sendBuff : (readFromFlash r).sendBuff = r.sendBuff := by
  unfold readFromFlash
  dsimp only
  split <;> split <;> rfl

@[simp] theorem readFromFlash_ipStation : (readFromFlash r).board.ipStation = r.board.ipStation := by
  unfold readFromFlash
  dsimp only
  split <;> split <;> rfl

@[simp] theorem portPinSet_ipStation (n : Int32) (v : UInt8) :
    (portPinSet n v r).board.ipStation = r.board.ipStation := by
  obtain ⟨_, _, _, h⟩ := portPinSet_frame n v r
  rw [h]

@[simp] theorem setPortsVal_ipStation (n : Int32) (v : UInt8) :
    (r.setPortsVal n v).board.ipStation = r.board.ipStation := rfl

@[simp] theorem setEvent_ipStation (idx : Int32) (f : PowerEvent → PowerEvent) :
    (r.setEvent idx f).board.ipStation = r.board.ipStation := rfl

end Frame

section Handlers

variable (conn : Conn) (r : Rest)

theorem Responds.of_plain {name : Bytes} {w r' : Rest} {body : List Part}
    (hname : name ≠ ascii "setwifi" ∧ name ≠ ascii "getwifi") (hbody : bodyOf name conn.url w.board = body)
    (hr' : r' = respondJson conn body w) (hbuff : w.sendBuff = r.sendBuff)
    (hqueued : w.log.queued = r.log.queued) (hsent : w.log.sent = r.log.sent)
    (hformatted : w.log.formatted = r.log.formatted) (hip : w.board.ipStation = r.board.ipStation) :
    Responds conn name r r' := by
  have hnone : wifiFormats name conn.url w.board = [] := if_neg (not_or.2 hname)
  exact ⟨w, ⟨hbuff, hqueued, hsent, by rw [hnone, hformatted, List.append_nil], hip⟩, by rw [hbody, hr']⟩

theorem doSetPin_responds : Responds conn (ascii "setpin") r (doSetPin conn r) := by
  unfold doSetPin sendPortStatus
  dsimp only
  refine Responds.of_plain conn r (by decide) rfl rfl ?_ ?_ ?_ ?_ ?_
  all_goals simp [portPinSet_log]

theorem doFlipinput_responds : Responds conn (ascii "flipinput") r (doFlipinput conn r) := by
  unfold doFlipinput sendPortStatus
  dsimp only
  refine Responds.of_plain conn r (by decide) rfl rfl ?_ ?_ ?_ ?_ ?_
  all_goals
    split
    · simp [portPinSet_log, Rest.setPortsVal, Rest.access]
    · split <;> simp [portPinSet_log]

theorem doOpen_responds : Responds conn (ascii "open") r (doOpen conn r) := by
  have hport : (if (getValue (getValue (conn.buffer 0 50) conn.url slash 2).param conn.url slash 2).ret ≠ -1
      then atoi (getValue (getValue (conn.buffer 0 50) conn.url slash 2).param conn.url slash 2).str
      else 6) = openPort conn.url := by
    simp only [getValue_ret_ne, getValue_str, openPort, number, field]
    split
    · rename_i h
      simp [h]
    · rename_i h
      simp [not_not.1 h]
  unfold doOpen
  dsimp only
  rw [hport]
  refine Responds.of_plain conn r (by decide) rfl rfl ?_ ?_ ?_ ?_ ?_
  all_goals simp [portPinSet_log]

theorem doSetPorts_responds : Responds conn (ascii "portinfo") r (doSetPorts conn r) := by
  unfold doSetPorts doGetPorts
  dsimp only
  refine Responds.of_plain conn r (by decide) rfl rfl ?_ ?_ ?_ ?_ ?_
  all_goals simp

theorem doSetEvent_responds : Responds conn (ascii "event") r (doSetEvent conn r) := by
  unfold doSetEvent doGetEvents
  dsimp only
  refine Responds.of_plain conn r (by decide) rfl rfl ?_ ?_ ?_ ?_ ?_
  all_goals simp

theorem setNumber_responds {name : Bytes} (hname : name ≠ ascii "setwifi" ∧ name ≠ ascii "getwifi")
    {label : String} {get : FlashData → Int32} (set : Int32 → FlashData → FlashData)
    (hbody : ∀ u b, bodyOf name u b = numberBody label (get b.flashData)) :
    Responds conn name r (setNumber label get set conn r) := by
  unfold setNumber
  dsimp only
  refine Responds.of_plain conn r hname (hbody _ _) rfl ?_ ?_ ?_ ?_ ?_
  all_goals split <;> rfl

theorem respondJson_responds {name : Bytes} (hname : name ≠ ascii "setwifi" ∧ name ≠ ascii "getwifi")
    {body : List Part} (hbody : bodyOf name conn.url r.board = body) :
    Responds conn name r (respondJson conn body r) :=
  Responds.of_plain conn r hname hbody rfl rfl rfl rfl rfl rfl

lemma doStatus_responds : Responds conn (ascii "status") r (doStatus conn r) := by
  unfold doStatus sendPortStatus
  exact respondJson_responds conn r (by decide) rfl

lemma doScanWifi_responds : Responds conn (ascii "scan") r (doScanWifi conn r) := by
  unfold doScanWifi
  exact respondJson_responds conn r (by decide) rfl

lemma doGetEvents_responds : Responds conn (ascii "events") r (doGetEvents conn r) := by
  unfold doGetEvents
  exact respondJson_responds conn r (by decide) rfl

lemma doGetTime_responds : Responds conn (ascii "time") r (doGetTime conn r) := by
  unfold doGetTime
  exact respondJson_responds conn r (by decide) rfl

lemma doGetPorts_responds : Responds conn (ascii "portsinfo") r (doGetPorts conn r) := by
  unfold doGetPorts
  exact respondJson_responds conn r (by decide) rfl

lemma doSNTP_responds : Responds conn (ascii "sntp") r (doSNTP conn r) := by
  unfold doSNTP
  exact setNumber_responds conn r (by decide) _ fun _ _ => rfl

lemma doWifiport_responds : Responds conn (ascii "wifiport") r (doWifiport conn r) := by
  unfold doWifiport
  exact setNumber_responds conn r (by decide) _ fun _ _ => rfl

lemma shownPassword_eq (pass : Value) : cstr (pass.param.mem.set
    (if 3 < pass.str.length then pass.str.length / 2 else 3) 0) = shownPassword pass.str := cstr_set _ _

theorem ssidStr_magic (f : FlashData) (m : Int32) :
    ({ f with magic := m } : FlashData).ssidStr = f.ssidStr := by
  unfold FlashData.ssidStr
  rw [Config.bytes_eq, Config.bytes_eq, List.drop_left' (length_le32 _), List.drop_left' (length_le32 _)]

theorem setWifiText_magic (u : Bytes) (b : Board) (m : Int32) :
    setWifiText u { b with flashData := { b.flashData with magic := m } } = setWifiText u b := by
  unfold setWifiText
  dsimp only
  rw [ssidStr_magic]

theorem doSetWifi_responds : Responds conn (ascii "setwifi") r (doSetWifi conn r) := by
  have hbody : ∀ b, bodyOf (ascii "setwifi") conn.url b = [.lit (setWifiText conn.url b)] := fun _ => rfl
  have hpass : (getValue (conn.buffer 1 120) conn.url slash 3).str = field conn.url 3 := getValue_str _ _ _ _
  unfold doSetWifi sendHTTPResponse
  dsimp only
  rw [shownPassword_eq, hpass]
  -- `r₁` is the state in which the text is formatted
  set r₁ := Rest.mapFlashData ((r.noteCopy (getValue (conn.buffer 0 120) conn.url slash 2)).noteCopy
    (getValue (conn.buffer 1 120) conn.url slash 3)) _ with hr₁
  set text := setWifiText conn.url r₁.board with htext
  set w := flashWrite ((osSprintf 256 text r₁).mapFlashData fun f => { f with magic := magicNum })
    with hw
  have hwtext : setWifiText conn.url w.board = text := setWifiText_magic conn.url r₁.board magicNum
  refine ⟨w, ⟨?_, ?_, ?_, ?_, ?_⟩, ?_⟩
  · simp [hw, hr₁]
  · simp [hw, hr₁]
  · simp [hw, hr₁]
  · rw [wifiFormats, hbody, hwtext]
    simp [hw, hr₁, partText]
  · simp [hw, hr₁]
  · rw [hbody, hwtext]
    rfl

theorem doGetWifi_responds : Responds conn (ascii "getwifi") r (doGetWifi conn r) := by
  have hbody : ∀ b, bodyOf (ascii "getwifi") conn.url b = [.lit (getWifiText b)] := fun _ => rfl
  unfold doGetWifi sendHTTPResponse
  dsimp only
  refine ⟨osSprintf 256 (getWifiText (readFromFlash r).board) (readFromFlash r),
    ⟨?_, ?_, ?_, ?_, ?_⟩, rfl⟩
  · simp
  · simp
  · simp
  · simp [wifiFormats, hbody, partText]
  · simp

/-- **Every command but `initialize` answers with its body.** -/
theorem handler_responds : ∀ p ∈ commands, p.command ≠ ascii "initialize" →
    Responds conn p.command r (p.f conn r) := by
  rw [forall_commands]
  dsimp only
  exact ⟨fun _ => doFlipinput_responds conn r, fun _ => doOpen_responds conn r,
    fun _ => doStatus_responds conn r, fun _ => doSetWifi_responds conn r,
    fun _ => doGetWifi_responds conn r, fun _ => doGetEvents_responds conn r,
    fun _ => doSetEvent_responds conn r, fun _ => doGetTime_responds conn r,
    fun _ => doGetPorts_responds conn r, fun _ => doSetPorts_responds conn r,
    fun h => absurd rfl h, fun _ => doSNTP_responds conn r, fun _ => doWifiport_responds conn r,
    fun _ => doScanWifi_responds conn r, fun _ => doSetPin_responds conn r⟩

end Handlers

/-! ### The response to a request -/

/-- **Every request that is answered** is answered with the body of its command. -/
theorem request_responds {conn : Conn} (h : IsAnswered conn.url) (r : Rest) :
    Responds conn (command conn.url) r (parseURLCommand conn r) := by
  obtain ⟨p, hmem, hname, heq⟩ := parseURLCommand_of_mem h.1 r
  obtain ⟨w, hready, hr'⟩ := handler_responds conn (dispatched conn (command conn.url) r) p hmem
    (by rw [hname]; exact h.2)
  rw [hname] at hready hr'
  exact ⟨w, ⟨hready.sendBuff, hready.queued, hready.sent, hready.formatted, hready.ipStation⟩, heq.trans hr'⟩

theorem parseURLCommand_unanswered {conn : Conn} (h : ¬ IsAnswered conn.url) (r : Rest) :
    (command conn.url = ascii "initialize" ∧
      parseURLCommand conn r = doInitialize conn (dispatched conn (ascii "initialize") r)) ∨
    (command conn.url ≠ ascii "initialize" ∧ parseURLCommand conn r = undispatched conn r) := by
  by_cases hinit : command conn.url = ascii "initialize"
  · have hfind : findCommand (ascii "initialize") 15 restPtrsTable =
        some ⟨ascii "initialize", doInitialize⟩ := rfl
    refine .inl ⟨hinit, ?_⟩
    rw [parseURLCommand_eq, hinit, hfind]
  · exact .inr ⟨hinit, parseURLCommand_of_notMem (fun hmem => h ⟨hmem, hinit⟩) r⟩

theorem request_ipStation (conn : Conn) (r : Rest) :
    (parseURLCommand conn r).board.ipStation = r.board.ipStation := by
  by_cases ha : IsAnswered conn.url
  · obtain ⟨w, hready, hr'⟩ := request_responds ha r
    rw [hr', respondJson_board, hready.ipStation]
  · rcases parseURLCommand_unanswered ha r with ⟨-, hr'⟩ | ⟨-, hr'⟩
    · rw [hr', doInitialize, foldl_osSprintf]
      rfl
    · rw [hr']
      rfl

section Request

variable {conn : Conn} (h : IsAnswered conn.url) (r : Rest)
include h

theorem request_formatted : (parseURLCommand conn r).log.formatted = r.log.formatted ++
    (wifiFormats (command conn.url) conn.url (parseURLCommand conn r).board ++
      (startResponseJson ++ bodyOf (command conn.url) conn.url (parseURLCommand conn r).board).filterMap
        partFormat) := by
  obtain ⟨w, hready, hr'⟩ := request_responds h r
  rw [hr', respondJson_formatted, respondJson_board, hready.formatted, List.append_assoc]

/-- **A request whose response fits** into the send buffer is answered whole. -/
theorem request_sends (hempty : r.sendBuff = [])
    (hfits : (bodyText (startResponseJson ++ bodyOf (command conn.url) conn.url
      (parseURLCommand conn r).board)).length ≤ maxSendbuffLen) :
    Sends conn (startResponseJson ++ bodyOf (command conn.url) conn.url (parseURLCommand conn r).board) r
      (parseURLCommand conn r) := by
  obtain ⟨w, hready, hr'⟩ := request_responds h r
  rw [hr', respondJson_board] at hfits ⊢
  have key := respondJson_sends conn _ (hready.sendBuff.trans hempty) hfits
  exact ⟨by rw [key.queued, hready.queued], by rw [key.sent, hready.sent], key.sendBuff⟩

end Request

end Esp8266Rest.Reply
