import Esp8266Rest.Url.Answers
import Esp8266Rest.Url.Commands

/-!
# What a command does with its URL

`Effect` lists what a handler adds to the log that depends on the URL alone: the texts it copies, the
elements it accesses, the answer.  There is one lemma for each handler, and `handler_effect` is all of
them; `request_effect` is the effect of a whole request, the search for its command included.
-/

namespace Esp8266Rest.Url

open Esp8266Rest.Lib.CStr Esp8266Rest.Model

/-! ### The arrays a command indexes -/

/-- The commands that index an array by a number of the URL, and the size of that array. -/
def indexTable : List (Bytes × ℕ) :=
  [(ascii "flipinput", numOfPorts), (ascii "open", numOfPorts),
    (ascii "event", maxTimedPowerEvents), (ascii "portinfo", numOfPorts),
    (ascii "setpin", numOfPorts)]

/-- The port or event number of a URL: field `2`, read by `atoi`.  `open` has a default. -/
def number (name u : Bytes) : Int32 :=
  if name = ascii "open" ∧ field u 2 = [] then 6 else atoi (field u 2)

lemma number_of_ne {name : Bytes} (h : name ≠ ascii "open") (u : Bytes) :
    number name u = atoi (field u 2) := if_neg fun e => h e.1

/-- The number is an index of the array that the command uses it for. -/
def IndexOk (name u : Bytes) : Prop :=
  ∀ n, indexTable.lookup name = some n → 0 ≤ (number name u).toInt ∧ (number name u).toInt < n

instance (name u : Bytes) : Decidable (IndexOk name u) :=
  match h : indexTable.lookup name with
  | none => .isTrue fun n hn => by rw [h] at hn; cases hn
  | some n => decidable_of_iff (0 ≤ (number name u).toInt ∧ (number name u).toInt < n)
      ⟨fun hok k hk => by rw [h] at hk; cases hk; exact hok, fun hok => hok n h⟩

def IsPort (n : Int32) : Prop := 0 ≤ n.toInt ∧ n.toInt < numOfPorts

instance (n : Int32) : Decidable (IsPort n) := by unfold IsPort; infer_instance

lemma portAccesses_ok_iff {n : Int32} : (∀ a ∈ portAccesses n, a.Ok) ↔ IsPort n := by
  unfold portAccesses
  split <;> simp [Access.Ok, Arr.size, IsPort]

/-! ### The effect of a handler -/

/-- What a handler, run under `name` on `conn`, adds to the log: its copies, its array accesses and
its answer.  `initialize` is the one that sends nothing. -/
structure Effect (conn : Conn) (name : Bytes) (r r' : Rest) : Prop where
  copies : r'.log.copies = r.log.copies ++ (cuts name).map (Cut.toCopy conn.url)
  accesses : ∃ as, r'.log.accesses = r.log.accesses ++ as ∧
    ((∀ a ∈ as, a.Ok) ↔ IndexOk name conn.url)
  handlers : r'.log.handlers = r.log.handlers
  sent : if name = ascii "initialize" then r'.log.sent = r.log.sent
    else ∃ buf, buf ≠ [] ∧ r'.log.sent = r.log.sent ++ [(conn.conn, buf)]
  sendBuff : r.sendBuff = [] → r'.sendBuff = []

/-- A command without an entry in `indexTable` indexes nothing. -/
theorem indexOk_of_none {name u : Bytes} (h : indexTable.lookup name = none) : IndexOk name u := by
  intro n hn
  rw [h] at hn
  cases hn

theorem indexOk_of_some {name u : Bytes} {n : ℕ} (h : indexTable.lookup name = some n) :
    IndexOk name u ↔ 0 ≤ (number name u).toInt ∧ (number name u).toInt < n := by
  unfold IndexOk
  simp [h]

section Effects

variable (conn : Conn) (r : Rest)

@[simp] theorem buffer_cap (k n : ℕ) : (conn.buffer k n).cap = n := rfl

theorem respondJson_effect {name : Bytes} (hc : cuts name = []) (hi : indexTable.lookup name = none)
    (hn : name ≠ ascii "initialize") (body : List Part) :
    Effect conn name r (respondJson conn body r) where
  copies := by simp [hc]
  accesses := ⟨[], by simp, by simpa using indexOk_of_none hi⟩
  handlers := by simp
  sent := by
    rw [if_neg hn]
    exact (respondJson_answers conn body r).sent
  sendBuff _ := (respondJson_answers conn body r).sendBuff

/-- A handler that works on the board first: `w` is the state in which it answers. -/
theorem Effect.of_answers {name : Bytes} {w r' : Rest} (h : Answers conn w r')
    (hn : name ≠ ascii "initialize")
    (copies : w.log.copies = r.log.copies ++ (cuts name).map (Cut.toCopy conn.url))
    (accesses : ∃ as, w.log.accesses = r.log.accesses ++ as ∧
      ((∀ a ∈ as, a.Ok) ↔ IndexOk name conn.url))
    (handlers : w.log.handlers = r.log.handlers)
    (sent : w.log.sent = r.log.sent) : Effect conn name r r' where
  copies := h.copies.trans copies
  accesses := by
    obtain ⟨as, ha, hok⟩ := accesses
    exact ⟨as, h.accesses.trans ha, hok⟩
  handlers := h.handlers.trans handlers
  sent := by
    rw [if_neg hn, ← sent]
    exact h.sent
  sendBuff _ := h.sendBuff

theorem doSetPin_effect : Effect conn (ascii "setpin") r (doSetPin conn r) := by
  unfold doSetPin sendPortStatus
  dsimp only
  refine Effect.of_answers conn r (respondJson_answers _ _ _) (by decide) ?_
    ⟨portAccesses (atoi (field conn.url 2)), ?_, ?_⟩ ?_ ?_
  · rw [show cuts (ascii "setpin") = [(.field 2, 10), (.field 3, 10)] from rfl]
    simp [portPinSet_log, getValue_copy, Cut.toCopy, Cut.copied]
  · simp [portPinSet_log, getValue_str, field]
  · rw [portAccesses_ok_iff, indexOk_of_some (n := numOfPorts) rfl]
    rw [number_of_ne (by decide)]
    rfl
  all_goals simp [portPinSet_log]

theorem doFlipinput_effect : Effect conn (ascii "flipinput") r (doFlipinput conn r) := by
  have hok : IndexOk (ascii "flipinput") conn.url ↔ IsPort (atoi (field conn.url 2)) := by
    rw [indexOk_of_some (n := numOfPorts) rfl]
    rw [number_of_ne (by decide)]
    rfl
  have hport := @portAccesses_ok_iff (atoi (field conn.url 2))
  have hpin : (⟨.portPinNumber, atoi (field conn.url 2)⟩ : Access).Ok ↔
      IsPort (atoi (field conn.url 2)) := Iff.rfl
  have hval : (⟨.portsVal, atoi (field conn.url 2)⟩ : Access).Ok ↔
      IsPort (atoi (field conn.url 2)) := Iff.rfl
  have hbit : (⟨.portsBits, atoi (field conn.url 2)⟩ : Access).Ok ↔
      IsPort (atoi (field conn.url 2)) := Iff.rfl
  unfold doFlipinput sendPortStatus
  dsimp only
  refine Effect.of_answers conn r (respondJson_answers _ _ _) (by decide) ?_ ?_ ?_ ?_
  · rw [show cuts (ascii "flipinput") = [(.field 2, 20)] from rfl]
    split
    · simp [portPinSet_log, Rest.setPortsVal, getValue_copy, Cut.toCopy, Cut.copied]
    · split <;> simp [portPinSet_log, getValue_copy, Cut.toCopy, Cut.copied]
  · -- the port on pin 16 is flipped by its value, the others by the register
    by_cases h : readAt portPinNumber (atoi (field conn.url 2)) = 16
    · refine ⟨⟨.portPinNumber, atoi (field conn.url 2)⟩ :: ⟨.portsVal, atoi (field conn.url 2)⟩ ::
        portAccesses (atoi (field conn.url 2)), ?_, ?_⟩
      · have h' : readAt portPinNumber (atoi (piece conn.url slash 2)) = 16 := h
        simp only [getValue_str]
        rw [if_pos h']
        simp [portPinSet_log, Rest.setPortsVal, field]
      · simp [hpin, hval, hport, hok]
    · refine ⟨⟨.portPinNumber, atoi (field conn.url 2)⟩ :: ⟨.portsBits, atoi (field conn.url 2)⟩ ::
        portAccesses (atoi (field conn.url 2)), ?_, ?_⟩
      · have h' : ¬ readAt portPinNumber (atoi (piece conn.url slash 2)) = 16 := h
        simp only [getValue_str]
        rw [if_neg h']
        split <;> simp [portPinSet_log, field]
      · simp [hpin, hbit, hport, hok]
  all_goals
    split
    · simp [portPinSet_log, Rest.setPortsVal]
    · split <;> simp [portPinSet_log]

/-- The port of an `open` request. -/
def openPort (u : Bytes) : Int32 := number (ascii "open") u

theorem doOpen_effect : Effect conn (ascii "open") r (doOpen conn r) := by
  unfold doOpen
  dsimp only
  refine Effect.of_answers conn r (respondJson_answers _ _ _) (by decide) ?_
    ⟨portAccesses (openPort conn.url), ?_, ?_⟩ ?_ ?_
  · rw [show cuts (ascii "open") = [(.field 2, 50), (.field 2, 50)] from rfl]
    simp [portPinSet_log, getValue_copy, getValue_cap, Cut.toCopy, Cut.copied]
  · simp [portPinSet_log, getValue_str, getValue_ret_ne, field, openPort, number]
  · rw [portAccesses_ok_iff, indexOk_of_some (n := numOfPorts) rfl]
    rfl
  all_goals simp [portPinSet_log]

theorem doSetPorts_effect : Effect conn (ascii "portinfo") r (doSetPorts conn r) := by
  unfold doSetPorts doGetPorts
  dsimp only
  refine Effect.of_answers conn r (respondJson_answers _ _ _) (by decide) ?_
    ⟨[⟨.ports, atoi (field conn.url 2)⟩], ?_, ?_⟩ ?_ ?_
  · rw [show cuts (ascii "portinfo") = [(.field 2, 120), (.field 3, 120)] from rfl]
    simp [getValue_copy, getValue_cap, Cut.toCopy, Cut.copied]
  · simp [getValue_str, field]
  · rw [indexOk_of_some (n := numOfPorts) rfl]
    rw [number_of_ne (by decide)]
    simp [Access.Ok, Arr.size]
  all_goals simp

theorem doSetEvent_effect : Effect conn (ascii "event") r (doSetEvent conn r) := by
  unfold doSetEvent doGetEvents
  dsimp only
  refine Effect.of_answers conn r (respondJson_answers _ _ _) (by decide) ?_
    ⟨List.replicate 6 ⟨.powerEvents, atoi (field conn.url 2)⟩, ?_, ?_⟩ ?_ ?_
  · rw [show cuts (ascii "event") = [(.field 2, 120), (.field 3, 120), (.field 4, 120),
      (.field 5, 120), (.timePart 5 0, 10), (.timePart 5 1, 10),
      (.field 6, 120), (.timePart 6 0, 10), (.timePart 6 1, 10), (.field 7, 120)] from rfl]
    simp [getValue_copy, getValue_cap, copied_param, getValue_str, Cut.toCopy, Cut.copied, field]
  · simp [getValue_str, field, List.replicate]
  · rw [indexOk_of_some (n := maxTimedPowerEvents) rfl]
    rw [number_of_ne (by decide)]
    simp [Access.Ok, Arr.size]
  all_goals simp

theorem doSetWifi_effect : Effect conn (ascii "setwifi") r (doSetWifi conn r) := by
  unfold doSetWifi sendHTTPResponse
  dsimp only
  refine Effect.of_answers conn r (respondJson_answers _ _ _) (by decide) ?_
    ⟨[], ?_, by simpa using indexOk_of_none rfl⟩ ?_ ?_
  · rw [show cuts (ascii "setwifi") = [(.field 2, 120), (.field 3, 120)] from rfl]
    simp [getValue_copy, Cut.toCopy, Cut.copied]
  all_goals simp

theorem doGetWifi_effect : Effect conn (ascii "getwifi") r (doGetWifi conn r) := by
  unfold doGetWifi sendHTTPResponse
  dsimp only
  refine Effect.of_answers conn r (respondJson_answers _ _ _) (by decide) ?_
    ⟨[], ?_, by simpa using indexOk_of_none rfl⟩ ?_ ?_
  · rw [show cuts (ascii "getwifi") = [] from rfl]
    simp
  all_goals simp

theorem setNumber_effect {name : Bytes} (hc : cuts name = [(.field 2, 10)])
    (hi : indexTable.lookup name = none) (hn : name ≠ ascii "initialize") (shown : String)
    (get : FlashData → Int32) (set : Int32 → FlashData → FlashData) :
    Effect conn name r (setNumber shown get set conn r) := by
  unfold setNumber
  dsimp only
  refine Effect.of_answers conn r (respondJson_answers _ _ _) hn ?_
    ⟨[], ?_, by simpa using indexOk_of_none hi⟩ ?_ ?_
  · rw [hc]
    split <;> simp [getValue_copy, Cut.toCopy, Cut.copied]
  all_goals split <;> simp

theorem doInitialize_effect : Effect conn (ascii "initialize") r (doInitialize conn r) where
  copies := by
    rw [show cuts (ascii "initialize") = [] from rfl]
    simp [doInitialize, foldl_osSprintf]
  accesses := ⟨[], by simp [doInitialize, foldl_osSprintf], by simpa using indexOk_of_none rfl⟩
  handlers := by simp [doInitialize, foldl_osSprintf]
  sent := by simp [doInitialize, foldl_osSprintf]
  sendBuff h := by
    unfold doInitialize
    rw [foldl_osSprintf]
    exact h

lemma doStatus_effect : Effect conn (ascii "status") r (doStatus conn r) := by
  unfold doStatus sendPortStatus
  exact respondJson_effect conn r rfl rfl (by decide) _

lemma doGetEvents_effect : Effect conn (ascii "events") r (doGetEvents conn r) := by
  unfold doGetEvents
  exact respondJson_effect conn r rfl rfl (by decide) _

lemma doGetTime_effect : Effect conn (ascii "time") r (doGetTime conn r) := by
  unfold doGetTime
  exact respondJson_effect conn r rfl rfl (by decide) _

lemma doGetPorts_effect : Effect conn (ascii "portsinfo") r (doGetPorts conn r) := by
  unfold doGetPorts
  exact respondJson_effect conn r rfl rfl (by decide) _

lemma doScanWifi_effect : Effect conn (ascii "scan") r (doScanWifi conn r) := by
  unfold doScanWifi
  exact respondJson_effect conn r rfl rfl (by decide) _

lemma doSNTP_effect : Effect conn (ascii "sntp") r (doSNTP conn r) := by
  unfold doSNTP
  exact setNumber_effect conn r rfl rfl (by decide) _ _ _

lemma doWifiport_effect : Effect conn (ascii "wifiport") r (doWifiport conn r) := by
  unfold doWifiport
  exact setNumber_effect conn r rfl rfl (by decide) _ _ _

/-- **The effect of every command.** -/
theorem handler_effect : ∀ p ∈ commands, Effect conn p.command r (p.f conn r) := by
  rw [forall_commands]
  dsimp only
  exact ⟨doFlipinput_effect conn r, doOpen_effect conn r, doStatus_effect conn r,
    doSetWifi_effect conn r, doGetWifi_effect conn r, doGetEvents_effect conn r,
    doSetEvent_effect conn r, doGetTime_effect conn r, doGetPorts_effect conn r,
    doSetPorts_effect conn r, doInitialize_effect conn r, doSNTP_effect conn r,
    doWifiport_effect conn r, doScanWifi_effect conn r, doSetPin_effect conn r⟩

end Effects

/-! ### The effect of a request -/

/-- The handler run of a request. -/
def runs (conn : Conn) : List HandlerRun :=
  if command conn.url ∈ commandNames then [⟨conn.conn, command conn.url, conn.url⟩] else []

/-- The command sends an answer. -/
def IsAnswered (u : Bytes) : Prop := command u ∈ commandNames ∧ command u ≠ ascii "initialize"

instance (u : Bytes) : Decidable (IsAnswered u) := by unfold IsAnswered; infer_instance

theorem lookup_eq_none_of_notMem {α : Type*} {table : List (Bytes × α)} {name : Bytes}
    (htable : ∀ e ∈ table, e.1 ∈ commandNames) (h : name ∉ commandNames) :
    table.lookup name = none := by
  rw [List.lookup_eq_none_iff]
  intro e he
  have : name ≠ e.1 := fun heq => h (heq ▸ htable e he)
  simpa using this

lemma cuts_of_notMem {name : Bytes} (h : name ∉ commandNames) : cuts name = [] := by
  rw [cuts, lookup_eq_none_of_notMem (by decide) h]
  rfl

lemma indexOk_of_notMem {name u : Bytes} (h : name ∉ commandNames) : IndexOk name u :=
  indexOk_of_none (lookup_eq_none_of_notMem (by decide) h)

/-- What a request adds to the log. -/
structure RequestEffect (conn : Conn) (r r' : Rest) : Prop where
  copies : r'.log.copies = r.log.copies ++ requestCopies conn.url
  accesses : ∃ as, r'.log.accesses = r.log.accesses ++ as ∧
    ((∀ a ∈ as, a.Ok) ↔ IndexOk (command conn.url) conn.url)
  handlers : r'.log.handlers = r.log.handlers ++ runs conn
  sent : if IsAnswered conn.url then
      ∃ buf, buf ≠ [] ∧ r'.log.sent = r.log.sent ++ [(conn.conn, buf)]
    else r'.log.sent = r.log.sent
  sendBuff : r.sendBuff = [] → r'.sendBuff = []

/-- A request without a command of the table leaves everything but the copy of its name. -/
theorem parseURLCommand_of_notMem {conn : Conn} (h : command conn.url ∉ commandNames) (r : Rest) :
    parseURLCommand conn r = undispatched conn r := by
  have hnone : findCommand (command conn.url) 15 restPtrsTable = none := by
    rw [← findCommand_isSome_iff] at h
    simpa using h
  rw [parseURLCommand_eq, hnone]

theorem parseURLCommand_of_mem {conn : Conn} (h : command conn.url ∈ commandNames) (r : Rest) :
    ∃ p ∈ commands, p.command = command conn.url ∧
      parseURLCommand conn r = p.f conn (dispatched conn (command conn.url) r) := by
  rw [← findCommand_isSome_iff, Option.isSome_iff_exists] at h
  obtain ⟨p, hp⟩ := h
  obtain ⟨hmem, hname⟩ := findCommand_eq_some hp
  exact ⟨p, hmem, hname, by rw [parseURLCommand_eq, hp]⟩

/-- **The effect of every request.** -/
theorem request_effect (conn : Conn) (r : Rest) : RequestEffect conn r (parseURLCommand conn r) := by
  by_cases h : command conn.url ∈ commandNames
  · obtain ⟨p, hmem, hname, heq⟩ := parseURLCommand_of_mem h r
    have key := handler_effect conn (dispatched conn (command conn.url) r) p hmem
    rw [hname] at key
    rw [heq]
    refine ⟨?_, key.accesses, ?_, ?_, key.sendBuff⟩
    · rw [key.copies]
      simp [dispatched, requestCopies, Cut.toCopy, Cut.copied]
    · rw [key.handlers, runs, if_pos h]
      rfl
    · have hsent := key.sent
      by_cases hi : command conn.url = ascii "initialize"
      · rw [if_pos hi] at hsent
        rw [if_neg fun ha => ha.2 hi]
        exact hsent
      · rw [if_neg hi] at hsent
        rw [if_pos ⟨h, hi⟩]
        exact hsent
  · rw [parseURLCommand_of_notMem h]
    refine ⟨?_, ⟨[], by simp [undispatched], by simpa using indexOk_of_notMem h⟩, ?_, ?_, id⟩
    · simp [undispatched, requestCopies, cuts_of_notMem h, Cut.toCopy, Cut.copied]
    · simp [undispatched, runs, h]
    · rw [if_neg fun ha => h ha.1]
      rfl

/-! ### Proper requests -/

/-- **A proper request**: its number is an index of the array it is used for, and its fields fit the
buffers they are copied to.  Any other writes or reads where the source does not say what lies. -/
structure Proper (u : Bytes) : Prop where
  index : IndexOk (command u) u
  fits : FieldsFit u

instance (u : Bytes) : Decidable (Proper u) :=
  decidable_of_iff (IndexOk (command u) u ∧ FieldsFit u) ⟨fun h => ⟨h.1, h.2⟩, fun h => ⟨h.1, h.2⟩⟩

/-- No access was outside its array, and no copy longer than its buffer. -/
structure Safe (l : Log) : Prop where
  accesses : ∀ a ∈ l.accesses, a.Ok
  copies : ∀ c ∈ l.copies, c.Fits

/-- None between `l` and `l'` was. -/
structure SafeFrom (l l' : Log) : Prop where
  accesses : ∃ as, l'.accesses = l.accesses ++ as ∧ ∀ a ∈ as, a.Ok
  copies : ∃ cs, l'.copies = l.copies ++ cs ∧ ∀ c ∈ cs, c.Fits

lemma safe_empty : Safe .empty := ⟨nofun, nofun⟩

section Proper

variable {conn : Conn} {r r' : Rest} (h : RequestEffect conn r r')
include h

/-- **A request stays within its arrays and buffers** exactly if it is proper. -/
theorem RequestEffect.safeFrom_iff : SafeFrom r.log r'.log ↔ Proper conn.url := by
  obtain ⟨as, hacc, hok⟩ := h.accesses
  constructor
  · rintro ⟨⟨bs, hbs, hall⟩, cs, hcs, hfit⟩
    obtain rfl : as = bs := List.append_cancel_left (hacc.symm.trans hbs)
    obtain rfl : requestCopies conn.url = cs := List.append_cancel_left (h.copies.symm.trans hcs)
    exact ⟨hok.1 hall, fieldsFit_iff.1 hfit⟩
  · intro hp
    exact ⟨⟨as, hacc, hok.2 hp.index⟩, _, h.copies, fieldsFit_iff.2 hp.fits⟩

end Proper

end Esp8266Rest.Url
