import Esp8266Rest.Config.Record
import Esp8266Rest.Model.UserMain
import Esp8266Rest.Outputs.Shadow

/-!
# Requests with missing fields

`doSNTP` and `doWifiport` look at what `getValue` reports and leave everything alone when their field is
missing.  The other setters do not look: a missing text is the empty one and a missing number `0`, and
`flipinput` then flips port `0`.  `untouched_iff`: such a request changes nothing exactly when the device
already is as it would set it, and no text of it overruns a buffer.
-/

namespace Esp8266Rest.Config

open Esp8266Rest.Lib.CStr Esp8266Rest.Lib.Runs Esp8266Rest.Lib.Stored Esp8266Rest.Model
  Esp8266Rest.Url Esp8266Rest.Outputs

/-! ### Missing fields -/

/-- What `getValue` reports for a cut. -/
def reported (u : Bytes) : Cut → ℤ
  | .field k => (getValue ⟨0, []⟩ u slash k).ret
  | .timePart k j => (getValue ⟨0, []⟩ (field u k) colon j).ret

/-- The destination does not matter, nor what lies behind the text. -/
theorem reported_field (u : Bytes) (dst : Buffer) (k : ℕ) :
    (getValue dst u slash k).ret = reported u (.field k) := by
  rw [reported, getValue_ret, getValue_ret]

theorem reported_timePart (u : Bytes) (dst dst' : Buffer) (k j : ℕ) :
    (getValue dst' (getValue dst u slash k).param.mem colon j).ret = reported u (.timePart k j) := by
  rw [reported, getValue_ret, getValue_ret, piece_param, getValue_str]
  rfl

theorem reported_field_eq_iff {u : Bytes} {k : ℕ} : reported u (.field k) = -1 ↔ field u k = [] := by
  have h := getValue_ret_ne ⟨0, []⟩ u slash k
  rw [← not_iff_not]
  exact h

/-- The cuts that the setters use. -/
def usedTable : List (Bytes × List Cut) :=
  [(ascii "setwifi", [.field 2, .field 3]),
    (ascii "event", [.field 2, .field 3, .field 4, .field 5, .timePart 5 0, .timePart 5 1,
      .field 6, .timePart 6 0, .timePart 6 1]),
    (ascii "portinfo", [.field 2, .field 3]),
    (ascii "setpin", [.field 2, .field 3]),
    (ascii "flipinput", [.field 2]),
    (ascii "sntp", [.field 2]),
    (ascii "wifiport", [.field 2])]

/-- The URL names a setter and lacks a text that it uses. -/
def Lacking (u : Bytes) : Prop :=
  ∃ cuts, usedTable.lookup (command u) = some cuts ∧ ∃ c ∈ cuts, reported u c = -1

/-! ### What must not change -/

/-- The records agree on what a request may set. -/
structure SameSettings (f g : FlashData) : Prop where
  powerEvents : f.powerEvents = g.powerEvents
  portName : ∀ p : Fin 8, (f.ports.get p).portName = (g.ports.get p).portName
  ssid : f.ssid = g.ssid
  password : f.password = g.password
  sntp : f.sntp = g.sntp
  serverPort : f.serverPort = g.serverPort

lemma SameSettings.refl (f : FlashData) : SameSettings f f := ⟨rfl, fun _ => rfl, rfl, rfl, rfl, rfl⟩

structure SameOutputs (b b' : Board) : Prop where
  portsVal : b.portsVal = b'.portsVal
  latch : ∀ p : Fin 8, b.latch p = b'.latch p

lemma SameOutputs.of_outputs {b b' : Board} (h : outputs b = outputs b') : SameOutputs b b' :=
  ⟨congrArg OutputState.portsVal h, latch_congr h⟩

/-- The step from `r` to `r'` changed nothing that is configured, stored or driven, nor anything outside
an array or a buffer. -/
structure Untouched (r r' : Rest) : Prop where
  settings : SameSettings r'.board.flashData r.board.flashData
  flash : r'.board.flash = r.board.flash
  outputs : SameOutputs r'.board r.board
  safe : SafeFrom r.log r'.log

section Requests

variable {conn : Conn} {r : Rest} {name : Bytes}

/-- With fields that fit, only the index can be wrong. -/
lemma proper_iff (hname : command conn.url = name) :
    Proper conn.url ↔ IndexOk name conn.url ∧ FieldsFit conn.url := by
  rw [← hname]
  exact ⟨fun h => ⟨h.index, h.fits⟩, fun h => ⟨h.1, h.2⟩⟩

/-- **A command that writes the record through** changes nothing if the record it writes has the settings
of the old one and is the one in the flash. -/
theorem untouched_edit_iff {g : FlashData → FlashData} (hname : command conn.url = name)
    (hop : recordOps conn name = [.edit fun f => some (g f)]) (hdrive : name ∉ driving) :
    Untouched r (step r (.request conn)) ↔ SameSettings (g r.board.flashData) r.board.flashData ∧
      g r.board.flashData = r.board.flash ∧ IndexOk name conn.url ∧ FieldsFit conn.url := by
  rw [← proper_iff hname]
  subst hname
  have hcopies : copies (step r (.request conn)).board =
      ⟨g r.board.flashData, g r.board.flashData⟩ := by
    rw [copies_step, opsOf, hop]
    rfl
  obtain ⟨hram, hflash⟩ := copies_eq_iff.1 hcopies
  have hout : SameOutputs (step r (.request conn)).board r.board :=
    .of_outputs (request_quiet { r with sendBuff := [] } hdrive).outputs
  rw [← step_safeFrom_iff (r := r), ← hram]
  constructor
  · rintro ⟨h1, h2, -, h4⟩
    exact ⟨h1, hram.trans (hflash.symm.trans h2), h4⟩
  · rintro ⟨h1, h2, h3⟩
    exact ⟨h1, hflash.trans (hram.symm.trans h2), hout, h3⟩

theorem setAt_eq_self_iff {α : Type*} {n : ℕ} {a : Vector α n} {p : Fin n} {x : α} :
    setAt a p x = a ↔ a.get p = x := by
  constructor
  · intro h
    rw [← get_setAt_self a p x, h]
  · rintro rfl
    refine Vector.ext fun i hi => ?_
    change (setAt a p (a.get p)).get ⟨i, hi⟩ = a.get ⟨i, hi⟩
    rw [get_setAt]
    split
    · rename_i h
      rw [h]
    · rfl

theorem sameOutputs_portPinSet_iff {n : Int32} {p : Fin 8} (h : slot? 8 n = some p) (v : UInt8) :
    SameOutputs (portPinSet n v r).board r.board ↔
      r.board.portsVal.get p = shown v ∧ r.board.latch p = driven p v := by
  have hval := portPinSet_portsVal h v r
  have hlatch := portPinSet_latch h v r
  constructor
  · rintro ⟨h1, h2⟩
    refine ⟨setAt_eq_self_iff.1 (hval.symm.trans h1), ?_⟩
    rw [← h2 p, hlatch, if_pos rfl]
  · rintro ⟨h1, h2⟩
    refine ⟨hval.trans (setAt_eq_self_iff.2 h1), fun q => ?_⟩
    rw [hlatch]
    split
    · rename_i hq
      rw [hq, h2]
    · rfl

/-- **A command that drives a port** changes nothing but the outputs. -/
theorem untouched_drive_iff (hname : command conn.url = name) (hop : recordOps conn name = []) :
    Untouched r (step r (.request conn)) ↔ SameOutputs (step r (.request conn)).board r.board ∧
      IndexOk name conn.url ∧ FieldsFit conn.url := by
  rw [← proper_iff hname]
  subst hname
  have hcopies : copies (step r (.request conn)).board = ⟨r.board.flashData, r.board.flash⟩ := by
    rw [copies_step, opsOf, hop]
    rfl
  obtain ⟨hram, hflash⟩ := copies_eq_iff.1 hcopies
  rw [← step_safeFrom_iff (r := r)]
  constructor
  · rintro ⟨-, -, h3, h4⟩
    exact ⟨h3, h4⟩
  · rintro ⟨h3, h4⟩
    refine ⟨?_, hflash, h3, h4⟩
    rw [hram]
    exact .refl _

end Requests

/-! ### What the setters write -/

section Setters

variable (conn : Conn) (b : Board)

/-- The port of a `setpin` shows its value and is driven to it. -/
def PinIs : Prop := ∃ p : Fin 8, slot? 8 (atoi (field conn.url 2)) = some p ∧
  b.portsVal.get p = shown (pinValue conn.url) ∧ b.latch p = driven p (pinValue conn.url)

/-- The port of a `portinfo` has its name. -/
def NameIs : Prop := ∃ p : Fin 8, slot? 8 (atoi (field conn.url 2)) = some p ∧
  (b.flashData.ports.get p).portName = portName (field conn.url 3)

/-- The event has the values of the URL. -/
def HasValues (u : Bytes) (e : PowerEvent) : Prop :=
  e.active = (atoi (field u 3)).toUInt32.toUInt8 ∧ e.port = atoi (field u 4) ∧
  e.startTime = ⟨atoi (timePart u 5 0), atoi (timePart u 5 1)⟩ ∧
  e.endTime = ⟨atoi (timePart u 6 0), atoi (timePart u 6 1)⟩

/-- The event of an `event` has its values. -/
def EventIs : Prop := ∃ p : Fin 10, slot? 10 (atoi (field conn.url 2)) = some p ∧
  HasValues conn.url (b.flashData.powerEvents.get p)

/-- The credentials are what stands in the buffers of a `setwifi`. -/
def WifiIs : Prop :=
  b.flashData.ssid = bytesToVector 32 (getValue (conn.buffer 0 120) conn.url slash 2).param.mem ∧
  b.flashData.password = bytesToVector 64 (getValue (conn.buffer 1 120) conn.url slash 3).param.mem

/-- The state that each setter leaves alone; the others leave every state alone. -/
def setTable : List (Bytes × Prop) :=
  [(ascii "flipinput", False),
    (ascii "setpin", PinIs conn b),
    (ascii "portinfo", NameIs conn b ∧ b.flashData = b.flash),
    (ascii "event", EventIs conn b ∧ b.flashData = b.flash),
    (ascii "setwifi", WifiIs conn b ∧ { b.flashData with magic := magicNum } = b.flash)]

/-- The device is as the request would set it, a missing number being `0` and a missing text empty. -/
def AlreadySet : Prop := ((setTable conn b).lookup (command conn.url)).getD True

end Setters

theorem setName_eq_iff {f : FlashData} {n : Int32} {p : Fin 8} (hp : slot? 8 n = some p) (u : Bytes) :
    { f with ports := modifyAt f.ports n (namePort u) } = f ↔
      (f.ports.get p).portName = portName (field u 3) := by
  have hport : namePort u (f.ports.get p) = f.ports.get p ↔
      (f.ports.get p).portName = portName (field u 3) := by
    generalize f.ports.get p = q
    cases q
    simp [namePort, eq_comm]
  rw [modifyAt_of_slot hp, ← hport]
  constructor
  · intro h
    have hports : setAt f.ports p (namePort u (f.ports.get p)) = f.ports := congrArg FlashData.ports h
    exact (setAt_eq_self_iff.1 hports).symm
  · intro h
    rw [setAt_eq_self_iff.2 h.symm]

theorem setEvents_eq_iff {f : FlashData} {n : Int32} {p : Fin 10} (hp : slot? 10 n = some p) (u : Bytes) :
    { f with powerEvents := modifyAt f.powerEvents n (setEvent u) } = f ↔
      HasValues u (f.powerEvents.get p) := by
  have hevent : setEvent u (f.powerEvents.get p) = f.powerEvents.get p ↔
      HasValues u (f.powerEvents.get p) := by
    generalize f.powerEvents.get p = e
    cases e
    simp only [setEvent, HasValues, PowerEvent.mk.injEq, true_and, and_true]
    constructor
    · rintro ⟨h1, h2, h3, h4⟩
      exact ⟨h4.symm, h3.symm, h1.symm, h2.symm⟩
    · rintro ⟨h4, h3, h1, h2⟩
      exact ⟨h1.symm, h2.symm, h3.symm, h4.symm⟩
  rw [modifyAt_of_slot hp, ← hevent]
  constructor
  · intro h
    have hevents : setAt f.powerEvents p (setEvent u (f.powerEvents.get p)) = f.powerEvents :=
      congrArg FlashData.powerEvents h
    exact (setAt_eq_self_iff.1 hevents).symm
  · intro h
    rw [setAt_eq_self_iff.2 h.symm]

section Requests

variable {conn : Conn} {r : Rest} {name : Bytes}

theorem untouched_setpin_iff (h : command conn.url = ascii "setpin") :
    Untouched r (step r (.request conn)) ↔ PinIs conn r.board ∧ FieldsFit conn.url := by
  have hn : number (ascii "setpin") conn.url = atoi (field conn.url 2) := number_of_ne (by decide) _
  have hboard : (step r (.request conn)).board =
      (portPinSet (atoi (field conn.url 2)) (pinValue conn.url) r).board := by
    rw [step, request_setpin _ h, doSetPin_board, hn, portPinSet_board, portPinSet_board]
    rfl
  rw [untouched_drive_iff h rfl, hboard, indexOk_of_some (n := numOfPorts) rfl, hn]
  constructor
  · rintro ⟨hsame, hidx, hfits⟩
    obtain ⟨p, hp⟩ := isPort_iff.1 hidx
    exact ⟨⟨p, hp, (sameOutputs_portPinSet_iff hp _).1 hsame⟩, hfits⟩
  · rintro ⟨⟨p, hp, hset⟩, hfits⟩
    exact ⟨(sameOutputs_portPinSet_iff hp _).2 hset, isPort_iff.2 ⟨p, hp⟩, hfits⟩

theorem not_sameOutputs_flipinput (h : command conn.url = ascii "flipinput")
    (hidx : IsPort (number (ascii "flipinput") conn.url)) :
    ¬ SameOutputs (step r (.request conn)).board r.board := by
  have hboard : (step r (.request conn)).board =
      (portPinSet (number (ascii "flipinput") conn.url)
        (flipped (number (ascii "flipinput") conn.url) r.board) r).board := by
    rw [step, request_flipinput _ h, doFlipinput_board, portPinSet_board, portPinSet_board]
    rfl
  rw [hboard]
  intro hsame
  obtain ⟨p, hp⟩ := isPort_iff.1 hidx
  obtain ⟨hval, hlatch⟩ := (sameOutputs_portPinSet_iff hp _).1 hsame
  -- pin 16 is flipped by its entry in `portsVal`, the others by their bits
  unfold flipped at hval hlatch
  rw [readAt_of_slot hp, readAt_of_slot hp, readAt_of_slot hp] at hval hlatch
  by_cases hpin : portPinNumber.get p = 16
  · rw [if_pos hpin] at hval
    by_cases h0 : r.board.portsVal.get p = 0 <;> simp [h0, shown] at hval
  · rw [if_neg hpin, Board.latch, driven, if_neg hpin, if_neg hpin] at hlatch
    by_cases h0 : r.board.gpioOut &&& portsBits.get p = 0 <;> simp [h0] at hlatch

theorem not_untouched_flipinput (h : command conn.url = ascii "flipinput") :
    ¬ Untouched r (step r (.request conn)) := by
  rw [untouched_drive_iff h rfl, indexOk_of_some (n := numOfPorts) rfl]
  exact fun hu => not_sameOutputs_flipinput h hu.2.1 hu.1

theorem untouched_fixed_iff {g : FlashData → FlashData} (hname : command conn.url = name)
    (hop : recordOps conn name = [.edit fun f => some (g f)]) (hdrive : name ∉ driving)
    (hfix : SameSettings (g r.board.flashData) r.board.flashData →
      g r.board.flashData = r.board.flashData) :
    Untouched r (step r (.request conn)) ↔ g r.board.flashData = r.board.flashData ∧
      r.board.flashData = r.board.flash ∧ IndexOk name conn.url ∧ FieldsFit conn.url := by
  rw [untouched_edit_iff hname hop hdrive]
  constructor
  · rintro ⟨hsame, hflash, hidx⟩
    have heq := hfix hsame
    exact ⟨heq, heq.symm.trans hflash, hidx⟩
  · rintro ⟨heq, hflash, hidx⟩
    rw [heq]
    exact ⟨.refl _, hflash, hidx⟩

theorem untouched_portinfo_iff (h : command conn.url = ascii "portinfo") :
    Untouched r (step r (.request conn)) ↔
      (NameIs conn r.board ∧ r.board.flashData = r.board.flash) ∧ FieldsFit conn.url := by
  have hn : number (ascii "portinfo") conn.url = atoi (field conn.url 2) := number_of_ne (by decide) _
  have hop : recordOps conn (ascii "portinfo") = [.edit fun f =>
      some { f with ports := modifyAt f.ports (atoi (field conn.url 2)) (namePort conn.url) }] := by
    rw [← hn]
    rfl
  rw [untouched_fixed_iff h hop (by decide), indexOk_of_some (n := numOfPorts) rfl, hn]
  · constructor
    · rintro ⟨heq, hflash, hidx, hfits⟩
      obtain ⟨p, hp⟩ := isPort_iff.1 hidx
      exact ⟨⟨⟨p, hp, (setName_eq_iff hp _).1 heq⟩, hflash⟩, hfits⟩
    · rintro ⟨⟨⟨p, hp, hname⟩, hflash⟩, hfits⟩
      exact ⟨(setName_eq_iff hp _).2 hname, hflash, isPort_iff.2 ⟨p, hp⟩, hfits⟩
  · intro hsame
    cases hp : slot? 8 (atoi (field conn.url 2)) with
    | none => simp only [modifyAt, hp]
    | some p =>
      refine (setName_eq_iff hp _).2 ?_
      rw [← hsame.portName p, modifyAt_of_slot hp, get_setAt_self]
      rfl

theorem untouched_event_iff (h : command conn.url = ascii "event") :
    Untouched r (step r (.request conn)) ↔
      (EventIs conn r.board ∧ r.board.flashData = r.board.flash) ∧ FieldsFit conn.url := by
  have hn : number (ascii "event") conn.url = atoi (field conn.url 2) := number_of_ne (by decide) _
  have hop : recordOps conn (ascii "event") = [.edit fun f =>
      some { f with powerEvents := modifyAt f.powerEvents (atoi (field conn.url 2))
                                     (setEvent conn.url) }] := by
    rw [← hn]
    rfl
  rw [untouched_fixed_iff h hop (by decide), indexOk_of_some (n := maxTimedPowerEvents) rfl, hn]
  · constructor
    · rintro ⟨heq, hflash, hidx, hfits⟩
      have hp : slot? 10 (atoi (field conn.url 2)) = some _ := dif_pos hidx
      exact ⟨⟨⟨_, hp, (setEvents_eq_iff hp _).1 heq⟩, hflash⟩, hfits⟩
    · rintro ⟨⟨⟨p, hp, hvalues⟩, hflash⟩, hfits⟩
      have hidx : 0 ≤ (atoi (field conn.url 2)).toInt ∧ (atoi (field conn.url 2)).toInt < 10 := by
        have := slot?_eq_some_iff.1 hp
        omega
      exact ⟨(setEvents_eq_iff hp _).2 hvalues, hflash, hidx, hfits⟩
  · intro hsame
    have hevents := hsame.powerEvents
    dsimp only at hevents
    rw [hevents]

theorem untouched_setwifi_iff (h : command conn.url = ascii "setwifi") :
    Untouched r (step r (.request conn)) ↔
      (WifiIs conn r.board ∧ { r.board.flashData with magic := magicNum } = r.board.flash) ∧
        FieldsFit conn.url := by
  have hset : WifiIs conn r.board →
      setWifi conn r.board.flashData = { r.board.flashData with magic := magicNum } := by
    rintro ⟨hs, hw⟩
    rw [setWifi, ← hs, ← hw]
  rw [untouched_edit_iff (g := setWifi conn) h rfl (by decide)]
  constructor
  · rintro ⟨hsame, hflash, -, hfits⟩
    have hwifi : WifiIs conn r.board := ⟨hsame.ssid.symm, hsame.password.symm⟩
    exact ⟨⟨hwifi, (hset hwifi).symm.trans hflash⟩, hfits⟩
  · rintro ⟨⟨hwifi, hflash⟩, hfits⟩
    refine ⟨?_, (hset hwifi).trans hflash, indexOk_of_none rfl, hfits⟩
    rw [hset hwifi]
    exact ⟨rfl, fun _ => rfl, rfl, rfl, rfl, rfl⟩

/-- `doSNTP` and `doWifiport` leave everything alone without their field. -/
theorem untouched_ifGiven {g : FlashData → FlashData} (hname : command conn.url = name)
    (hop : recordOps conn name = [.edit (ifGiven conn.url g)]) (hdrive : name ∉ driving)
    (hidx : indexTable.lookup name = none) (hu : field conn.url 2 = []) :
    Untouched r (step r (.request conn)) ↔ FieldsFit conn.url := by
  subst hname
  have hcopies : copies (step r (.request conn)).board = ⟨r.board.flashData, r.board.flash⟩ := by
    rw [copies_step, opsOf, hop, run_cons, run_nil]
    simp only [Loader.step, ifGiven, if_pos hu]
    rfl
  obtain ⟨hram, hflash⟩ := copies_eq_iff.1 hcopies
  refine ⟨fun h => (step_safeFrom_iff.1 h.safe).fits, fun hfits => ⟨?_, hflash,
    .of_outputs (request_quiet { r with sendBuff := [] } hdrive).outputs,
    step_safeFrom_iff.2 ⟨indexOk_of_none hidx, hfits⟩⟩⟩
  rw [hram]
  exact .refl _

/-- **A setter that lacks a text** changes nothing exactly when the device already is as it sets it, and the
texts that it does have fit their buffers. -/
theorem untouched_iff (h : Lacking conn.url) :
    Untouched r (step r (.request conn)) ↔ AlreadySet conn r.board ∧ FieldsFit conn.url := by
  obtain ⟨cuts, hl, c, hc, hret⟩ := h
  obtain ⟨l₁, l₂, htable, -⟩ := List.lookup_eq_some_iff.1 hl
  have hmem : (command conn.url, cuts) ∈ usedTable := by
    rw [htable]
    simp
  unfold AlreadySet
  simp only [usedTable, List.mem_cons, List.not_mem_nil, or_false, Prod.mk.injEq] at hmem
  rcases hmem with ⟨hname, -⟩ | ⟨hname, -⟩ | ⟨hname, -⟩ | ⟨hname, -⟩ | ⟨hname, -⟩ | ⟨hname, rfl⟩ |
    ⟨hname, rfl⟩
  · rw [untouched_setwifi_iff hname, hname]
    rfl
  · rw [untouched_event_iff hname, hname]
    rfl
  · rw [untouched_portinfo_iff hname, hname]
    rfl
  · rw [untouched_setpin_iff hname, hname]
    rfl
  · rw [hname]
    exact iff_of_false (not_untouched_flipinput hname) fun hset => hset.1
  all_goals
    obtain rfl := List.mem_singleton.1 hc
    have hu := reported_field_eq_iff.1 hret
  · rw [untouched_ifGiven (g := fun f => { f with sntp := atoi (field conn.url 2) }) hname rfl (by decide)
      rfl hu, hname]
    exact (and_iff_right trivial).symm
  · rw [untouched_ifGiven (g := fun f => { f with serverPort := atoi (field conn.url 2) }) hname rfl
      (by decide) rfl hu, hname]
    exact (and_iff_right trivial).symm

end Requests

/-- A `setpin` without a value, of a port that is low. -/
theorem untouched_setpin_low :
    Untouched (.start .zero) (step (.start .zero) (.request (.get "/setpin/3"))) := by
  have hlacking : Lacking (Conn.get "/setpin/3").url :=
    ⟨[.field 2, .field 3], rfl, .field 3, by decide, by decide⟩
  refine (untouched_iff hlacking).2 ⟨?_, by decide⟩
  exact ⟨3, by decide, by decide, by decide⟩

/-- **`flipinput` without a pin** flips port `0` of a device that was just started. -/
theorem not_untouched_flipinput_bare : Lacking (ascii "/flipinput") ∧
    ¬ SameOutputs (step (userInit .zero).rest (.request (.get "/flipinput"))).board
      (userInit .zero).rest.board := by
  have hname : command (Conn.get "/flipinput").url = ascii "flipinput" := by decide
  exact ⟨⟨[.field 2], rfl, .field 2, by decide, by decide⟩, not_sameOutputs_flipinput hname (by decide)⟩

end Esp8266Rest.Config
