import Esp8266Rest.Clock.Printed
import Esp8266Rest.Config.Strings
import Esp8266Rest.Http.Blocks
import Esp8266Rest.Lib.Decimal
import Esp8266Rest.Reply.Bodies

/-!
# The room for a response

The text of each part is as long as its literals, its strings and its numbers; with terminated strings
every body fits into the send buffer behind the header (`length_bodyOf_le`), so that nothing is cut
(`response_whole_iff`).
-/

namespace Esp8266Rest.Reply

open Esp8266Rest.Lib.CStr Esp8266Rest.Lib.Runs Esp8266Rest.Lib.Stored Esp8266Rest.Model Esp8266Rest.Url
  Esp8266Rest.Outputs Esp8266Rest.Config Esp8266Rest.Http Esp8266Rest.Clock

/-! ### Strings and numbers -/

/-- What `%s` makes of the strings of a board at most. -/
structure ShortStrings (b : Board) : Prop where
  ssid : b.flashData.ssidStr.length ≤ 31
  password : b.flashData.passwordStr.length ≤ 63
  portName : ∀ p : Fin 8, (b.flashData.portNameStr p).length ≤ 19

lemma length_cstr_lt {m : Bytes} (h : (0 : Byte) ∈ m) : (cstr m).length < m.length := length_takeWhile_lt h

theorem shortStrings_of_terminated {b : Board} (h : Terminated b.flashData) : ShortStrings b where
  ssid := by
    rw [h.readsOwn.ssid]
    have hlt := length_cstr_lt h.ssid
    rw [Vector.length_toList] at hlt
    omega
  password := by
    rw [h.readsOwn.password]
    have hlt := length_cstr_lt h.password
    rw [Vector.length_toList] at hlt
    omega
  portName p := by
    rw [h.readsOwn.portName p]
    have hlt := length_cstr_lt (h.portName p)
    rw [Vector.length_toList] at hlt
    omega

theorem length_decimal2_le (x : Int32) : (decimal2 x.toInt).length ≤ 11 := by
  have h := length_decimal_int x
  rw [decimal2, length_padLeft]
  omega

theorem length_decimal02_le (x : Int32) : (decimal02 x.toInt).length ≤ 11 := by
  have h := length_decimal_int x
  rw [decimal02, length_padLeft]
  omega

theorem length_clockText_le (b : Board) : (clockText b).length ≤ 40 := by
  have hepoch : (epochToStr (localEpoch b.sntpTime b.sntpTz)).length = 19 :=
    (shows_epochToStr (UInt32.toNat_lt _)).length
  have htz := length_decimal02_le b.sntpTz
  have hgmt : (ascii " GMT").length = 4 := rfl
  have hsign : (if 0 < b.sntpTz then ascii "+" else ([] : Bytes)).length ≤ 1 := by
    split <;> decide
  unfold clockText
  simp only [List.length_append, hgmt]
  omega

/-! ### The parts of the bodies -/

theorem length_statusPart (cap : ℕ) (b : Board) (p : Fin 8) :
    (partText (.fmt cap (ascii "\"" ++ b.flashData.portNameStr p ++ ascii "\":\"" ++
      decimal (b.portsVal.get p).toNat ++ ascii "\""))).length =
      5 + (b.flashData.portNameStr p).length + (decimal (b.portsVal.get p).toNat).length := by
  have hquote : (ascii "\"").length = 1 := rfl
  have hcolon : (ascii "\":\"").length = 3 := rfl
  simp only [partText, List.length_append, hquote, hcolon]
  omega

theorem length_infoPart (b : Board) (p : Fin 8) :
    (partText (.fmt 50 (ascii "\x7b\"Name\":\"" ++ b.flashData.portNameStr p ++ ascii "\", \"Type\":\"" ++
      decimal (b.flashData.ports.get p).type.toInt ++ ascii "\", \"PinNum\":\"" ++
      decimal (b.flashData.ports.get p).portPinNumber.toInt ++ ascii "\"\x7d"))).length =
      35 + (b.flashData.portNameStr p).length + (decimal (b.flashData.ports.get p).type.toInt).length +
        (decimal (b.flashData.ports.get p).portPinNumber.toInt).length := by
  have hname : (ascii "\x7b\"Name\":\"").length = 9 := rfl
  have htype : (ascii "\", \"Type\":\"").length = 11 := rfl
  have hpin : (ascii "\", \"PinNum\":\"").length = 13 := rfl
  have hend : (ascii "\"\x7d").length = 2 := rfl
  simp only [partText, List.length_append, hname, htype, hpin, hend]
  omega

theorem length_eventBody_le (i : Fin 10) (e : PowerEvent) : (bodyText (eventBody i e)).length ≤ 138 := by
  have hid : ∀ i : Fin 10, (decimal (i : ℕ)).length = 1 := by decide
  have hactive := length_decimal_byte e.active
  have hport := length_decimal_int e.port
  have hdays := length_decimal_int e.daysRepeat
  have h1 := length_decimal2_le e.startTime.hour
  have h2 := length_decimal2_le e.startTime.min
  have h3 := length_decimal2_le e.endTime.hour
  have h4 := length_decimal2_le e.endTime.min
  have hliterals : (ascii "\x7b\"id\":\"").length = 7 ∧ (ascii "\"").length = 1 ∧
      (ascii "Active").length = 6 ∧ (ascii "input").length = 5 ∧ (ascii "Interval").length = 8 ∧
      (ascii "\":\"").length = 3 ∧ (ascii "\"Start\":\"").length = 9 ∧ (ascii "\"End\":\"").length = 7 ∧
      (ascii ":").length = 1 ∧ (ascii "\",").length = 2 ∧ (ascii "\"\x7d").length = 2 := by decide
  simp only [eventBody, eventField, bodyText_cons, bodyText_nil, partText, List.length_append,
    List.length_nil, hid i, hliterals]
  omega

/-! ### The bodies -/

theorem length_commaSep_le {pss : List (List Part)} {k : ℕ} (h : ∀ ps ∈ pss, (bodyText ps).length ≤ k) :
    (bodyText (commaSep pss)).length ≤ pss.length * (k + 1) := by
  induction pss with
  | nil => simp [commaSep]
  | cons ps pss ih =>
    obtain ⟨hps, hpss⟩ := List.forall_mem_cons.1 h
    have hrest := ih hpss
    cases pss with
    | nil =>
      simp only [commaSep, List.length_singleton, Nat.one_mul]
      omega
    | cons qs pss =>
      have hcomma : (ascii ",").length = 1 := rfl
      have hsplit : commaSep (ps :: qs :: pss) = ps ++ .lit (ascii ",") :: commaSep (qs :: pss) := rfl
      rw [hsplit, bodyText_append, bodyText_cons, partText, List.length_append, List.length_append, hcomma,
        List.length_cons, Nat.succ_mul]
      omega

theorem length_portStatusBody_le {b : Board} (h : ∀ p : Fin 8, (b.flashData.portNameStr p).length ≤ 19)
    (cap : ℕ) : (bodyText (portStatusBody cap b)).length ≤ 300 := by
  have hparts : ∀ ps ∈ (List.finRange 8).map fun p : Fin 8 => [Part.fmt cap (ascii "\"" ++
      b.flashData.portNameStr p ++ ascii "\":\"" ++ decimal (b.portsVal.get p).toNat ++ ascii "\"")],
      (bodyText ps).length ≤ 27 := by
    rw [List.forall_mem_map]
    intro p _
    have hname := h p
    have hval := length_decimal_byte (b.portsVal.get p)
    rw [bodyText_cons, bodyText_nil, List.append_nil, length_statusPart]
    omega
  have hcomma := length_commaSep_le hparts
  rw [List.length_map, List.length_finRange] at hcomma
  have hliterals : (ascii "\x7b\"ports\":\x7b").length = 10 ∧ (ascii "\x7d\x7d").length = 2 := by decide
  simp only [portStatusBody, bodyText_append, bodyText_cons, bodyText_nil, partText, List.length_append,
    List.length_nil, hliterals]
  omega

theorem length_portsInfoBody_le {b : Board} (h : ∀ p : Fin 8, (b.flashData.portNameStr p).length ≤ 19) :
    (bodyText (portsInfoBody b)).length ≤ 700 := by
  have hparts : ∀ ps ∈ (List.finRange 8).map fun p : Fin 8 => [Part.fmt 50 (ascii "\x7b\"Name\":\"" ++
      b.flashData.portNameStr p ++ ascii "\", \"Type\":\"" ++
      decimal (b.flashData.ports.get p).type.toInt ++ ascii "\", \"PinNum\":\"" ++
      decimal (b.flashData.ports.get p).portPinNumber.toInt ++ ascii "\"\x7d")],
      (bodyText ps).length ≤ 76 := by
    rw [List.forall_mem_map]
    intro p _
    have hname := h p
    have htype := length_decimal_int (b.flashData.ports.get p).type
    have hpin := length_decimal_int (b.flashData.ports.get p).portPinNumber
    rw [bodyText_cons, bodyText_nil, List.append_nil, length_infoPart]
    omega
  have hcomma := length_commaSep_le hparts
  rw [List.length_map, List.length_finRange] at hcomma
  have hliterals : (ascii "\x7b\"PortsInfo\":[").length = 14 ∧ (ascii "]\x7d").length = 2 := by decide
  simp only [portsInfoBody, bodyText_append, bodyText_cons, bodyText_nil, partText, List.length_append,
    List.length_nil, hliterals]
  omega

theorem length_eventsBody_le (b : Board) : (bodyText (eventsBody b)).length ≤ 1403 := by
  have hparts : ∀ ps ∈ (List.finRange 10).map fun i : Fin 10 =>
      eventBody i (b.flashData.powerEvents.get i), (bodyText ps).length ≤ 138 := by
    rw [List.forall_mem_map]
    exact fun i _ => length_eventBody_le i _
  have hcomma := length_commaSep_le hparts
  rw [List.length_map, List.length_finRange] at hcomma
  have hliterals : (ascii "\x7b\"Events\":[").length = 11 ∧ (ascii "]\x7d").length = 2 := by decide
  simp only [eventsBody, bodyText_append, bodyText_cons, bodyText_nil, partText, List.length_append,
    List.length_nil, hliterals]
  omega

theorem length_timeBody_le (b : Board) : (bodyText (timeBody b)).length ≤ 52 := by
  have hclock := length_clockText_le b
  have hliterals : (ascii "\x7b\"time\":\x7b").length = 9 ∧ (ascii "\"").length = 1 ∧
      (ascii "\x7d\x7d").length = 2 := by decide
  simp only [timeBody, bodyText_cons, bodyText_nil, partText, List.length_append, List.length_nil, hliterals]
  omega

theorem length_openText (n : Int32) :
    (ascii "\x7b\"Open\": " ++ decimal n.toInt ++ ascii " \x7d").length ≤ 22 := by
  have hport := length_decimal_int n
  have hliterals : (ascii "\x7b\"Open\": ").length = 9 ∧ (ascii " \x7d").length = 2 := by decide
  simp only [List.length_append, hliterals]
  omega

theorem length_numberPart (x : Int32) :
    (ascii "\"" ++ decimal x.toInt ++ ascii "\"").length = 2 + (decimal x.toInt).length := by
  have hquote : (ascii "\"").length = 1 := rfl
  simp only [List.length_append, hquote]
  omega

theorem length_numberBody_le {label : String} (h : (ascii label).length ≤ 10) (x : Int32) :
    (bodyText (numberBody label x)).length ≤ 30 := by
  have hnumber := length_decimal_int x
  have hliterals : (ascii "\"").length = 1 ∧ (ascii "\x7b\"").length = 2 ∧ (ascii "\":").length = 2 ∧
      (ascii "\x7d").length = 1 := by decide
  simp only [numberBody, bodyText_cons, bodyText_nil, partText, List.length_append, List.length_nil, hliterals]
  omega

lemma length_shownPassword_le (pass : Bytes) : (shownPassword pass).length ≤ 3 + pass.length / 2 := by
  rw [shownPassword, List.length_take]
  split <;> omega

theorem length_setWifiText_le {b : Board} (h : ShortStrings b) {u : Bytes} (hpass : (field u 3).length ≤ 119) :
    (setWifiText u b).length ≤ 119 := by
  have hssid := h.ssid
  have hshown := length_shownPassword_le (field u 3)
  have hliterals : (ascii "\x7b'ssid':'").length = 9 ∧ (ascii "', 'pass':'").length = 11 ∧
      (ascii "...'\x7d").length = 5 := by decide
  simp only [setWifiText, List.length_append, hliterals]
  omega

theorem length_getWifiText_le {b : Board} (h : ShortStrings b) (hip : b.ipStation.length ≤ 15) :
    (getWifiText b).length ≤ 160 := by
  have hssid := h.ssid
  have hpassword := h.password
  have hport := length_decimal_int b.flashData.serverPort
  have hliterals : (ascii "\x7b'ssid':'").length = 9 ∧ (ascii "', 'pass':'").length = 11 ∧
      (ascii "', 'IP':'").length = 9 ∧ (ascii "', Port:'").length = 9 ∧ (ascii "'\x7d").length = 2 := by decide
  simp only [getWifiText, List.length_append, hliterals]
  omega

theorem length_field_lt {u : Bytes} (h : FieldsFit u) {k cap : ℕ}
    (hcut : (Cut.field k, cap) ∈ cuts (command u)) : (field u k).length < cap := by
  have hlt := h _ (List.mem_cons_of_mem _ hcut)
  by_cases hnil : piece u slash k = []
  · rw [field, hnil]
    exact (Nat.zero_le _).trans_lt hlt
  · rw [field, ← copied_of_ne_nil hnil]
    exact hlt

section Bodies

variable {u : Bytes} {b : Board}

theorem length_single_le {t : Bytes} {k n : ℕ} (ht : t.length ≤ k) (hn : k ≤ n) :
    (bodyText [.lit t]).length ≤ n := by
  rw [bodyText_cons, bodyText_nil, List.append_nil]
  exact ht.trans hn

/-- **A body without the credentials** is as short as that of the events. -/
theorem length_bodyOf_le_of_ne (hnames : ∀ p : Fin 8, (b.flashData.portNameStr p).length ≤ 19) {name : Bytes}
    (hne : name ≠ ascii "setwifi" ∧ name ≠ ascii "getwifi") : (bodyText (bodyOf name u b)).length ≤ 1403 := by
  have hstatus : ∀ cap, (bodyText (portStatusBody cap b)).length ≤ 1403 := fun cap =>
    (length_portStatusBody_le hnames cap).trans (by decide)
  have hinfo := (length_portsInfoBody_le hnames).trans (show 700 ≤ 1403 by decide)
  have hopen : (bodyText (openBody (openPort u))).length ≤ 1403 := by
    rw [openBody, bodyText_cons, bodyText_nil, List.append_nil]
    exact (length_openText _).trans (by decide)
  have htable : ∀ entry ∈ bodyTable, entry.1 ≠ ascii "setwifi" ∧ entry.1 ≠ ascii "getwifi" →
      (bodyText (entry.2 u b)).length ≤ 1403 := by
    refine (forall_bodyTable (P := fun name body =>
      name ≠ ascii "setwifi" ∧ name ≠ ascii "getwifi" → (bodyText (body u b)).length ≤ 1403)).2 ?_
    exact ⟨fun _ => hstatus 200, fun _ => hopen, fun _ => hstatus 200, fun h => absurd rfl h.1,
      fun h => absurd rfl h.2, fun _ => length_eventsBody_le b, fun _ => length_eventsBody_le b,
      fun _ => (length_timeBody_le b).trans (by decide), fun _ => hinfo, fun _ => hinfo,
      fun _ => (length_numberBody_le (by decide) _).trans (by decide),
      fun _ => (length_numberBody_le (by decide) _).trans (by decide), fun _ => hstatus 50,
      fun _ => hstatus 200⟩
  rcases bodyOf_cases name u b with ⟨hnil, -⟩ | ⟨entry, hmem, rfl, hbody⟩
  · rw [hnil]
    exact Nat.zero_le _
  · rw [hbody]
    exact htable entry hmem hne

/-- **Every body** is as short as that of the events. -/
theorem length_bodyOf_le (hs : ShortStrings b) (hip : b.ipStation.length ≤ 15) (hfields : FieldsFit u) :
    (bodyText (bodyOf (command u) u b)).length ≤ 1403 := by
  by_cases hset : command u = ascii "setwifi"
  · have hcut : (Cut.field 3, 120) ∈ cuts (command u) := by
      rw [hset]
      decide
    have hpass := length_setWifiText_le hs (Nat.le_of_lt_succ (length_field_lt hfields hcut))
    rw [hset]
    exact length_single_le hpass (by decide)
  · by_cases hget : command u = ascii "getwifi"
    · rw [hget]
      exact length_single_le (length_getWifiText_le hs hip) (by decide)
    · exact length_bodyOf_le_of_ne hs.portName ⟨hset, hget⟩

end Bodies

lemma length_header : (bodyText startResponseJson).length = 181 := by decide +kernel

/-! ### The response is sent whole -/

theorem step_sends {r : Rest} {conn : Conn} (ha : IsAnswered conn.url)
    (hlen : (bodyText (bodyOf (command conn.url) conn.url (step r (.request conn)).board)).length ≤ 1403) :
    let r' := step r (.request conn)
    let parts := startResponseJson ++ bodyOf (command conn.url) conn.url r'.board
    Sends conn parts r r' ∧ (bodyText parts).length ≤ maxSendbuffLen := by
  set r₀ : Rest := { r with sendBuff := [] } with hr₀
  have hstep : step r (.request conn) = parseURLCommand conn r₀ := rfl
  rw [hstep] at hlen ⊢
  have hfits : (bodyText (startResponseJson ++ bodyOf (command conn.url) conn.url
      (parseURLCommand conn r₀).board)).length ≤ maxSendbuffLen := by
    rw [bodyText_append, List.length_append, length_header]
    unfold maxSendbuffLen
    omega
  have key := request_sends ha r₀ rfl hfits
  exact ⟨⟨key.queued, key.sent, key.sendBuff⟩, hfits⟩

section Whole

variable (r : Rest) (conn : Conn)

/-- What a step of a request is to send. -/
def response : List Part :=
  startResponseJson ++ bodyOf (command conn.url) conn.url (step r (.request conn)).board

/-- A command that answers, with fields that fit their buffers, strings that are terminated before and
after it, and a short address. -/
structure Answerable : Prop where
  answered : IsAnswered conn.url
  fits : FieldsFit conn.url
  before : Terminated r.board.flashData
  after : Terminated (step r (.request conn)).board.flashData
  ip : r.board.ipStation.length ≤ 15

/-- The response is sent as a whole, and nothing is written outside an array. -/
structure SentWhole : Prop where
  sends : Sends conn (response r conn) r (step r (.request conn))
  length : (bodyText (response r conn)).length ≤ maxSendbuffLen
  safe : SafeFrom r.log (step r (.request conn)).log

variable {r conn}

/-- **No response is cut** exactly if the request has an index of the array that its command uses: what is
written behind an array may be the length of the send buffer. -/
theorem response_whole_iff (h : Answerable r conn) :
    SentWhole r conn ↔ IndexOk (command conn.url) conn.url := by
  have hip : (step r (.request conn)).board.ipStation.length ≤ 15 := by
    rw [step, request_ipStation]
    exact h.ip
  obtain ⟨hsends, hlen⟩ :=
    step_sends h.answered (length_bodyOf_le (shortStrings_of_terminated h.after) hip h.fits)
  constructor
  · intro hw
    exact (step_safeFrom_iff.1 hw.safe).index
  · intro hidx
    exact ⟨hsends, hlen, step_safeFrom_iff.2 ⟨hidx, h.fits⟩⟩

end Whole

/-- The list of events, the longest response. -/
theorem response_whole_events : SentWhole (.start .zero) (.get "/events") := by
  have hboth : BothTerminated (copies (Rest.start .zero).board) := ⟨terminated_zero, terminated_zero⟩
  have hidx : Indexes (.request (.get "/events")) := indexOk_of_none rfl
  have hterminated : Terminated (step (.start .zero) (.request (.get "/events"))).board.flashData :=
    (terminated_event_iff hboth hidx).2 ⟨by decide, by decide⟩
  have hanswerable : Answerable (.start .zero) (.get "/events") :=
    ⟨⟨by decide, by decide⟩, by decide, terminated_zero, hterminated, Nat.zero_le _⟩
  exact (response_whole_iff hanswerable).2 (by decide)

lemma terminated_event {r : Rest} {conn : Conn} (hname : command conn.url = ascii "event")
    (h : Terminated r.board.flashData) : Terminated (step r (.request conn)).board.flashData := by
  have hops : opsOf (.request conn) = [.edit fun f =>
      some { f with powerEvents := modifyAt f.powerEvents (number (ascii "event") conn.url)
                                     (setEvent conn.url) }] := by
    rw [opsOf, hname]
    rfl
  have hcopies := copies_step r (.request conn)
  rw [hops] at hcopies
  have hram : (step r (.request conn)).board.flashData = { r.board.flashData with
      powerEvents := modifyAt r.board.flashData.powerEvents (number (ascii "event") conn.url)
                       (setEvent conn.url) } := congrArg Copies.ram hcopies
  rw [hram]
  exact ⟨h.ssid, h.password, h.portName⟩

/-- **An event far in front of the table** is written to other data. -/
theorem not_response_whole_behind : Answerable (.start .zero) (.get "/event/-1161/0/0/2048:0/0:0") ∧
    ¬ SentWhole (.start .zero) (.get "/event/-1161/0/0/2048:0/0:0") := by
  have hname : command (Conn.get "/event/-1161/0/0/2048:0/0:0").url = ascii "event" := by decide
  have hstart : Terminated (Rest.start .zero).board.flashData := terminated_zero
  refine ⟨⟨⟨by decide, by decide⟩, by decide, hstart, terminated_event hname hstart, Nat.zero_le _⟩, ?_⟩
  intro h
  exact absurd (step_safeFrom_iff.1 h.safe).index (by decide)

end Esp8266Rest.Reply
