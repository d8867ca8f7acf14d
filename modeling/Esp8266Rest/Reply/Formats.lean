import Esp8266Rest.Reply.Sizes

/-!
# Formatted texts and their buffers

Each `os_sprintf` of a handler writes into a local buffer.  With strings that are terminated all of them
fit but two: the entry of a port in `doGetPorts`, and the number in `doSNTP` and `doWifiport`.
`formatsFit_iff` says for which names and numbers these fit as well, throughout a run.
-/

namespace Esp8266Rest.Reply

open Esp8266Rest.Lib.CStr Esp8266Rest.Lib.Runs Esp8266Rest.Lib.Stored Esp8266Rest.Model Esp8266Rest.Url
  Esp8266Rest.Outputs Esp8266Rest.Config Esp8266Rest.Http

/-! ### Parts that fit -/

/-- A part whose text leaves room for its NUL in its buffer. -/
def PartFits : Part → Prop
  | .lit _ => True
  | .fmt cap text => text.length < cap

instance (p : Part) : Decidable (PartFits p) := by
  unfold PartFits
  split <;> infer_instance

lemma partFits_fmt {cap : ℕ} {text : Bytes} :
    PartFits (.fmt cap text) ↔ (partText (.fmt cap text)).length < cap := Iff.rfl

theorem parts_fit_iff {ps : List Part} :
    (∀ c ∈ ps.filterMap partFormat, c.Fits) ↔ ∀ p ∈ ps, PartFits p := by
  induction ps with
  | nil => simp
  | cons p ps ih =>
    rw [List.forall_mem_cons, ← ih]
    cases p with
    | lit text => exact ⟨fun h => ⟨trivial, h⟩, And.right⟩
    | fmt cap text => exact List.forall_mem_cons

theorem forall_commaSep (pss : List (List Part)) :
    (∀ p ∈ commaSep pss, PartFits p) ↔ ∀ ps ∈ pss, ∀ p ∈ ps, PartFits p := by
  induction pss with
  | nil => simp [commaSep]
  | cons ps pss ih =>
    cases pss with
    | nil => simp [commaSep]
    | cons qs pss =>
      have hsplit : commaSep (ps :: qs :: pss) = ps ++ .lit (ascii ",") :: commaSep (qs :: pss) := rfl
      rw [hsplit, List.forall_mem_append, List.forall_mem_cons, ih]
      constructor
      · rintro ⟨hps, -, hrest⟩
        exact List.forall_mem_cons.2 ⟨hps, hrest⟩
      · intro h
        obtain ⟨hps, hrest⟩ := List.forall_mem_cons.1 h
        exact ⟨hps, trivial, hrest⟩

theorem length_partText_le {p : Part} {ps : List Part} (h : p ∈ ps) :
    (partText p).length ≤ (bodyText ps).length := by
  obtain ⟨l₁, l₂, rfl⟩ := List.mem_iff_append.1 h
  simp only [bodyText_append, bodyText_cons, List.length_append]
  omega

/-! ### The bodies -/

/-- The entries of the ports fit: name, type and pin leave room for the rest. -/
def EntriesFit (names : Fin 8 → Bytes) (ports : Vector PortInfo 8) : Prop :=
  ∀ p : Fin 8, (names p).length + (decimal (ports.get p).type.toInt).length +
    (decimal (ports.get p).portPinNumber.toInt).length ≤ 14

/-- The number fits between its quotes. -/
def NumberFits (x : Int32) : Prop := (decimal x.toInt).length ≤ 7

/-- The room that the response of `name` needs, which shows these names of the ports and numbers. -/
structure RoomFor (name : Bytes) (names : Fin 8 → Bytes) (ports : Vector PortInfo 8)
    (sntp serverPort : Int32) : Prop where
  entries : name = ascii "portsinfo" ∨ name = ascii "portinfo" → EntriesFit names ports
  sntp : name = ascii "sntp" → NumberFits sntp
  serverPort : name = ascii "wifiport" → NumberFits serverPort

/-- The names of a record, as `%s` shows them. -/
def namesOf (f : FlashData) (p : Fin 8) : Bytes := f.portNameStr p

theorem portStatusBody_fits {b : Board} (h : ShortStrings b) {cap : ℕ} (hcap : 28 ≤ cap) :
    ∀ p ∈ portStatusBody cap b, PartFits p := by
  have hparts : ∀ ps ∈ (List.finRange 8).map fun p : Fin 8 => [Part.fmt cap (ascii "\"" ++
      b.flashData.portNameStr p ++ ascii "\":\"" ++ decimal (b.portsVal.get p).toNat ++ ascii "\"")],
      ∀ p ∈ ps, PartFits p := by
    rw [List.forall_mem_map]
    intro p _
    have hname := h.portName p
    have hval := length_decimal_byte (b.portsVal.get p)
    have hlen := length_statusPart cap b p
    rw [List.forall_mem_singleton, partFits_fmt, hlen]
    omega
  unfold portStatusBody
  rw [List.cons_append, List.forall_mem_cons, List.forall_mem_append, List.forall_mem_singleton,
    forall_commaSep]
  exact ⟨trivial, hparts, trivial⟩

theorem portsInfoBody_fits_iff (b : Board) : (∀ p ∈ portsInfoBody b, PartFits p) ↔
    EntriesFit (namesOf b.flashData) b.flashData.ports := by
  unfold portsInfoBody
  rw [List.cons_append, List.forall_mem_cons, List.forall_mem_append, List.forall_mem_singleton,
    forall_commaSep, List.forall_mem_map]
  have hentry : ∀ p : Fin 8, (∀ q ∈ [Part.fmt 50 (ascii "\x7b\"Name\":\"" ++ b.flashData.portNameStr p ++
      ascii "\", \"Type\":\"" ++ decimal (b.flashData.ports.get p).type.toInt ++ ascii "\", \"PinNum\":\"" ++
      decimal (b.flashData.ports.get p).portPinNumber.toInt ++ ascii "\"\x7d")], PartFits q) ↔
      (namesOf b.flashData p).length + (decimal (b.flashData.ports.get p).type.toInt).length +
        (decimal (b.flashData.ports.get p).portPinNumber.toInt).length ≤ 14 := by
    intro p
    have hlen := length_infoPart b p
    rw [List.forall_mem_singleton, partFits_fmt, hlen]
    unfold namesOf
    omega
  constructor
  · rintro ⟨-, h, -⟩ p
    exact (hentry p).1 (h p (List.mem_finRange p))
  · intro h
    exact ⟨trivial, fun p _ => (hentry p).2 (h p), trivial⟩

theorem eventsBody_fits (b : Board) : ∀ p ∈ eventsBody b, PartFits p := by
  have hparts : ∀ (i : Fin 10) (e : PowerEvent), ∀ p ∈ eventBody i e, PartFits p := by
    intro i e p hp
    have hlen := (length_partText_le hp).trans (length_eventBody_le i e)
    have hcap : ∃ text, p = .fmt 200 text := by
      simp only [eventBody, eventField, List.mem_cons, List.not_mem_nil, or_false] at hp
      rcases hp with rfl | rfl | rfl | rfl | rfl | rfl <;> exact ⟨_, rfl⟩
    obtain ⟨text, rfl⟩ := hcap
    rw [partFits_fmt]
    omega
  unfold eventsBody
  rw [List.cons_append, List.forall_mem_cons, List.forall_mem_append, List.forall_mem_singleton,
    forall_commaSep, List.forall_mem_map]
  exact ⟨trivial, fun i _ => hparts i _, trivial⟩

theorem timeBody_fits (b : Board) : ∀ p ∈ timeBody b, PartFits p := by
  have hclock := length_clockText_le b
  have hquote : (ascii "\"").length = 1 := rfl
  simp only [timeBody, List.forall_mem_cons, List.not_mem_nil, false_implies, implies_true, and_true, PartFits,
    List.length_append, hquote, true_and]
  omega

theorem numberBody_fits_iff (label : String) (x : Int32) :
    (∀ p ∈ numberBody label x, PartFits p) ↔ NumberFits x := by
  simp only [numberBody, List.forall_mem_cons, List.not_mem_nil, false_implies, implies_true, and_true,
    PartFits, length_numberPart, true_and, NumberFits]
  omega

/-- A command whose texts fit in any case. -/
theorem roomFor_of_ne {name : Bytes} {names : Fin 8 → Bytes} {ports : Vector PortInfo 8}
    {sntp serverPort : Int32}
    (hname : name ∉ [ascii "portsinfo", ascii "portinfo", ascii "sntp", ascii "wifiport"]) :
    RoomFor name names ports sntp serverPort := by
  simp only [List.mem_cons, List.not_mem_nil, or_false, not_or] at hname
  obtain ⟨h1, h2, h3, h4⟩ := hname
  exact ⟨fun h => absurd h (not_or.2 ⟨h1, h2⟩), fun h => absurd h h3, fun h => absurd h h4⟩

section Rooms

variable {names : Fin 8 → Bytes} {ports : Vector PortInfo 8} {sntp serverPort : Int32}

theorem roomFor_entries {name : Bytes} (hname : name = ascii "portsinfo" ∨ name = ascii "portinfo") :
    RoomFor name names ports sntp serverPort ↔ EntriesFit names ports := by
  have hne : name ≠ ascii "sntp" ∧ name ≠ ascii "wifiport" := by
    rcases hname with rfl | rfl <;> decide
  constructor
  · intro h
    exact h.entries hname
  · intro h
    exact ⟨fun _ => h, fun hsntp => absurd hsntp hne.1, fun hport => absurd hport hne.2⟩

theorem roomFor_sntp : RoomFor (ascii "sntp") names ports sntp serverPort ↔ NumberFits sntp := by
  constructor
  · intro h
    exact h.sntp rfl
  · intro h
    exact ⟨fun hname => absurd hname (by decide), fun _ => h, fun hname => absurd hname (by decide)⟩

theorem roomFor_wifiport : RoomFor (ascii "wifiport") names ports sntp serverPort ↔ NumberFits serverPort := by
  constructor
  · intro h
    exact h.serverPort rfl
  · intro h
    exact ⟨fun hname => absurd hname (by decide), fun hname => absurd hname (by decide), fun _ => h⟩

end Rooms

section Bodies

variable {u : Bytes} {b : Board} (hs : ShortStrings b) (hip : b.ipStation.length ≤ 15) (hfields : FieldsFit u)
include hs

/-- **The parts of every body** fit their buffers exactly if there is the room. -/
theorem bodyOf_fits_iff (name : Bytes) : (∀ p ∈ bodyOf name u b, PartFits p) ↔
    RoomFor name (namesOf b.flashData) b.flashData.ports b.flashData.sntp b.flashData.serverPort := by
  have hother : ∀ {name : Bytes} {body : List Part},
      name ∉ [ascii "portsinfo", ascii "portinfo", ascii "sntp", ascii "wifiport"] →
      (∀ p ∈ body, PartFits p) → ((∀ p ∈ body, PartFits p) ↔ RoomFor name (namesOf b.flashData)
        b.flashData.ports b.flashData.sntp b.flashData.serverPort) :=
    fun hname hfits => iff_of_true hfits (roomFor_of_ne hname)
  have hopen : ∀ p ∈ openBody (openPort u), PartFits p := by
    have hlen := length_openText (openPort u)
    rw [openBody, List.forall_mem_singleton]
    unfold PartFits
    omega
  have hlit : ∀ t : Bytes, ∀ p ∈ [Part.lit t], PartFits p := fun t => List.forall_mem_singleton.2 trivial
  have hinfo := portsInfoBody_fits_iff b
  have hstatus : ∀ p ∈ portStatusBody 200 b, PartFits p := portStatusBody_fits hs (by decide)
  have hscan : ∀ p ∈ portStatusBody 50 b, PartFits p := portStatusBody_fits hs (by decide)
  have htable : ∀ entry ∈ bodyTable, ((∀ p ∈ entry.2 u b, PartFits p) ↔ RoomFor entry.1
      (namesOf b.flashData) b.flashData.ports b.flashData.sntp b.flashData.serverPort) := by
    refine (forall_bodyTable (P := fun name body => (∀ p ∈ body u b, PartFits p) ↔ RoomFor name
      (namesOf b.flashData) b.flashData.ports b.flashData.sntp b.flashData.serverPort)).2 ?_
    exact ⟨hother (by decide) hstatus, hother (by decide) hopen, hother (by decide) hstatus,
      hother (by decide) (hlit _), hother (by decide) (hlit _), hother (by decide) (eventsBody_fits b),
      hother (by decide) (eventsBody_fits b), hother (by decide) (timeBody_fits b),
      hinfo.trans (roomFor_entries (.inl rfl)).symm, hinfo.trans (roomFor_entries (.inr rfl)).symm,
      (numberBody_fits_iff _ _).trans roomFor_sntp.symm, (numberBody_fits_iff _ _).trans roomFor_wifiport.symm,
      hother (by decide) hscan, hother (by decide) hstatus⟩
  rcases bodyOf_cases name u b with ⟨hnil, hname⟩ | ⟨entry, hmem, rfl, hbody⟩
  · have hkeys : [ascii "portsinfo", ascii "portinfo", ascii "sntp", ascii "wifiport"] ⊆
        bodyTable.map Prod.fst := by decide
    rw [hnil]
    exact iff_of_true (List.forall_mem_nil _) (roomFor_of_ne fun hmem => hname (hkeys hmem))
  · rw [hbody]
    exact htable entry hmem


include hip hfields

theorem wifiFormats_fit : ∀ c ∈ wifiFormats (command u) u b, c.Fits := by
  unfold wifiFormats
  split
  · rename_i hname
    rw [List.forall_mem_singleton]
    have hlen : (bodyText (bodyOf (command u) u b)).length ≤ 160 := by
      rcases hname with hname | hname
      · have hcut : (Cut.field 3, 120) ∈ cuts (command u) := by
          rw [hname]
          decide
        have htext := length_setWifiText_le hs (Nat.le_of_lt_succ (length_field_lt hfields hcut))
        have hbody : bodyText (bodyOf (ascii "setwifi") u b) = setWifiText u b := List.append_nil _
        rw [hname, hbody]
        exact htext.trans (by decide)
      · have hbody : bodyText (bodyOf (ascii "getwifi") u b) = getWifiText b := List.append_nil _
        rw [hname, hbody]
        exact length_getWifiText_le hs hip
    exact (Nat.succ_le_succ hlen).trans (show 161 ≤ 256 by decide)
  · exact List.forall_mem_nil _

end Bodies

/-! ### What a step formats -/

/-- What `doInitialize` formats. -/
def initializeFormats : List Copy :=
  (List.finRange 8).map fun i => ⟨(ascii "Output" ++ decimal (i : ℕ)).length + 1, 20⟩

/-- What a request formats that leaves the board `b`. -/
def formatsOf (u : Bytes) (b : Board) : List Copy :=
  if IsAnswered u then
    wifiFormats (command u) u b ++ (startResponseJson ++ bodyOf (command u) u b).filterMap partFormat
  else if command u = ascii "initialize" then initializeFormats
  else []

def stepFormats (b : Board) : Event → List Copy
  | .request conn => formatsOf conn.url b
  | _ => []

theorem doInitialize_formatted (conn : Conn) (r : Rest) :
    (doInitialize conn r).log.formatted = r.log.formatted ++ initializeFormats := by
  unfold doInitialize
  rw [foldl_osSprintf]
  rfl

theorem request_formats (conn : Conn) (r : Rest) : (parseURLCommand conn r).log.formatted =
    r.log.formatted ++ formatsOf conn.url (parseURLCommand conn r).board := by
  unfold formatsOf
  by_cases ha : IsAnswered conn.url
  · rw [if_pos ha]
    exact request_formatted ha r
  · rw [if_neg ha]
    rcases parseURLCommand_unanswered ha r with ⟨hinit, hr'⟩ | ⟨hinit, hr'⟩
    · rw [if_pos hinit, hr']
      exact doInitialize_formatted conn _
    · rw [if_neg hinit, hr', List.append_nil]
      rfl

theorem step_formatted (r : Rest) (e : Event) :
    (step r e).log.formatted = r.log.formatted ++ stepFormats (step r e).board e := by
  rcases e with conn | ⟨t, tz⟩ | _
  · exact request_formats conn _
  · simp only [stepFormats, List.append_nil, step]
    exact tick_log (f := Log.formatted) (fun _ _ _ => rfl) r t tz
  · simp only [stepFormats, List.append_nil, step]
    exact openTimerExpire_log (f := Log.formatted) (fun _ _ _ => rfl) r

/-- **What a request formats** fits exactly if there is the room in the board that it leaves. -/
theorem formatsOf_fit_iff {u : Bytes} {b : Board} (hs : ShortStrings b) (hip : b.ipStation.length ≤ 15)
    (hfields : FieldsFit u) : (∀ c ∈ formatsOf u b, c.Fits) ↔
      RoomFor (command u) (namesOf b.flashData) b.flashData.ports b.flashData.sntp
        b.flashData.serverPort := by
  have hheader : ∀ p ∈ startResponseJson, PartFits p := by decide +kernel
  have hnames : ∀ name ∈ [ascii "portsinfo", ascii "portinfo", ascii "sntp", ascii "wifiport"],
      name ∈ commandNames ∧ name ≠ ascii "initialize" := by decide
  unfold formatsOf
  by_cases ha : IsAnswered u
  · rw [if_pos ha, List.forall_mem_append, parts_fit_iff, List.forall_mem_append, bodyOf_fits_iff hs]
    exact ⟨fun h => h.2.2, fun h => ⟨wifiFormats_fit hs hip hfields, hheader, h⟩⟩
  · rw [if_neg ha]
    refine iff_of_true ?_ (roomFor_of_ne fun hmem => ha (hnames _ hmem))
    split
    · decide
    · exact List.forall_mem_nil _

/-! ### The condition before the step -/

/-- The name of the port that the response shows: the one of the request, or the one in its array. -/
def shownName (u : Bytes) (f : FlashData) (p : Fin 8) : Bytes :=
  if command u = ascii "portinfo" ∧ slot? 8 (atoi (field u 2)) = some p then field u 3
  else cstr (f.ports.get p).portName.toList

/-- The number that the response shows: the one of the request, if it has one. -/
def shownNumber (u : Bytes) (x : Int32) : Int32 := if field u 2 = [] then x else atoi (field u 2)

section Step

variable {conn : Conn} {r : Rest}

/-- The record after a request whose operations are known. -/
theorem flashData_step {ops : List (Op FlashData)} (h : recordOps conn (command conn.url) = ops) :
    (step r (.request conn)).board.flashData = (run loader.step (copies r.board) ops).ram := by
  have hram : (step r (.request conn)).board.flashData = (copies (step r (.request conn)).board).ram := rfl
  rw [hram, copies_step, opsOf, h]

theorem entriesFit_congr {names names' : Fin 8 → Bytes} {ports ports' : Vector PortInfo 8}
    (h : ∀ p : Fin 8, names p = names' p ∧ (ports.get p).type = (ports'.get p).type ∧
      (ports.get p).portPinNumber = (ports'.get p).portPinNumber) :
    EntriesFit names ports ↔ EntriesFit names' ports' := by
  refine forall_congr' fun p => ?_
  obtain ⟨hname, htype, hpin⟩ := h p
  rw [hname, htype, hpin]

theorem shownNumber_ifGiven (get : FlashData → Int32) {g : FlashData → FlashData}
    (hget : ∀ f, get (g f) = atoi (field conn.url 2))
    (hop : recordOps conn (command conn.url) = [.edit (ifGiven conn.url g)]) :
    get (step r (.request conn)).board.flashData = shownNumber conn.url (get r.board.flashData) := by
  rw [flashData_step hop, run_cons, run_nil, shownNumber]
  by_cases hu : field conn.url 2 = []
  · simp only [Loader.step, ifGiven, if_pos hu]
    rfl
  · simp only [Loader.step, ifGiven, if_neg hu]
    exact hget _

theorem shownName_portinfo (hname : command conn.url = ascii "portinfo")
    (ht : Terminated (step r (.request conn)).board.flashData) (p : Fin 8) :
    let f := (step r (.request conn)).board.flashData
    namesOf f p = shownName conn.url r.board.flashData p ∧
      (f.ports.get p).type = (r.board.flashData.ports.get p).type ∧
      (f.ports.get p).portPinNumber = (r.board.flashData.ports.get p).portPinNumber := by
  have hn : number (ascii "portinfo") conn.url = atoi (field conn.url 2) := number_of_ne (by decide) _
  have hop : recordOps conn (command conn.url) = [.edit fun f =>
      some { f with ports := modifyAt f.ports (atoi (field conn.url 2)) (namePort conn.url) }] := by
    rw [hname, ← hn]
    rfl
  have hports : (step r (.request conn)).board.flashData.ports =
      modifyAt r.board.flashData.ports (atoi (field conn.url 2)) (namePort conn.url) := by
    rw [flashData_step hop]
    rfl
  have hport : (step r (.request conn)).board.flashData.ports.get p =
      if slot? 8 (atoi (field conn.url 2)) = some p then namePort conn.url (r.board.flashData.ports.get p)
      else r.board.flashData.ports.get p := by
    rw [hports, get_modifyAt]
  have hshown := ht.readsOwn.portName p
  have hzero := ht.portName p
  unfold namesOf shownName
  dsimp only
  rw [hshown]
  rw [hport] at hzero ⊢
  generalize r.board.flashData.ports.get p = q at hzero ⊢
  by_cases hp : slot? 8 (atoi (field conn.url 2)) = some p
  · rw [if_pos hp] at hzero ⊢
    have hlt := (zero_mem_portName_iff (zero_notMem_piece conn.url slash 3)).1 hzero
    rw [if_pos ⟨hname, hp⟩]
    refine ⟨cstr_portName (zero_notMem_piece conn.url slash 3) hlt, ?_, ?_⟩
    · simp only [namePort]
    · simp only [namePort]
  · rw [if_neg hp, if_neg fun h => hp h.2]
    exact ⟨rfl, rfl, rfl⟩

theorem shownName_portsinfo (hname : command conn.url = ascii "portsinfo")
    (ht : Terminated (step r (.request conn)).board.flashData) (p : Fin 8) :
    let f := (step r (.request conn)).board.flashData
    namesOf f p = shownName conn.url r.board.flashData p ∧
      (f.ports.get p).type = (r.board.flashData.ports.get p).type ∧
      (f.ports.get p).portPinNumber = (r.board.flashData.ports.get p).portPinNumber := by
  have hop : recordOps conn (command conn.url) = [] := by
    rw [hname]
    rfl
  have hram : (step r (.request conn)).board.flashData = r.board.flashData := flashData_step hop
  have hne : command conn.url ≠ ascii "portinfo" := by
    rw [hname]
    decide
  have hshown := ht.readsOwn.portName p
  unfold namesOf shownName
  dsimp only
  rw [hshown, if_neg fun h => hne h.1, hram]
  exact ⟨rfl, rfl, rfl⟩

/-- **The room in the board after the request** is the room before it for what it shows. -/
theorem roomFor_step_iff (ht : Terminated (step r (.request conn)).board.flashData) :
    let f := (step r (.request conn)).board.flashData
    RoomFor (command conn.url) (namesOf f) f.ports f.sntp f.serverPort ↔
      RoomFor (command conn.url) (shownName conn.url r.board.flashData) r.board.flashData.ports
        (shownNumber conn.url r.board.flashData.sntp)
        (shownNumber conn.url r.board.flashData.serverPort) := by
  dsimp only
  have hentries : command conn.url = ascii "portsinfo" ∨ command conn.url = ascii "portinfo" →
      (EntriesFit (namesOf (step r (.request conn)).board.flashData)
          (step r (.request conn)).board.flashData.ports ↔
        EntriesFit (shownName conn.url r.board.flashData) r.board.flashData.ports) := by
    rintro (hname | hname)
    · exact entriesFit_congr (shownName_portsinfo hname ht)
    · exact entriesFit_congr (shownName_portinfo hname ht)
  have hsntp : command conn.url = ascii "sntp" → (step r (.request conn)).board.flashData.sntp =
      shownNumber conn.url r.board.flashData.sntp := by
    intro hname
    refine shownNumber_ifGiven FlashData.sntp
      (g := fun f => { f with sntp := atoi (field conn.url 2) }) (fun _ => rfl) ?_
    rw [hname]
    rfl
  have hport : command conn.url = ascii "wifiport" → (step r (.request conn)).board.flashData.serverPort =
      shownNumber conn.url r.board.flashData.serverPort := by
    intro hname
    refine shownNumber_ifGiven FlashData.serverPort
      (g := fun f => { f with serverPort := atoi (field conn.url 2) }) (fun _ => rfl) ?_
    rw [hname]
    rfl
  constructor
  · intro h
    exact ⟨fun hname => (hentries hname).1 (h.entries hname), fun hname => hsntp hname ▸ h.sntp hname,
      fun hname => hport hname ▸ h.serverPort hname⟩
  · intro h
    exact ⟨fun hname => (hentries hname).2 (h.entries hname), fun hname => (hsntp hname).symm ▸ h.sntp hname,
      fun hname => (hport hname).symm ▸ h.serverPort hname⟩

end Step

/-- The names and numbers that the step shows leave room in their buffers. -/
def FormatsFit (r : Rest) : Event → Prop
  | .request conn => RoomFor (command conn.url) (shownName conn.url r.board.flashData)
      r.board.flashData.ports (shownNumber conn.url r.board.flashData.sntp)
      (shownNumber conn.url r.board.flashData.serverPort)
  | _ => True

/-- What the formats rely on: fields that fit their buffers, terminated strings, a short address. -/
def Promised (r : Rest) : Event → Prop
  | .request conn => FieldsFit conn.url ∧ Terminated (step r (.request conn)).board.flashData ∧
      r.board.ipStation.length ≤ 15
  | _ => True

/-- All that was formatted fitted its buffer. -/
def AllFit (r : Rest) : Prop := ∀ c ∈ r.log.formatted, c.Fits

theorem step_allFit_iff {r : Rest} (h : AllFit r) {e : Event} (hp : Promised r e) :
    AllFit (step r e) ↔ FormatsFit r e := by
  unfold AllFit
  rw [step_formatted, List.forall_mem_append]
  refine (and_iff_right h).trans ?_
  rcases e with conn | ⟨t, tz⟩ | _
  · obtain ⟨hfields, ht, hip⟩ := hp
    have hip' : (step r (.request conn)).board.ipStation.length ≤ 15 := by
      rw [step, request_ipStation]
      exact hip
    exact (formatsOf_fit_iff (shortStrings_of_terminated ht) hip' hfields).trans (roomFor_step_iff ht)
  · exact iff_of_true (List.forall_mem_nil _) trivial
  · exact iff_of_true (List.forall_mem_nil _) trivial

/-- **Everything that is formatted fits its buffer** throughout a run exactly if the names and numbers
that its steps show do. -/
theorem formatsFit_iff {r : Rest} {es : List Event} (h : AllFit r) (hp : Along step Promised r es) :
    Throughout step AllFit r es ↔ Along step FormatsFit r es :=
  throughout_iff_along step (V := Promised) (I := AllFit)
    (fun _ _ hI hV hok => (step_allFit_iff hI hV).2 hok) (fun _ _ hI hV => step_allFit_iff hI hV) h h hp

lemma allFit_start : AllFit (.start .zero) := List.forall_mem_nil _

theorem promised_start {url : String} (hfields : FieldsFit (ascii url))
    (hidx : IndexOk (command (ascii url)) (ascii url)) (hfits : TextsFit (command (ascii url)) (ascii url)) :
    Promised (.start .zero) (.request (.get url)) := by
  have hboth : BothTerminated (copies (Rest.start .zero).board) := ⟨terminated_zero, terminated_zero⟩
  have hindexes : Indexes (.request (.get url)) := hidx
  exact ⟨hfields, (terminated_event_iff hboth hindexes).2 hfits, Nat.zero_le _⟩

/-- A port with a short name. -/
theorem formatsFit_lamp : Along step Promised (.start .zero) [.request (.get "/portinfo/1/Lamp")] ∧
    Throughout step AllFit (.start .zero) [.request (.get "/portinfo/1/Lamp")] := by
  have hp : Promised (.start .zero) (.request (.get "/portinfo/1/Lamp")) :=
    promised_start (by decide) ((indexOk_of_some (n := numOfPorts) rfl).2 (by decide)) ⟨by decide, by decide⟩
  have hroom : FormatsFit (.start .zero) (.request (.get "/portinfo/1/Lamp")) :=
    ⟨fun _ => by unfold EntriesFit; decide, fun hname => absurd hname (by decide),
      fun hname => absurd hname (by decide)⟩
  have hrun : Along step Promised (.start .zero) [.request (.get "/portinfo/1/Lamp")] := ⟨hp, trivial⟩
  exact ⟨hrun, (formatsFit_iff allFit_start hrun).2 ⟨hroom, trivial⟩⟩

/-- **A number of eight digits** overruns the buffer of `doWifiport`, which has room for seven. -/
theorem not_formatsFit_eight :
    Along step Promised (.start .zero) [.request (.get "/wifiport/12345678")] ∧
    ¬ Throughout step AllFit (.start .zero) [.request (.get "/wifiport/12345678")] := by
  have hp : Promised (.start .zero) (.request (.get "/wifiport/12345678")) :=
    promised_start (by decide) (indexOk_of_none rfl) ⟨by decide, by decide⟩
  refine ⟨⟨hp, trivial⟩, fun h => ?_⟩
  have hroom := (step_allFit_iff allFit_start hp).1 h.2
  exact absurd (hroom.serverPort (by decide)) (by unfold NumberFits; decide)

end Esp8266Rest.Reply
