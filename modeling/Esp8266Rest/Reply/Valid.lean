import Esp8266Rest.Lib.JsonText
import Esp8266Rest.Reply.Formats

/-!
# The bodies as JSON

The bodies are put together from literals, numbers and the names of the ports, and these stand in them as
they are.  With names that need no escapes all bodies but one are JSON, and they show the current state
(`portStatus_writes`, `portsInfo_writes`, `events_writes`); that of `doGetTime` never is
(`not_isJson_time`).  `sendsJson_of_plain` says this of runs of proper requests.
-/

namespace Esp8266Rest.Reply

open Esp8266Rest.Lib.CStr Esp8266Rest.Lib.JsonText Esp8266Rest.Lib.Runs Esp8266Rest.Lib.Stored
  Esp8266Rest.Model Esp8266Rest.Url Esp8266Rest.Outputs Esp8266Rest.Config

/-! ### What the bodies show -/

/-- The ports with their values. -/
def portsJson (b : Board) : Json :=
  .obj [(ascii "ports", .obj ((List.finRange 8).map fun p : Fin 8 =>
    (b.flashData.portNameStr p, .str (decimal (b.portsVal.get p).toNat))))]

/-- The ports with their names. -/
def portsInfoJson (b : Board) : Json :=
  .obj [(ascii "PortsInfo", .arr ((List.finRange 8).map fun p : Fin 8 => .obj
    [(ascii "Name", .str (b.flashData.portNameStr p)),
      (ascii "Type", .str (decimal (b.flashData.ports.get p).type.toInt)),
      (ascii "PinNum", .str (decimal (b.flashData.ports.get p).portPinNumber.toInt))]))]

def timeText (t : Time) : Bytes := decimal2 t.hour.toInt ++ ascii ":" ++ decimal2 t.min.toInt

def eventJson (i : ℕ) (e : PowerEvent) : Json :=
  .obj [(ascii "id", .str (decimal i)), (ascii "Active", .str (decimal e.active.toNat)),
    (ascii "input", .str (decimal e.port.toInt)), (ascii "Interval", .str (decimal e.daysRepeat.toInt)),
    (ascii "Start", .str (timeText e.startTime)), (ascii "End", .str (timeText e.endTime))]

/-- The events. -/
def eventsJson (b : Board) : Json :=
  .obj [(ascii "Events", .arr ((List.finRange 10).map fun i : Fin 10 =>
    eventJson i (b.flashData.powerEvents.get i)))]

def openJson (n : Int32) : Json := .obj [(ascii "Open", .num (decimal n.toInt))]

def numberJson (name : String) (value : Int32) : Json := .obj [(ascii name, .str (decimal value.toInt))]

/-! ### The texts -/

theorem bodyText_commaSep (pss : List (List Part)) :
    bodyText (commaSep pss) = [44].intercalate (pss.map bodyText) := by
  induction pss with
  | nil => rfl
  | cons ps pss ih =>
    cases pss with
    | nil => simp [commaSep]
    | cons qs pss =>
      have hsplit : commaSep (ps :: qs :: pss) = ps ++ .lit (ascii ",") :: commaSep (qs :: pss) := rfl
      have hcomma : partText (.lit (ascii ",")) = [44] := rfl
      have hmap : (ps :: qs :: pss).map bodyText = bodyText ps :: (qs :: pss).map bodyText := rfl
      have hne : (qs :: pss).map bodyText ≠ [] := List.cons_ne_nil _ _
      rw [hsplit, bodyText_append, bodyText_cons, ih, hcomma, hmap, List.intercalate_cons_of_ne_nil hne,
        List.append_assoc]

theorem forall₂_map {α β γ : Type*} {R : β → γ → Prop} {f : α → β} {g : α → γ} {l : List α}
    (h : ∀ a ∈ l, R (f a) (g a)) : List.Forall₂ R (l.map f) (l.map g) := by
  rw [List.forall₂_map_left_iff, List.forall₂_map_right_iff, List.forall₂_same]
  exact h

/-- `"key":"text"` -/
def pairText (key text : Bytes) : Bytes := 34 :: (key ++ 34 :: 58 :: 34 :: (text ++ [34]))

theorem pairText_eq (key text : Bytes) :
    pairText key text = ascii "\"" ++ key ++ ascii "\":\"" ++ text ++ ascii "\"" := by
  have hquote : ascii "\"" = [34] := rfl
  have hcolon : ascii "\":\"" = [34, 58, 34] := rfl
  simp [pairText, hquote, hcolon]

lemma pair_writes {key text : Bytes} (hk : IsPlain key) (ht : IsPlain text) :
    Writes (fun n => member (value n)) (pairText key text) (key, .str text) :=
  writes_member hk (writes_str ht)

theorem writes_single {key t : Bytes} {v : Json} (hk : IsPlain key) (ht : Writes value t v) :
    Writes value (123 :: 34 :: (key ++ 34 :: 58 :: (t ++ [125]))) (.obj [(key, v)]) := by
  have key' := writes_obj (.cons (writes_member hk ht) .nil)
  rw [List.intercalate_singleton] at key'
  simpa using key'

/-! ### The bodies -/

theorem bodyText_portStatus (cap : ℕ) (b : Board) : bodyText (portStatusBody cap b) =
    123 :: 34 :: (ascii "ports" ++ 34 :: 58 :: ((123 :: ([44].intercalate
      ((List.finRange 8).map fun p : Fin 8 =>
        pairText (b.flashData.portNameStr p) (decimal (b.portsVal.get p).toNat)) ++ [125])) ++ [125])) := by
  have hopen : ascii "\x7b\"ports\":\x7b" = 123 :: 34 :: (ascii "ports" ++ [34, 58, 123]) := rfl
  have hclose : ascii "\x7d\x7d" = [125, 125] := rfl
  have hentry : ∀ p : Fin 8, bodyText [.fmt cap (ascii "\"" ++ b.flashData.portNameStr p ++ ascii "\":\"" ++
      decimal (b.portsVal.get p).toNat ++ ascii "\"")] =
      pairText (b.flashData.portNameStr p) (decimal (b.portsVal.get p).toNat) := by
    intro p
    rw [bodyText_cons, bodyText_nil, List.append_nil, partText, pairText_eq]
  unfold portStatusBody
  rw [bodyText_append, bodyText_cons, bodyText_commaSep, List.map_map]
  simp only [Function.comp_def, hentry, bodyText_cons, bodyText_nil, partText, hopen, hclose]
  simp

theorem portStatus_writes (cap : ℕ) {b : Board} (h : ∀ p : Fin 8, IsPlain (b.flashData.portNameStr p)) :
    Writes value (bodyText (portStatusBody cap b)) (portsJson b) := by
  have hkey : IsPlain (ascii "ports") := isPlain_of_safe (by decide)
  have hports := forall₂_map (l := List.finRange 8) fun p _ =>
    pair_writes (h p) (isPlain_decimal (b.portsVal.get p).toNat)
  rw [bodyText_portStatus]
  exact writes_single hkey (writes_obj hports)

theorem infoPart_eq (name : Bytes) (type pin : ℤ) : ascii "\x7b\"Name\":\"" ++ name ++
      ascii "\", \"Type\":\"" ++ decimal type ++ ascii "\", \"PinNum\":\"" ++ decimal pin ++ ascii "\"\x7d" =
    123 :: ([44].intercalate [pairText (ascii "Name") name, 32 :: pairText (ascii "Type") (decimal type),
      32 :: pairText (ascii "PinNum") (decimal pin)] ++ [125]) := by
  have hname : ascii "\x7b\"Name\":\"" = 123 :: 34 :: (ascii "Name" ++ [34, 58, 34]) := rfl
  have htype : ascii "\", \"Type\":\"" = [34, 44, 32, 34] ++ ascii "Type" ++ [34, 58, 34] := rfl
  have hpin : ascii "\", \"PinNum\":\"" = [34, 44, 32, 34] ++ ascii "PinNum" ++ [34, 58, 34] := rfl
  have hend : ascii "\"\x7d" = [34, 125] := rfl
  rw [hname, htype, hpin, hend]
  simp [pairText, List.intercalate_cons_cons]

theorem infoPart_writes {name : Bytes} (h : IsPlain name) (type pin : ℤ) :
    Writes value (ascii "\x7b\"Name\":\"" ++ name ++ ascii "\", \"Type\":\"" ++ decimal type ++
        ascii "\", \"PinNum\":\"" ++ decimal pin ++ ascii "\"\x7d")
      (.obj [(ascii "Name", .str name), (ascii "Type", .str (decimal type)),
        (ascii "PinNum", .str (decimal pin))]) := by
  have hname : IsPlain (ascii "Name") := isPlain_of_safe (by decide)
  have htype : IsPlain (ascii "Type") := isPlain_of_safe (by decide)
  have hpin : IsPlain (ascii "PinNum") := isPlain_of_safe (by decide)
  rw [infoPart_eq]
  exact writes_obj (.cons (pair_writes hname h) (.cons (pair_writes htype (isPlain_decimal _)).blank_member
    (.cons (pair_writes hpin (isPlain_decimal _)).blank_member .nil)))

theorem listBody_writes {key op : Bytes} (hkey : IsPlain key) (hop : op = 123 :: 34 :: (key ++ [34, 58, 91]))
    {pss : List (List Part)} {vs : List Json} (h : List.Forall₂ (Writes value) (pss.map bodyText) vs) :
    Writes value (bodyText (.lit op :: commaSep pss ++ [.lit (ascii "]\x7d")])) (.obj [(key, .arr vs)]) := by
  have hclose : ascii "]\x7d" = [93, 125] := rfl
  have htext : bodyText (.lit op :: commaSep pss ++ [.lit (ascii "]\x7d")]) =
      123 :: 34 :: (key ++ 34 :: 58 :: ((91 :: ([44].intercalate (pss.map bodyText) ++ [93])) ++ [125])) := by
    rw [bodyText_append, bodyText_cons, bodyText_commaSep, bodyText_cons, bodyText_nil, partText, partText, hop,
      hclose]
    simp
  rw [htext]
  exact writes_single hkey (writes_arr h)

theorem portsInfo_writes {b : Board} (h : ∀ p : Fin 8, IsPlain (b.flashData.portNameStr p)) :
    Writes value (bodyText (portsInfoBody b)) (portsInfoJson b) := by
  have hkey : IsPlain (ascii "PortsInfo") := isPlain_of_safe (by decide)
  unfold portsInfoBody
  refine listBody_writes hkey rfl ?_
  rw [List.map_map]
  refine forall₂_map fun p _ => ?_
  rw [Function.comp_apply, bodyText_cons, bodyText_nil, List.append_nil]
  exact infoPart_writes (h p) _ _

theorem isPlain_decimal2 (n : ℤ) : IsPlain (decimal2 n) := by
  have hpad : ∀ k, (List.replicate k space).all isSafe = true := fun k =>
    List.all_eq_true.2 fun b hb => by
      rw [List.eq_of_mem_replicate hb]
      decide
  exact isPlain_append (isPlain_of_safe (hpad _)) (isPlain_decimal n)

lemma isPlain_timeText (t : Time) : IsPlain (timeText t) :=
  isPlain_append (isPlain_append (isPlain_decimal2 _) (isPlain_of_safe (by decide))) (isPlain_decimal2 _)

theorem bodyText_event (i : ℕ) (e : PowerEvent) : bodyText (eventBody i e) =
    123 :: ([44].intercalate [pairText (ascii "id") (decimal i),
      pairText (ascii "Active") (decimal e.active.toNat), pairText (ascii "input") (decimal e.port.toInt),
      pairText (ascii "Interval") (decimal e.daysRepeat.toInt), pairText (ascii "Start") (timeText e.startTime),
      pairText (ascii "End") (timeText e.endTime)] ++ [125]) := by
  have hid : ascii "\x7b\"id\":\"" = 123 :: 34 :: (ascii "id" ++ [34, 58, 34]) := rfl
  have hstart : ascii "\"Start\":\"" = 34 :: (ascii "Start" ++ [34, 58, 34]) := rfl
  have hend : ascii "\"End\":\"" = 34 :: (ascii "End" ++ [34, 58, 34]) := rfl
  have hquote : ascii "\"" = [34] := rfl
  have hcolon : ascii "\":\"" = [34, 58, 34] := rfl
  have hcomma : ascii "\"," = [34, 44] := rfl
  have hclose : ascii "\"\x7d" = [34, 125] := rfl
  unfold eventBody eventField timeText
  rw [hid, hstart, hend, hquote, hcolon, hcomma, hclose]
  simp [partText, pairText, List.intercalate_cons_cons]

theorem event_writes (i : ℕ) (e : PowerEvent) : Writes value (bodyText (eventBody i e)) (eventJson i e) := by
  have hid : IsPlain (ascii "id") := isPlain_of_safe (by decide)
  have hactive : IsPlain (ascii "Active") := isPlain_of_safe (by decide)
  have hinput : IsPlain (ascii "input") := isPlain_of_safe (by decide)
  have hinterval : IsPlain (ascii "Interval") := isPlain_of_safe (by decide)
  have hstart : IsPlain (ascii "Start") := isPlain_of_safe (by decide)
  have hend : IsPlain (ascii "End") := isPlain_of_safe (by decide)
  rw [bodyText_event]
  exact writes_obj (.cons (pair_writes hid (isPlain_decimal _)) (.cons (pair_writes hactive (isPlain_decimal _))
    (.cons (pair_writes hinput (isPlain_decimal _)) (.cons (pair_writes hinterval (isPlain_decimal _))
    (.cons (pair_writes hstart (isPlain_timeText _)) (.cons (pair_writes hend (isPlain_timeText _)) .nil))))))

theorem events_writes (b : Board) : Writes value (bodyText (eventsBody b)) (eventsJson b) := by
  have hkey : IsPlain (ascii "Events") := isPlain_of_safe (by decide)
  unfold eventsBody
  refine listBody_writes hkey rfl ?_
  rw [List.map_map]
  exact forall₂_map fun i _ => event_writes i _

theorem number_writes {name : String} (h : IsPlain (ascii name)) (x : Int32) :
    Writes value (bodyText (numberBody name x)) (numberJson name x) := by
  have hopen : ascii "\x7b\"" = [123, 34] := rfl
  have hcolon : ascii "\":" = [34, 58] := rfl
  have hquote : ascii "\"" = [34] := rfl
  have hclose : ascii "\x7d" = [125] := rfl
  have htext : bodyText (numberBody name x) = 123 :: 34 :: (ascii name ++ 34 :: 58 ::
      ((34 :: (decimal x.toInt ++ [34])) ++ [125])) := by
    unfold numberBody
    rw [hopen, hcolon, hquote, hclose]
    simp [partText]
  rw [htext]
  exact writes_single h (writes_str (isPlain_decimal _))

theorem open_writes (n : Int32) : Writes value (bodyText (openBody n)) (openJson n) := by
  have hkey : IsPlain (ascii "Open") := isPlain_of_safe (by decide)
  have hopen : ascii "\x7b\"Open\": " = 123 :: 34 :: (ascii "Open" ++ [34, 58, 32]) := rfl
  have hclose : ascii " \x7d" = [32, 125] := rfl
  have htext : bodyText (openBody n) = 123 :: 34 :: (ascii "Open" ++ 34 :: 58 ::
      ((32 :: (decimal n.toInt ++ [32])) ++ [125])) := by
    unfold openBody
    rw [hopen, hclose]
    simp [partText]
  rw [htext]
  exact writes_single hkey (writes_num n.toInt).value_blank.blank_value

/-! ### The commands -/

/-- What the bodies of the commands stand for. -/
def jsonTable : List (Bytes × (Bytes → Board → Json)) :=
  [(ascii "flipinput", fun _ => portsJson), (ascii "open", fun u _ => openJson (openPort u)),
    (ascii "status", fun _ => portsJson), (ascii "events", fun _ => eventsJson),
    (ascii "event", fun _ => eventsJson), (ascii "portsinfo", fun _ => portsInfoJson),
    (ascii "portinfo", fun _ => portsInfoJson),
    (ascii "sntp", fun _ b => numberJson "sntp" b.flashData.sntp),
    (ascii "wifiport", fun _ b => numberJson "ServerPort" b.flashData.serverPort),
    (ascii "scan", fun _ => portsJson), (ascii "setpin", fun _ => portsJson)]

/-- The commands that answer with JSON, which `doGetTime` means to do as well. -/
def jsonNames : List Bytes := ascii "time" :: jsonTable.map Prod.fst

/-- The body of the response is JSON, and stands for what the device shows. -/
def SendsJson (r : Rest) : Event → Prop
  | .request conn => command conn.url ∈ jsonNames →
      ∃ body, (step r (.request conn)).log.sent =
          r.log.sent ++ [(conn.conn, bodyText startResponseJson ++ body)] ∧ IsJson body ∧
        ∀ shown, jsonTable.lookup (command conn.url) = some shown →
          decode body = some (shown conn.url (step r (.request conn)).board)
  | _ => True

section Bodies

variable {u : Bytes} {b : Board} (hplain : ∀ p : Fin 8, IsPlain (b.flashData.portNameStr p))
include hplain

theorem bodyOf_writes : ∀ entry ∈ jsonTable,
    Writes value (bodyText (bodyOf entry.1 u b)) (entry.2 u b) := by
  have hsntp : IsPlain (ascii "sntp") := isPlain_of_safe (by decide)
  have hport : IsPlain (ascii "ServerPort") := isPlain_of_safe (by decide)
  simp only [jsonTable, List.forall_mem_cons, List.not_mem_nil, false_implies, implies_true, and_true]
  exact ⟨portStatus_writes 200 hplain, open_writes _, portStatus_writes 200 hplain, events_writes b,
    events_writes b, portsInfo_writes hplain, portsInfo_writes hplain, number_writes hsntp _,
    number_writes hport _, portStatus_writes 50 hplain, portStatus_writes 200 hplain⟩

end Bodies

/-! ### The names of the ports -/

/-- An array whose text ends within it and needs no escapes. -/
structure PlainName (a : Vector UInt8 20) : Prop where
  terminated : 0 ∈ a.toList
  plain : IsPlain (cstr a.toList)

def NamesPlain (f : FlashData) : Prop := ∀ p : Fin 8, PlainName (f.ports.get p).portName

theorem NamesPlain.isPlain {f : FlashData} (h : NamesPlain f) (p : Fin 8) : IsPlain (f.portNameStr p) := by
  have hown : f.portNameStr p = cstr (f.ports.get p).portName.toList :=
    cstr_of_prefix (h p).terminated (portName_at f p)
  rw [hown]
  exact (h p).plain

theorem NamesPlain.length_le {f : FlashData} (h : NamesPlain f) (p : Fin 8) :
    (f.portNameStr p).length ≤ 19 := by
  have hown : f.portNameStr p = cstr (f.ports.get p).portName.toList :=
    cstr_of_prefix (h p).terminated (portName_at f p)
  have hlt := length_cstr_lt (h p).terminated
  rw [Vector.length_toList] at hlt
  rw [hown]
  omega

lemma plainName_portName {t : Bytes} (h : IsPlain t) (hlen : t.length < 20) : PlainName (portName t) := by
  have hzero : (0 : Byte) ∉ t := fun hmem => (h.plain 0 hmem).1 (by decide)
  exact ⟨(zero_mem_portName_iff hzero).2 hlen, by rwa [cstr_portName hzero hlen]⟩

/-- The names that the code itself gives. -/
theorem plainName_own : PlainName (portName (ascii "output1")) ∧ PlainName (portName (ascii "output2")) ∧
    ∀ p : Fin 8, PlainName (portName (ascii "Output" ++ decimal (p : ℕ))) := by
  refine ⟨plainName_portName (isPlain_of_safe (by decide)) (by decide),
    plainName_portName (isPlain_of_safe (by decide)) (by decide), fun p => ?_⟩
  have hlen : ∀ p : Fin 8, (ascii "Output" ++ decimal (p : ℕ)).length < 20 := by decide
  exact plainName_portName (isPlain_append (isPlain_of_safe (by decide)) (isPlain_decimal _)) (hlen p)

/-- A name that is given to a port has at most 19 characters. -/
def NameShort : Event → Prop
  | .request conn => command conn.url = ascii "portinfo" → IsPort (atoi (field conn.url 2)) →
      (field conn.url 3).length < 20
  | _ => True

/-- A name that is given to a port needs no escapes, and the clock is not asked for. -/
def PlainRequest : Event → Prop
  | .request conn => command conn.url ≠ ascii "time" ∧
      (command conn.url = ascii "portinfo" → IsPort (atoi (field conn.url 2)) → IsPlain (field conn.url 3))
  | _ => True

theorem namesPlain_adapted {f : FlashData} (h : NamesPlain f) : NamesPlain (adapted f) := by
  unfold adapted
  split
  · exact h
  · exact h

theorem namesPlain_initFlash {f : FlashData} (h : NamesPlain f) : NamesPlain (initFlash f) := by
  obtain ⟨h1, h2, -⟩ := plainName_own
  intro p
  rw [initFlash_ports]
  split
  · exact h1
  · split
    · exact h2
    · exact h p

/-- **Every operation** keeps the names plain. -/
theorem namesPlain_op (conn : Conn) (hshort : NameShort (.request conn))
    (hplain : PlainRequest (.request conn)) : ∀ entry ∈ opTable, command conn.url = entry.1 →
      Loader.Preserves NamesPlain (entry.2 conn) := by
  have hsame : ∀ {g : FlashData → FlashData}, (∀ f, (g f).ports = f.ports) →
      Loader.Preserves NamesPlain (.edit fun f => some (g f)) := by
    rintro g hg f _ hf ⟨⟩ p
    rw [hg]
    exact hf p
  have hgiven : ∀ {g : FlashData → FlashData}, (∀ f, (g f).ports = f.ports) →
      Loader.Preserves NamesPlain (.edit (ifGiven conn.url g)) := by
    intro g hg f f' hf hf' p
    unfold ifGiven at hf'
    split at hf'
    · cases hf'
    · obtain rfl := Option.some.inj hf'
      rw [hg]
      exact hf p
  simp only [opTable, List.forall_mem_cons, List.not_mem_nil, false_implies, implies_true, and_true]
  refine ⟨fun _ => hsame fun _ => rfl, fun _ => trivial, fun _ => hsame fun _ => rfl, ?_, ?_,
    fun _ => hgiven fun _ => rfl, fun _ => hgiven fun _ => rfl⟩
  · rintro hname f _ hf ⟨⟩ p
    have hn : number (ascii "portinfo") conn.url = atoi (field conn.url 2) := number_of_ne (by decide) _
    rw [hn, get_modifyAt]
    split
    · rename_i hp
      have hport : IsPort (atoi (field conn.url 2)) := isPort_iff.2 ⟨p, hp⟩
      exact plainName_portName (hplain.2 hname hport) (hshort hname hport)
    · exact hf p
  · rintro - f _ hf ⟨⟩ p
    have hget : ((initialized f).ports.get p).portName = portName (ascii "Output" ++ decimal (p : ℕ)) := by
      simp [initialized, get_eq_getElem]
    rw [hget]
    exact plainName_own.2.2 p

/-- The names in RAM and in flash are plain. -/
structure BothPlain (b : Board) : Prop where
  ram : NamesPlain b.flashData
  flash : NamesPlain b.flash

section Steps

variable {r : Rest} {e : Event}

theorem step_bothPlain (h : BothPlain r.board) (hshort : NameShort e) (hplain : PlainRequest e) :
    BothPlain (step r e).board := by
  have hcopies : (copies (step r e).board).ram = (step r e).board.flashData ∧
      (copies (step r e).board).stored = (step r e).board.flash := ⟨rfl, rfl⟩
  rw [copies_step] at hcopies
  rcases opsOf_cases e with ⟨hops, -⟩ | ⟨conn, entry, hmem, rfl, hname, hops⟩
  · rw [hops, run_nil] at hcopies
    exact ⟨hcopies.1 ▸ h.ram, hcopies.2 ▸ h.flash⟩
  · rw [hops, run_cons, run_nil] at hcopies
    obtain ⟨hram, hstored⟩ := Loader.step_both (L := loader) (P := NamesPlain) (c := copies r.board)
      (fun _ => namesPlain_adapted) (fun _ => namesPlain_initFlash) h.ram h.flash
      (namesPlain_op conn hshort hplain entry hmem hname)
    exact ⟨hcopies.1 ▸ hram, hcopies.2 ▸ hstored⟩

/-- **A request that leaves plain names** is answered with JSON, if it does not ask for the clock. -/
theorem step_sendsJson (h : BothPlain (step r e).board) (hplain : PlainRequest e) : SendsJson r e := by
  rcases e with conn | ⟨t, tz⟩ | _
  · intro hname
    have hnames : ∀ name ∈ jsonNames, name ∈ commandNames ∧ name ≠ ascii "initialize" := by decide
    have ha : IsAnswered conn.url := hnames _ hname
    obtain ⟨entry, hmem, hentry⟩ := List.mem_map.1 ((List.mem_cons.1 hname).resolve_left hplain.1)
    have hwrites := bodyOf_writes (u := conn.url) (fun p => h.ram.isPlain p) entry hmem
    have hne : ∀ name ∈ jsonNames, name ≠ ascii "setwifi" ∧ name ≠ ascii "getwifi" := by decide
    have hlen := length_bodyOf_le_of_ne (u := conn.url) (fun p => h.ram.length_le p) (hne _ hname)
    rw [hentry] at hwrites
    have hsent := (step_sends ha hlen).1.sent
    rw [bodyText_append] at hsent
    refine ⟨_, hsent, hwrites.isJson, fun shown hshown => ?_⟩
    obtain ⟨l₁, l₂, htable, -⟩ := List.lookup_eq_some_iff.1 hshown
    have hmem' : (command conn.url, shown) ∈ jsonTable := by
      rw [htable]
      simp
    exact (bodyOf_writes (fun p => h.ram.isPlain p) _ hmem').reads.decode
  · trivial
  · trivial

end Steps

/-- **Every body is JSON** in a run of proper requests in which all names are plain and the clock is not
asked for. -/
theorem sendsJson_of_plain {r : Rest} {es : List Event} (hr : SafeInv r) (h : BothPlain r.board)
    (hproper : ∀ e ∈ es, IsProper e) (hshort : ∀ e ∈ es, NameShort e) (hplain : ∀ e ∈ es, PlainRequest e) :
    Throughout step (fun r => Safe r.log) r es ∧ Along step SendsJson r es := by
  refine ⟨(throughout_safe_iff hr es).2 hproper, ?_⟩
  have hok : Along step (fun _ e => NameShort e ∧ PlainRequest e) r es :=
    (along_event_iff step).2 fun e he => ⟨hshort e he, hplain e he⟩
  refine along_of_inv step (I := fun r => BothPlain r.board) (fun _ _ h hok => ?_) (fun _ _ h hok => ?_) h hok
  · exact step_bothPlain h hok.1 hok.2
  · exact step_sendsJson (step_bothPlain h hok.1 hok.2) hok.2

/-! ### The clock -/

theorem decimal02_natCast (n : ℕ) : ∃ d t, decimal02 n = d :: t ∧ isDigit d = true := by
  have hdigits : ∀ b ∈ decimal02 n, isDigit b = true := by
    intro b hb
    rw [decimal02, padLeft, List.mem_append] at hb
    rcases hb with hb | hb
    · rw [List.eq_of_mem_replicate hb]
      decide
    · rw [decimal_natCast] at hb
      exact isDigit_of_mem_decimalNat hb
  have hne : decimal02 n ≠ [] := List.append_ne_nil_of_right_ne_nil _ (decimal_ne_nil _)
  obtain ⟨d, t, ht⟩ := List.exists_cons_of_ne_nil hne
  exact ⟨d, t, ht, hdigits d (by rw [ht]; exact List.mem_cons_self)⟩

theorem clockText_cons (b : Board) : ∃ d t, clockText b = d :: t ∧ isDigit d = true := by
  have hhour : ∃ (hour : UInt8) (t : Bytes), clockText b = decimal02 hour.toNat ++ t := by
    unfold clockText epochToStr
    dsimp only
    simp only [List.append_assoc]
    exact ⟨_, _, rfl⟩
  obtain ⟨hour, t, ht⟩ := hhour
  obtain ⟨d, t', ht', hd⟩ := decimal02_natCast hour.toNat
  exact ⟨d, t' ++ t, by rw [ht, ht', List.cons_append], hd⟩

/-- **The body of `doGetTime`** is no JSON: its object has a clock where a member belongs. -/
theorem not_isJson_time (b : Board) : ¬ IsJson (bodyText (timeBody b)) := by
  obtain ⟨d, t, ht, hd⟩ := clockText_cons b
  have hopen : ascii "\x7b\"time\":\x7b" = 123 :: 34 :: (ascii "time" ++ [34, 58, 123]) := rfl
  have htext : bodyText (timeBody b) = 123 :: 34 :: (ascii "time" ++ 34 :: 58 :: (123 :: d ::
      (t ++ (ascii "\"" ++ ascii "\x7d\x7d")))) := by
    unfold timeBody
    rw [bodyText_cons, bodyText_cons, bodyText_cons, bodyText_nil, partText, partText, partText, hopen, ht]
    simp
  have hkey : IsPlain (ascii "time") := isPlain_of_safe (by decide)
  have hd34 : d ≠ 34 := by
    rintro rfl
    exact absurd hd (by decide)
  have hd125 : d ≠ 125 := by
    rintro rfl
    exact absurd hd (by decide)
  have hnone := value_single_none hkey.plain (fun n => value_unquoted (isBlank_of_isDigit hd) hd34 hd125 n
    (t ++ (ascii "\"" ++ ascii "\x7d\x7d")))
  intro h
  have hdecodes := h.decodes
  rw [htext, decode, hnone] at hdecodes
  cases hdecodes

/-- **The clock is never sent as JSON.** -/
theorem not_sendsJson_of_time {conn : Conn} (hname : command conn.url = ascii "time") (r : Rest) :
    ¬ SendsJson r (.request conn) := by
  intro h
  have hmem : command conn.url ∈ jsonNames := by
    rw [hname]
    exact List.mem_cons_self
  have ha : IsAnswered conn.url := by
    rw [IsAnswered, hname]
    decide
  obtain ⟨body, hsent, hjson, -⟩ := h hmem
  have hbody : bodyOf (command conn.url) conn.url (step r (.request conn)).board =
      timeBody (step r (.request conn)).board := by
    rw [hname]
    rfl
  have hlen : (bodyText (bodyOf (command conn.url) conn.url (step r (.request conn)).board)).length ≤ 1403 := by
    rw [hbody]
    exact (length_timeBody_le _).trans (by decide)
  -- the body that was sent is that of `doGetTime`
  rw [(step_sends ha hlen).1.sent, hbody, bodyText_append] at hsent
  have hentry := List.head_eq_of_cons_eq (List.append_cancel_left hsent)
  have htext := List.append_cancel_left (Prod.mk.inj hentry).2
  rw [← htext] at hjson
  exact not_isJson_time _ hjson

theorem bothPlain_start : BothPlain (Rest.start .zero).board := by
  have hname : PlainName (.replicate 20 0) := ⟨by decide, isPlain_of_safe (by decide)⟩
  have hzero : NamesPlain .zero := fun p => by
    have hget : ∀ p : Fin 8, (FlashData.zero.ports.get p).portName = .replicate 20 0 := by decide
    rw [hget]
    exact hname
  exact ⟨hzero, hzero⟩

/-- A port with a plain name, and the list of the ports. -/
theorem sendsJson_lamp :
    Throughout step (fun r => Safe r.log) (.start .zero)
      [.request (.get "/portinfo/1/Lamp"), .request (.get "/portsinfo")] ∧
    Along step SendsJson (.start .zero)
      [.request (.get "/portinfo/1/Lamp"), .request (.get "/portsinfo")] := by
  refine sendsJson_of_plain ⟨safe_empty, by rintro ⟨⟩⟩ bothPlain_start (by decide) ?_ ?_
  · simp only [List.forall_mem_cons, List.not_mem_nil, false_implies, implies_true, and_true]
    exact ⟨fun _ _ => by decide, fun _ _ => by decide⟩
  · simp only [List.forall_mem_cons, List.not_mem_nil, false_implies, implies_true, and_true]
    exact ⟨⟨by decide, fun _ _ => isPlain_of_safe (by decide)⟩, by decide,
      fun hname => absurd hname (by decide)⟩

/-- **The clock of a device that was just started** is not sent as JSON. -/
theorem not_sendsJson_time : ¬ Along step SendsJson (.start .zero) [.request (.get "/time")] := by
  rintro ⟨h, -⟩
  have hname : command (Conn.get "/time").url = ascii "time" := by decide
  exact not_sendsJson_of_time hname _ h

end Esp8266Rest.Reply
