import Esp8266Rest.Lib.Decimal
import Esp8266Rest.Config.Record

/-!
# Setting an event

`eventUrl` is the URL that sets an event.  Its fields are its numbers (`eventUrl_fields`), and each
number is read back from its own field and no other; `event_sets` puts this together with what a request
does to the record.
-/

namespace Esp8266Rest.Config

open Esp8266Rest.Lib.CStr Esp8266Rest.Lib.Runs Esp8266Rest.Lib.Stored Esp8266Rest.Model
  Esp8266Rest.Url Esp8266Rest.Outputs

/-- The numbers of an event request. -/
structure Setting where
  active : ℤ
  port : ℤ
  startHour : ℤ
  startMin : ℤ
  endHour : ℤ
  endMin : ℤ

/-- A number whose text fits the buffers that it is copied to. -/
def IsShort (n : ℤ) : Prop := (decimal n).length ≤ 9

instance (n : ℤ) : Decidable (IsShort n) := by unfold IsShort; infer_instance

structure Setting.Ok (v : Setting) : Prop where
  active : v.active = 0 ∨ v.active = 1
  port : IsShort v.port
  startHour : IsShort v.startHour
  startMin : IsShort v.startMin
  endHour : IsShort v.endHour
  endMin : IsShort v.endMin

def timeText (h m : ℤ) : Bytes := decimal h ++ ascii ":" ++ decimal m

/-- `/event/i/active/port/h1:m1/h2:m2`, and `/repeat` if it is given. -/
def eventUrl (i : ℕ) (v : Setting) (days : Option Bytes) : Bytes :=
  ascii "/event/" ++ decimal i ++ ascii "/" ++ decimal v.active ++ ascii "/" ++ decimal v.port ++
    ascii "/" ++ timeText v.startHour v.startMin ++ ascii "/" ++ timeText v.endHour v.endMin ++
    match days with
    | some t => ascii "/" ++ t
    | none => []

/-- A `/repeat` field that fits its buffer. -/
def IsRepeat (t : Bytes) : Prop := slash ∉ t ∧ (0 : Byte) ∉ t ∧ t.length ≤ 119

/-! ### The fields -/

/-- The fields of an event URL, with `rest` behind the port. -/
def eventFields (i : ℕ) (active port : ℤ) (rest : List Bytes) : List Bytes :=
  [] :: ascii "event" :: decimal i :: decimal active :: decimal port :: rest

lemma notMem_decimal_slash (n : ℤ) : slash ∉ decimal n ∧ (0 : Byte) ∉ decimal n :=
  ⟨notMem_decimal (by decide) (by decide) n, notMem_decimal (by decide) (by decide) n⟩

theorem notMem_timeText (h m : ℤ) : slash ∉ timeText h m ∧ (0 : Byte) ∉ timeText h m := by
  have hcolon : slash ∉ ascii ":" ∧ (0 : Byte) ∉ ascii ":" := by decide
  simp only [timeText, List.mem_append, not_or]
  exact ⟨⟨⟨(notMem_decimal_slash h).1, hcolon.1⟩, (notMem_decimal_slash m).1⟩,
    ⟨(notMem_decimal_slash h).2, hcolon.2⟩, (notMem_decimal_slash m).2⟩

section Fields

variable {i : ℕ} {active port : ℤ} {rest : List Bytes}
  (hrest : ∀ t ∈ rest, slash ∉ t ∧ (0 : Byte) ∉ t)
include hrest

theorem pieces_eventFields : pieces ([slash].intercalate (eventFields i active port rest)) slash =
    eventFields i active port rest := by
  refine pieces_intercalate (by decide) (List.cons_ne_nil _ _) ?_
  simp only [eventFields, List.forall_mem_cons]
  exact ⟨by decide, by decide, notMem_decimal_slash _, notMem_decimal_slash _, notMem_decimal_slash _,
    hrest⟩

lemma field_eventFields (k : ℕ) : field ([slash].intercalate (eventFields i active port rest)) k =
    (eventFields i active port rest).getD k [] := by
  rw [field, piece, pieces_eventFields hrest]

end Fields

/-- The fields behind the port. -/
def timeFields (v : Setting) (days : Option Bytes) : List Bytes :=
  timeText v.startHour v.startMin :: timeText v.endHour v.endMin :: days.toList

theorem eventUrl_fields (i : ℕ) (v : Setting) (days : Option Bytes) : eventUrl i v days =
    [slash].intercalate (eventFields i v.active v.port (timeFields v days)) := by
  have hslash : ascii "/" = [slash] := rfl
  have hevent : ascii "/event/" = slash :: (ascii "event" ++ [slash]) := rfl
  unfold eventUrl eventFields timeFields
  cases days with
  | none => simp [hslash, hevent, List.intercalate_cons_cons]
  | some t => simp [hslash, hevent, List.intercalate_cons_cons]

theorem timeFields_clean {v : Setting} {days : Option Bytes} (hdays : ∀ t ∈ days, IsRepeat t) :
    ∀ t ∈ timeFields v days, slash ∉ t ∧ (0 : Byte) ∉ t := by
  simp only [timeFields, List.forall_mem_cons]
  refine ⟨notMem_timeText _ _, notMem_timeText _ _, fun t ht => ?_⟩
  have := hdays t (Option.mem_toList.1 ht)
  exact ⟨this.1, this.2.1⟩

theorem pieces_timeText (h m : ℤ) : pieces (timeText h m) colon = [decimal h, decimal m] := by
  have hjoin : timeText h m = [colon].intercalate [decimal h, decimal m] := by
    have hcolon : ascii ":" = [colon] := rfl
    simp [timeText, hcolon, List.intercalate_cons_cons]
  rw [hjoin]
  refine pieces_intercalate (by decide) (List.cons_ne_nil _ _) ?_
  have hclean : ∀ n : ℤ, colon ∉ decimal n ∧ (0 : Byte) ∉ decimal n := fun n =>
    ⟨notMem_decimal (by decide) (by decide) n, notMem_decimal (by decide) (by decide) n⟩
  simp only [List.forall_mem_cons, List.not_mem_nil, false_implies, implies_true, and_true]
  exact ⟨hclean h, hclean m⟩

lemma IsShort.atoi {n : ℤ} (h : IsShort n) : (atoi (decimal n)).toInt = n := by
  have hlt := natAbs_lt_of_length (by decide) h
  exact atoi_decimal (by omega) (by omega)

lemma isShort_slot : ∀ i : Fin 10, IsShort (i : ℕ) := by decide

/-! ### The request -/

/-- The time that a text stands for: its two parts, `0` for one that is missing. -/
def timeOf (t : Bytes) : Time := ⟨atoi (piece t colon 0), atoi (piece t colon 1)⟩

/-- What the fields of an event request make of an event. -/
def withFields (active port : ℤ) (rest : List Bytes) (e : PowerEvent) : PowerEvent :=
  { e with
    active := (atoi (decimal active)).toUInt32.toUInt8
    port := atoi (decimal port)
    startTime := timeOf (rest.getD 0 [])
    endTime := timeOf (rest.getD 1 []) }

section Request

variable {conn : Conn} {i : Fin 10} {active port : ℤ} {rest : List Bytes}
  (hrest : ∀ t ∈ rest, slash ∉ t ∧ (0 : Byte) ∉ t)
  (hurl : conn.url = [slash].intercalate (eventFields i active port rest))
include hrest hurl

lemma command_event : command conn.url = ascii "event" := by
  rw [command, hurl, field_eventFields hrest]
  rfl

theorem slot_event : slot? 10 (number (ascii "event") conn.url) = some i := by
  have hget : (eventFields i active port rest).getD 2 [] = decimal (i : ℕ) := rfl
  rw [number_of_ne (by decide), hurl, field_eventFields hrest, slot?_eq_some_iff, hget]
  exact (isShort_slot i).atoi

theorem setEvent_event (e : PowerEvent) : setEvent conn.url e = withFields active port rest e := by
  have hfield : ∀ k, field conn.url k = (eventFields i active port rest).getD k [] := by
    intro k
    rw [hurl, field_eventFields hrest]
  unfold setEvent withFields timeOf timePart
  rw [hfield 3, hfield 4, hfield 5, hfield 6]
  rfl

/-- **An event request** replaces one event of the record and writes it to flash. -/
theorem request_event (r : Rest) : copies (step r (.request conn)).board =
    let f := { r.board.flashData with
      powerEvents := setAt r.board.flashData.powerEvents i
        (withFields active port rest (r.board.flashData.powerEvents.get i)) }
    ⟨f, f⟩ := by
  have hop : opsOf (.request conn) = [.edit fun f =>
      some { f with powerEvents := modifyAt f.powerEvents (number (ascii "event") conn.url)
                                     (setEvent conn.url) }] := by
    rw [opsOf, command_event hrest hurl]
    rfl
  rw [copies_step, hop, run_cons, run_nil]
  simp only [Loader.step, modifyAt_of_slot (slot_event hrest hurl), setEvent_event hrest hurl]
  rfl

end Request

/-! ### Storing -/

/-- The event holds the numbers, and the days of `e`. -/
structure Holds (v : Setting) (e e' : PowerEvent) : Prop where
  active : (e'.active.toNat : ℤ) = v.active
  port : e'.port.toInt = v.port
  startHour : e'.startTime.hour.toInt = v.startHour
  startMin : e'.startTime.min.toInt = v.startMin
  endHour : e'.endTime.hour.toInt = v.endHour
  endMin : e'.endTime.min.toInt = v.endMin
  daysRepeat : e'.daysRepeat = e.daysRepeat

theorem timeOf_timeText {h m : ℤ} (hh : IsShort h) (hm : IsShort m) :
    (timeOf (timeText h m)).hour.toInt = h ∧ (timeOf (timeText h m)).min.toInt = m := by
  unfold timeOf piece
  rw [pieces_timeText]
  exact ⟨hh.atoi, hm.atoi⟩

theorem active_toNat {a : ℤ} (h : a = 0 ∨ a = 1) :
    ((atoi (decimal a)).toUInt32.toUInt8.toNat : ℤ) = a := by
  rcases h with rfl | rfl
  · decide
  · decide

theorem withFields_holds {v : Setting} (hv : v.Ok) (days : Option Bytes) (e : PowerEvent) :
    Holds v e (withFields v.active v.port (timeFields v days) e) where
  active := active_toNat hv.active
  port := hv.port.atoi
  startHour := (timeOf_timeText hv.startHour hv.startMin).1
  startMin := (timeOf_timeText hv.startHour hv.startMin).2
  endHour := (timeOf_timeText hv.endHour hv.endMin).1
  endMin := (timeOf_timeText hv.endHour hv.endMin).2
  daysRepeat := rfl

/-! ### The room for the fields -/

theorem length_timeText {h m : ℤ} (hh : IsShort h) (hm : IsShort m) : (timeText h m).length ≤ 19 := by
  unfold IsShort at hh hm
  have hcolon : (ascii ":").length = 1 := rfl
  rw [timeText, List.length_append, List.length_append, hcolon]
  omega

theorem length_copied_timeText {h m : ℤ} (hh : IsShort h) (hm : IsShort m) (k : ℕ) :
    (copied (timeText h m) colon k).length ≤ 9 := by
  refine length_copied_le ?_ k
  rw [pieces_timeText]
  simp only [List.forall_mem_cons, List.not_mem_nil, false_implies, implies_true, and_true]
  exact ⟨hh, hm⟩

section Room

variable {conn : Conn} {i : Fin 10} {v : Setting} (hv : v.Ok) {days : Option Bytes}
  (hdays : ∀ t ∈ days, IsRepeat t) (hurl : conn.url = eventUrl i v days)
include hdays hurl

lemma pieces_eventUrl : pieces conn.url slash = eventFields i v.active v.port (timeFields v days) := by
  rw [hurl, eventUrl_fields, pieces_eventFields (timeFields_clean hdays)]

include hv

theorem length_of_mem_pieces : ∀ t ∈ pieces conn.url slash, t.length ≤ 119 := by
  have hactive : (decimal v.active).length ≤ 1 := by
    rcases hv.active with ha | ha <;> rw [ha] <;> decide
  have hi := isShort_slot i
  have hport := hv.port
  have hstart := length_timeText hv.startHour hv.startMin
  have hend := length_timeText hv.endHour hv.endMin
  unfold IsShort at hi hport
  rw [pieces_eventUrl hdays hurl]
  simp only [eventFields, timeFields, List.forall_mem_cons]
  refine ⟨by decide, by decide, by omega, by omega, by omega, by omega, by omega, fun t ht => ?_⟩
  exact (hdays t (Option.mem_toList.1 ht)).2.2

theorem cuts_fit : ∀ c ∈ ((Cut.field 1, 30) :: cuts (ascii "event")).map (Cut.toCopy conn.url), c.Fits := by
  have hpieces := pieces_eventUrl hdays hurl
  have hfield : ∀ k, field conn.url k = (eventFields i v.active v.port (timeFields v days)).getD k [] := by
    intro k
    rw [field, piece, hpieces]
  have h30 : (Cut.toCopy conn.url (.field 1, 30)).Fits := by
    have hcommand : copied conn.url slash 1 = ascii "event" := by
      rw [copied_eq_piece (by rw [hpieces]; simp [eventFields])]
      exact hfield 1
    change (copied conn.url slash 1).length + 1 ≤ 30
    rw [hcommand]
    decide
  have h120 : ∀ k, (Cut.toCopy conn.url (.field k, 120)).Fits := fun k =>
    Nat.succ_le_succ (length_copied_le (length_of_mem_pieces hv hdays hurl) k)
  have h10 : ∀ {j : ℕ} {h m : ℤ}, field conn.url j = timeText h m → IsShort h → IsShort m →
      ∀ k, (Cut.toCopy conn.url (.timePart j k, 10)).Fits := by
    intro j h m hj hh hm k
    change (copied (field conn.url j) colon k).length + 1 ≤ 10
    rw [hj]
    exact Nat.succ_le_succ (length_copied_timeText hh hm k)
  have hstart := h10 (hfield 5) hv.startHour hv.startMin
  have hend := h10 (hfield 6) hv.endHour hv.endMin
  have hcuts : cuts (ascii "event") = [(.field 2, 120), (.field 3, 120), (.field 4, 120),
    (.field 5, 120), (.timePart 5 0, 10), (.timePart 5 1, 10),
    (.field 6, 120), (.timePart 6 0, 10), (.timePart 6 1, 10), (.field 7, 120)] := rfl
  rw [hcuts]
  simp only [List.map_cons, List.map_nil, List.forall_mem_cons, List.not_mem_nil, false_implies,
    implies_true, and_true]
  exact ⟨h30, h120 2, h120 3, h120 4, h120 5, hstart 0, hstart 1, h120 6, hend 0, hend 1, h120 7⟩

end Room

/-- From `r` to `r'` event `i` got these numbers, in RAM and in flash, and nothing else changed; every
field that was cut out of the URL fitted its buffer. -/
structure SetsEvent (i : Fin 10) (v : Setting) (r r' : Rest) : Prop where
  event : Holds v (r.board.flashData.powerEvents.get i) (r'.board.flashData.powerEvents.get i)
  others : ∀ j, j ≠ i → r'.board.flashData.powerEvents.get j = r.board.flashData.powerEvents.get j
  record : r'.board.flashData =
    { r.board.flashData with powerEvents := r'.board.flashData.powerEvents }
  flash : r'.board.flash = r'.board.flashData
  outputs : outputs r'.board = outputs r.board
  pinSets : r'.log.pinSets = r.log.pinSets
  fits : ∃ cs, r'.log.copies = r.log.copies ++ cs ∧ ∀ c ∈ cs, c.Fits

/-- **Setting an event stores what the URL says.** -/
theorem event_sets (r : Rest) {conn : Conn} {i : Fin 10} {v : Setting} (hv : v.Ok)
    {days : Option Bytes} (hdays : ∀ t ∈ days, IsRepeat t) (hurl : conn.url = eventUrl i v days) :
    SetsEvent i v r (step r (.request conn)) := by
  have hclean := timeFields_clean hdays (v := v)
  have hfields := hurl
  rw [eventUrl_fields] at hfields
  have hcommand := command_event hclean hfields
  have hquiet : command conn.url ∉ driving := by
    rw [hcommand]
    decide
  obtain ⟨hout, hpins⟩ := request_quiet { r with sendBuff := [] } hquiet
  obtain ⟨hram, hflash⟩ := copies_eq_iff.1 (request_event hclean hfields r)
  have heffect := (request_effect conn { r with sendBuff := [] }).copies
  rw [requestCopies, hcommand] at heffect
  refine ⟨?_, fun j hj => ?_, by rw [hram], hflash.trans hram.symm, hout, hpins,
    ⟨_, heffect, cuts_fit hv hdays hurl⟩⟩
  · rw [hram]
    dsimp only
    rw [get_setAt_self]
    exact withFields_holds hv days _
  · rw [hram]
    dsimp only
    rw [get_setAt, if_neg hj]

/-- Numbers of both signs, and a repeat. -/
theorem event_sets_signed : SetsEvent ⟨9, by decide⟩ ⟨1, -3, 7, 30, 123456789, -12345678⟩ (.start .zero)
    (step (.start .zero) (.request (.get "/event/9/1/-3/7:30/123456789:-12345678/every day"))) :=
  event_sets (.start .zero) ⟨.inr rfl, by decide, by decide, by decide, by decide, by decide⟩
    (fun t ht => Option.mem_some.1 ht ▸ ⟨by decide, by decide, by decide⟩ :
      ∀ t ∈ some (ascii "every day"), IsRepeat t) (by decide)

end Esp8266Rest.Config
