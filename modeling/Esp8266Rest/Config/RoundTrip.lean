import Esp8266Rest.Config.Event
import Esp8266Rest.Config.Missing
import Esp8266Rest.Http.Blocks

/-!
# Sending a listed event back

`doGetEvents` prints hours and minutes by `%2d`: one that has one digit gets a space in front of it, and a
space ends the URL of a request line.  `requestPath_requestLine` says what is left of the request, and
`roundTrip_iff` when that sets the event to what it was.
-/

namespace Esp8266Rest.Config

open Esp8266Rest.Lib.CStr Esp8266Rest.Model Esp8266Rest.Url Esp8266Rest.Outputs Esp8266Rest.Http

/-- A time as `doGetEvents` prints it. -/
def listedTime (t : Time) : Bytes := decimal2 t.hour.toInt ++ ascii ":" ++ decimal2 t.min.toInt

theorem eventBody_listed (i : ℕ) (e : PowerEvent) : eventBody i e =
    [.fmt 200 (ascii "\x7b\"id\":\"" ++ decimal i ++ ascii "\","),
      eventField "Active" e.active.toNat, eventField "input" e.port.toInt,
      eventField "Interval" e.daysRepeat.toInt,
      .fmt 200 (ascii "\"Start\":\"" ++ listedTime e.startTime ++ ascii "\","),
      .fmt 200 (ascii "\"End\":\"" ++ listedTime e.endTime ++ ascii "\"\x7d")] := by
  simp [eventBody, listedTime, List.append_assoc]

/-- The request line that sends the entry back. -/
def requestLine (i : ℕ) (e : PowerEvent) : Bytes :=
  ascii "GET /event/" ++ decimal i ++ ascii "/" ++ decimal e.active.toNat ++ ascii "/" ++
    decimal e.port.toInt ++ ascii "/" ++ listedTime e.startTime ++ ascii "/" ++ listedTime e.endTime ++
    ascii "/0 HTTP/1.0"

/-- An event that the list is meant for. -/
structure Listed (e : PowerEvent) : Prop where
  active : e.active = 0 ∨ e.active = 1
  port : 0 ≤ e.port.toInt ∧ e.port.toInt < 8
  startTime : IsTime e.startTime
  endTime : IsTime e.endTime

/-! ### Numbers of two characters -/

section Decimal2

variable {n : ℤ} (h0 : 0 ≤ n)
include h0

theorem decimal2_of_lt (h : n < 10) : decimal2 n = space :: decimal n := by
  have hlen : (decimal n).length = 1 := by
    have hle := (length_decimalNat_le_iff (n := n.toNat) (k := 1) (by decide)).2 (by omega)
    have hpos := List.length_pos_iff.2 (decimal_ne_nil n)
    rw [decimal_of_nonneg h0] at hpos ⊢
    omega
  rw [decimal2, padLeft, hlen]
  rfl

theorem decimal2_of_le (h : 10 ≤ n) : decimal2 n = decimal n := by
  have hlen : 2 ≤ (decimal n).length := by
    by_contra hlt
    have hle : (decimalNat n.toNat).length ≤ 1 := by
      rw [← decimal_of_nonneg h0]
      omega
    have := (length_decimalNat_le_iff (by decide)).1 hle
    omega
  rw [decimal2, padLeft, Nat.sub_eq_zero_of_le hlen]
  rfl

end Decimal2

/-! ### What reaches the handler -/

/-- The fields behind the port that are left of the four numbers of two times. -/
def sentFields (h₁ m₁ h₂ m₂ : ℤ) : List Bytes :=
  if h₁ < 10 then [[]]
  else if m₁ < 10 then [decimal h₁ ++ ascii ":"]
  else if h₂ < 10 then [timeText h₁ m₁, []]
  else if m₂ < 10 then [timeText h₁ m₁, decimal h₂ ++ ascii ":"]
  else [timeText h₁ m₁, timeText h₂ m₂, decimal 0]

/-- A byte that the fields of a URL do not have. -/
def IsOutside (b : Byte) : Prop := isDigit b = false ∧ b ≠ 45 ∧ b ≠ colon

theorem notMem_timeText_of {b : Byte} (hb : IsOutside b) (h m : ℤ) : b ∉ timeText h m := by
  obtain ⟨hd, hs, hc⟩ := hb
  have hcolon : ascii ":" = [colon] := rfl
  simp only [timeText, hcolon, List.mem_append, List.mem_singleton, not_or]
  exact ⟨⟨notMem_decimal hd hs h, hc⟩, notMem_decimal hd hs m⟩

theorem notMem_sentFields {b : Byte} (hb : IsOutside b) (h₁ m₁ h₂ m₂ : ℤ) :
    ∀ t ∈ sentFields h₁ m₁ h₂ m₂, b ∉ t := by
  have hhalf : ∀ h : ℤ, b ∉ decimal h ++ ascii ":" := by
    intro h
    have hcolon : ascii ":" = [colon] := rfl
    rw [hcolon, List.mem_append, List.mem_singleton, not_or]
    exact ⟨notMem_decimal hb.1 hb.2.1 h, hb.2.2⟩
  have htime := notMem_timeText_of hb
  unfold sentFields
  split
  · simp
  · split
    · simpa using hhalf h₁
    · split
      · simpa using htime h₁ m₁
      · split
        · simpa using ⟨htime h₁ m₁, by simpa using hhalf h₂⟩
        · simpa using ⟨htime h₁ m₁, htime h₂ m₂, notMem_decimal hb.1 hb.2.1 0⟩

theorem sentFields_clean (h₁ m₁ h₂ m₂ : ℤ) :
    ∀ t ∈ sentFields h₁ m₁ h₂ m₂, slash ∉ t ∧ (0 : Byte) ∉ t := fun t ht =>
  ⟨notMem_sentFields ⟨by decide, by decide, by decide⟩ _ _ _ _ t ht,
    notMem_sentFields ⟨by decide, by decide, by decide⟩ _ _ _ _ t ht⟩

theorem sentFields_ne_nil (h₁ m₁ h₂ m₂ : ℤ) : sentFields h₁ m₁ h₂ m₂ ≠ [] := by
  unfold sentFields
  repeat' split
  all_goals exact List.cons_ne_nil _ _

theorem intercalate_eventFields {i : ℕ} {active port : ℤ} {rest : List Bytes} (h : rest ≠ []) :
    [slash].intercalate (eventFields i active port rest) = ascii "/event/" ++ decimal i ++ ascii "/" ++
      decimal active ++ ascii "/" ++ decimal port ++ ascii "/" ++ [slash].intercalate rest := by
  have hslash : ascii "/" = [slash] := rfl
  have hevent : ascii "/event/" = slash :: (ascii "event" ++ [slash]) := rfl
  unfold eventFields
  rw [List.intercalate_cons_cons, List.intercalate_cons_cons, List.intercalate_cons_cons,
    List.intercalate_cons_cons, List.intercalate_cons_of_ne_nil h, hslash, hevent]
  simp

theorem listed_split {s f : Time} (hs : IsTime s) (hf : IsTime f) : ∃ version,
    listedTime s ++ ascii "/" ++ listedTime f ++ ascii "/0 HTTP/1.0" = [slash].intercalate
      (sentFields s.hour.toInt s.min.toInt f.hour.toInt f.min.toInt) ++ space :: version := by
  have hslash : ascii "/" = [slash] := rfl
  have hend : ascii "/0 HTTP/1.0" = slash :: (decimal 0 ++ space :: ascii "HTTP/1.0") := by decide
  have hh₁ := hs.hour.1
  have hm₁ := hs.min.1
  have hh₂ := hf.hour.1
  have hm₂ := hf.min.1
  unfold sentFields listedTime
  by_cases c₁ : s.hour.toInt < 10
  · rw [if_pos c₁, decimal2_of_lt hh₁ c₁]
    exact ⟨_, rfl⟩
  rw [if_neg c₁, decimal2_of_le hh₁ (by omega)]
  by_cases c₂ : s.min.toInt < 10
  · rw [if_pos c₂, decimal2_of_lt hm₁ c₂]
    exact ⟨_, by simp; rfl⟩
  rw [if_neg c₂, decimal2_of_le hm₁ (by omega)]
  by_cases c₃ : f.hour.toInt < 10
  · rw [if_pos c₃, decimal2_of_lt hh₂ c₃]
    exact ⟨_, by simp [hslash, timeText]; rfl⟩
  rw [if_neg c₃, decimal2_of_le hh₂ (by omega)]
  by_cases c₄ : f.min.toInt < 10
  · rw [if_pos c₄, decimal2_of_lt hm₂ c₄]
    exact ⟨_, by simp [hslash, timeText]; rfl⟩
  rw [if_neg c₄, decimal2_of_le hm₂ (by omega)]
  exact ⟨ascii "HTTP/1.0", by simp [hslash, hend, timeText]⟩

theorem requestPath_requestLine (i : ℕ) {e : PowerEvent} (he : Listed e) :
    requestPath (requestLine i e) = some ([slash].intercalate (eventFields i e.active.toNat e.port.toInt
      (sentFields e.startTime.hour.toInt e.startTime.min.toInt e.endTime.hour.toInt
        e.endTime.min.toInt))) := by
  obtain ⟨version, hsplit⟩ := listed_split he.startTime he.endTime
  set rest := sentFields e.startTime.hour.toInt e.startTime.min.toInt e.endTime.hour.toInt
    e.endTime.min.toInt
  set url := [slash].intercalate (eventFields i e.active.toNat e.port.toInt rest) with hurl
  have hline : requestLine i e = ascii "GET " ++ url ++ space :: version := by
    have hget : ascii "GET /event/" = ascii "GET " ++ ascii "/event/" := by decide
    rw [hurl, intercalate_eventFields (sentFields_ne_nil _ _ _ _), requestLine, hget]
    simp only [List.append_assoc] at hsplit ⊢
    rw [hsplit]
  have hout : ∀ {b : Byte}, IsOutside b → b ≠ slash → b ∉ ascii "event" → b ∉ url := by
    intro b hb hslash hevent hmem
    have hfields : ∀ t ∈ eventFields i e.active.toNat e.port.toInt rest, b ∉ t := by
      simp only [eventFields, List.forall_mem_cons]
      exact ⟨List.not_mem_nil, hevent, notMem_decimal hb.1 hb.2.1 _, notMem_decimal hb.1 hb.2.1 _,
        notMem_decimal hb.1 hb.2.1 _, notMem_sentFields hb _ _ _ _⟩
    rcases mem_intercalate hmem with h | ⟨t, ht, hmem⟩
    · exact hslash h
    · exact hfields t ht hmem
  have hspace : space ∉ url := hout ⟨by decide, by decide, by decide⟩ (by decide) (by decide)
  have hquestion : question ∉ url := hout ⟨by decide, by decide, by decide⟩ (by decide) (by decide)
  rw [hline, requestPath_line (by decide) hspace, List.takeWhile_eq_self_iff.2]
  exact fun b hb => by simpa using fun heq : b = question => hquestion (heq ▸ hb)

/-! ### What the handler makes of it -/

lemma atoi_toInt (x : Int32) : atoi (decimal x.toInt) = x :=
  Int32.toInt_inj.1 (atoi_decimal x.le_toInt x.toInt_lt)

theorem timeOf_listed (t : Time) : timeOf (timeText t.hour.toInt t.min.toInt) = t := by
  unfold timeOf piece
  rw [pieces_timeText]
  exact congrArg₂ Time.mk (atoi_toInt t.hour) (atoi_toInt t.min)

lemma timeOf_nil : timeOf [] = ⟨0, 0⟩ := by decide

theorem timeOf_hour (x : Int32) : timeOf (decimal x.toInt ++ ascii ":") = ⟨x, 0⟩ := by
  have hjoin : decimal x.toInt ++ ascii ":" = [colon].intercalate [decimal x.toInt, []] := by
    simp [List.intercalate_cons_cons]
    rfl
  have hclean : colon ∉ decimal x.toInt ∧ (0 : Byte) ∉ decimal x.toInt :=
    ⟨notMem_decimal (by decide) (by decide) _, notMem_decimal (by decide) (by decide) _⟩
  unfold timeOf piece
  rw [hjoin, pieces_intercalate (by decide) (List.cons_ne_nil _ _) (by simpa using hclean)]
  exact congrArg₂ Time.mk (atoi_toInt x) rfl

/-- The numbers of the two times of an event, as they are listed. -/
def listedNumbers (s f : Time) : List ℤ := [s.hour.toInt, s.min.toInt, f.hour.toInt, f.min.toInt]

/-- From the first number of one digit on, all are zero. -/
def ZerosFromShort (ns : List ℤ) : Prop := ∀ n ∈ ns.dropWhile (10 ≤ ·), n = 0

instance (ns : List ℤ) : Decidable (ZerosFromShort ns) := by unfold ZerosFromShort; infer_instance

theorem zerosFromShort_cons_of_lt {n : ℤ} (ns : List ℤ) (h : n < 10) :
    ZerosFromShort (n :: ns) ↔ n = 0 ∧ ∀ m ∈ ns, m = 0 := by
  unfold ZerosFromShort
  rw [List.dropWhile_cons_of_neg (by simpa using h), List.forall_mem_cons]

theorem zerosFromShort_cons_of_le {n : ℤ} (ns : List ℤ) (h : 10 ≤ n) :
    ZerosFromShort (n :: ns) ↔ ZerosFromShort ns := by
  unfold ZerosFromShort
  rw [List.dropWhile_cons_of_pos (by simpa using h)]

lemma time_eq_iff {t : Time} {h m : Int32} : (⟨h, m⟩ : Time) = t ↔ h = t.hour ∧ m = t.min := by
  obtain ⟨h', m'⟩ := t
  exact Time.mk.injEq .. ▸ Iff.rfl

lemma zero_eq_iff {x : Int32} : (0 : Int32) = x ↔ x.toInt = 0 := by
  rw [eq_comm, ← Int32.toInt_inj]
  rfl

/-- **What is read of the fields that are left** is the two times exactly if what got lost is zero. -/
theorem timeOf_sentFields (s f : Time) :
    let rest := sentFields s.hour.toInt s.min.toInt f.hour.toInt f.min.toInt
    (timeOf (rest.getD 0 []) = s ∧ timeOf (rest.getD 1 []) = f) ↔ ZerosFromShort (listedNumbers s f) := by
  have hzero : ∀ t : Time, timeOf [] = t ↔ t.hour.toInt = 0 ∧ t.min.toInt = 0 := by
    intro t
    rw [timeOf_nil, time_eq_iff, zero_eq_iff, zero_eq_iff]
  have hhour : ∀ t : Time, timeOf (decimal t.hour.toInt ++ ascii ":") = t ↔ t.min.toInt = 0 := by
    intro t
    rw [timeOf_hour, time_eq_iff, zero_eq_iff]
    exact and_iff_right rfl
  intro rest
  unfold listedNumbers
  by_cases c₁ : s.hour.toInt < 10
  · have hrest : rest = [[]] := if_pos c₁
    rw [zerosFromShort_cons_of_lt _ c₁, hrest]
    simp [hzero, and_assoc]
  rw [zerosFromShort_cons_of_le _ (by omega)]
  by_cases c₂ : s.min.toInt < 10
  · have hrest : rest = [decimal s.hour.toInt ++ ascii ":"] := by
      rw [show rest = _ from if_neg c₁, if_pos c₂]
    rw [zerosFromShort_cons_of_lt _ c₂, hrest]
    simp [hzero, hhour]
  rw [zerosFromShort_cons_of_le _ (by omega)]
  by_cases c₃ : f.hour.toInt < 10
  · have hrest : rest = [timeText s.hour.toInt s.min.toInt, []] := by
      rw [show rest = _ from if_neg c₁, if_neg c₂, if_pos c₃]
    rw [zerosFromShort_cons_of_lt _ c₃, hrest]
    simp [hzero, timeOf_listed]
  rw [zerosFromShort_cons_of_le _ (by omega)]
  by_cases c₄ : f.min.toInt < 10
  · have hrest : rest = [timeText s.hour.toInt s.min.toInt, decimal f.hour.toInt ++ ascii ":"] := by
      rw [show rest = _ from if_neg c₁, if_neg c₂, if_neg c₃, if_pos c₄]
    rw [zerosFromShort_cons_of_lt _ c₄, hrest]
    simp [hhour, timeOf_listed]
  · have hrest : rest = [timeText s.hour.toInt s.min.toInt, timeText f.hour.toInt f.min.toInt,
        decimal 0] := by
      rw [show rest = _ from if_neg c₁, if_neg c₂, if_neg c₃, if_neg c₄]
    rw [zerosFromShort_cons_of_le _ (by omega), hrest]
    simp [timeOf_listed, ZerosFromShort]

theorem withFields_eq_iff {e : PowerEvent} (ha : e.active = 0 ∨ e.active = 1) {rest : List Bytes} :
    withFields e.active.toNat e.port.toInt rest e = e ↔
      timeOf (rest.getD 0 []) = e.startTime ∧ timeOf (rest.getD 1 []) = e.endTime := by
  have hactive : (atoi (decimal e.active.toNat)).toUInt32.toUInt8 = e.active := by
    rcases ha with h | h
    · rw [h]
      decide
    · rw [h]
      decide
  obtain ⟨s, f, days, port, active, padding⟩ := e
  dsimp only at hactive
  simp [withFields, hactive, atoi_toInt]

/-! ### The request -/

theorem notMem_listedTime {b : Byte} (hb : IsOutside b) (hspace : b ≠ space) {t : Time} (ht : IsTime t) :
    b ∉ listedTime t := by
  have hnum : ∀ {n : ℤ}, 0 ≤ n → b ∉ decimal2 n := by
    intro n h0
    have hn : b ∉ decimal n := notMem_decimal hb.1 hb.2.1 n
    by_cases h : n < 10
    · rw [decimal2_of_lt h0 h, List.mem_cons, not_or]
      exact ⟨hspace, hn⟩
    · rw [decimal2_of_le h0 (by omega)]
      exact hn
  have hcolon : ascii ":" = [colon] := rfl
  simp only [listedTime, hcolon, List.mem_append, List.mem_singleton, not_or]
  exact ⟨⟨hnum ht.hour.1, hb.2.2⟩, hnum ht.min.1⟩

theorem isLine_requestLine (i : ℕ) {e : PowerEvent} (he : Listed e) : IsLine (requestLine i e) := by
  have hout : ∀ {b : Byte}, IsOutside b → b ≠ space → b ∉ ascii "GET /event/" → b ∉ ascii "/" →
      b ∉ ascii "/0 HTTP/1.0" → b ∉ requestLine i e := by
    intro b hb hspace hget hslash hend
    have hnum := notMem_decimal (c := b) hb.1 hb.2.1
    have hstart := notMem_listedTime hb hspace he.startTime
    have hstop := notMem_listedTime hb hspace he.endTime
    simp only [requestLine, List.mem_append, not_or]
    exact ⟨⟨⟨⟨⟨⟨⟨⟨⟨⟨hget, hnum _⟩, hslash⟩, hnum _⟩, hslash⟩, hnum _⟩, hslash⟩, hstart⟩, hslash⟩, hstop⟩, hend⟩
  refine ⟨?_, ?_, ?_, ?_⟩
  · simp [requestLine, ascii]
  · exact hout ⟨by decide, by decide, by decide⟩ (by decide) (by decide) (by decide) (by decide)
  · exact hout ⟨by decide, by decide, by decide⟩ (by decide) (by decide) (by decide) (by decide)
  · exact hout ⟨by decide, by decide, by decide⟩ (by decide) (by decide) (by decide) (by decide)

section Recv

variable {s : Server} {arg : Ptr} {k : Fin 8} (h : Accepted s arg k) {i : Fin 10} {e : PowerEvent}
  (hget : s.board.flashData.powerEvents.get i = e) (he : Listed e) {hs : List Bytes}
  (hhs : ∀ l ∈ hs, IsLine l ∧ isRequestLine l = false)
  (hlen : (endLines (requestLine i e :: hs) ++ crlf).length ≤ 1023) (uninit : ℕ → ℕ → Byte)
include h hget he hhs hlen

/-- **The events after the request**: one of them gets the fields that are left. -/
theorem recv_requestLine :
    (httpdRecvCb arg (endLines (requestLine i e :: hs) ++ crlf) uninit s).board.flashData.powerEvents =
      setAt s.board.flashData.powerEvents i (withFields e.active.toNat e.port.toInt
        (sentFields e.startTime.hour.toInt e.startTime.min.toInt e.endTime.hour.toInt
          e.endTime.min.toInt) e) := by
  set rest := sentFields e.startTime.hour.toInt e.startTime.min.toInt e.endTime.hour.toInt
    e.endTime.min.toInt
  set url := [slash].intercalate (eventFields i e.active.toNat e.port.toInt rest) with hurl
  have hone : requested (endLines (requestLine i e :: hs) ++ crlf) = [url] := by
    rw [requested_endLines (List.forall_mem_cons.2 ⟨isLine_requestLine i he, fun l hl => (hhs l hl).1⟩)
      hlen, filterMap_requestPath fun l hl => (hhs l hl).2, requestPath_requestLine i he]
    rfl
  obtain ⟨hboard, -⟩ := recv_accepted h (endLines (requestLine i e :: hs) ++ crlf) uninit
  rw [hone] at hboard
  change _ = (step ⟨s.board, [], s.log⟩ (.request ⟨arg, url, uninit⟩)).board at hboard
  have hram := (copies_eq_iff.1 (@request_event ⟨arg, url, uninit⟩ i _ _ rest (sentFields_clean _ _ _ _)
    hurl ⟨s.board, [], s.log⟩)).1
  rw [hboard, hram]
  dsimp only
  rw [hget]

/-- **Sending a listed event back** leaves the events as they were exactly if in the four numbers of
its times only zeros follow from the first one of one digit on. -/
theorem roundTrip_iff :
    (httpdRecvCb arg (endLines (requestLine i e :: hs) ++ crlf) uninit s).board.flashData.powerEvents =
      s.board.flashData.powerEvents ↔ ZerosFromShort (listedNumbers e.startTime e.endTime) := by
  rw [recv_requestLine h hget he hhs hlen, setAt_eq_self_iff, hget, eq_comm, withFields_eq_iff he.active]
  exact timeOf_sentFields e.startTime e.endTime

end Recv

/-- A server with one connection, on a board whose ten events are `e`. -/
def oneListed (e : PowerEvent) : Server :=
  httpdConnectCb 1 (.fresh (Rest.start { FlashData.zero with powerEvents := .replicate 10 e }).board)

lemma oneListed_accepted (e : PowerEvent) : Accepted (oneListed e) 1 0 := connect_accepted rfl rfl

/-- From `10:30` to `22:45`. -/
def afternoon : PowerEvent := ⟨⟨10, 30⟩, ⟨22, 45⟩, 0, 2, 1, .replicate 3 0⟩

theorem roundTrip_afternoon : (httpdRecvCb 1 (endLines (requestLine 3 afternoon ::
      [ascii "Host: esp"]) ++ crlf) (fun _ _ => 0) (oneListed afternoon)).board.flashData.powerEvents =
    (oneListed afternoon).board.flashData.powerEvents :=
  (roundTrip_iff (oneListed_accepted afternoon) (i := ⟨3, by decide⟩) rfl
    ⟨.inr rfl, by decide, ⟨by decide, by decide⟩, by decide, by decide⟩ (by decide) (by decide) _).2
    (by decide)

/-- From `8:30` to `22:45`. -/
def early : PowerEvent := { afternoon with startTime := ⟨8, 30⟩ }

lemma early_listed : Listed early :=
  ⟨.inr rfl, by decide, ⟨by decide, by decide⟩, by decide, by decide⟩

/-- **A time is lost**: sent back, the event has neither time left. -/
theorem not_roundTrip_early : ¬ ∀ (s : Server) (arg : Ptr) (k : Fin 8), Accepted s arg k →
    ∀ i : Fin 10, Listed (s.board.flashData.powerEvents.get i) →
      (httpdRecvCb arg (endLines [requestLine i (s.board.flashData.powerEvents.get i)] ++ crlf)
        (fun _ _ => 0) s).board.flashData.powerEvents = s.board.flashData.powerEvents := by
  intro h
  have hall := h (oneListed early) 1 0 (oneListed_accepted early) ⟨3, by decide⟩ early_listed
  have hram := recv_requestLine (oneListed_accepted early) (i := ⟨3, by decide⟩) rfl early_listed
    (List.forall_mem_nil _) (by decide) fun _ _ => 0
  rw [hram, setAt_eq_self_iff] at hall
  exact absurd hall (by decide)

end Esp8266Rest.Config
