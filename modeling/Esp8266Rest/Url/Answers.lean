import Esp8266Rest.Model.RestAPI

/-!
# What an answer changes

All answers are built by `respondJson`.  It leaves the board alone and hands one buffer, never an
empty one, to `espconn_sent` (`respondJson_answers`).  So what a handler does to the board, and what it
reads and writes, is what it did before it answered.
-/

namespace Esp8266Rest.Url

open Esp8266Rest.Lib.CStr Esp8266Rest.Model

/-- `r'` is `r` after sends that filled the send buffer further. -/
def Filled (r r' : Rest) : Prop :=
  ∃ b q f, r' = { r with sendBuff := b, log := { r.log with queued := q, formatted := f } } ∧
    (r.sendBuff ≠ [] → b ≠ [])

lemma Filled.refl (r : Rest) : Filled r r := ⟨_, _, _, rfl, id⟩

theorem Filled.trans {r r' r'' : Rest} (h : Filled r r') (h' : Filled r' r'') : Filled r r'' := by
  obtain ⟨b, q, f, rfl, hb⟩ := h
  obtain ⟨b', q', f', rfl, hb'⟩ := h'
  exact ⟨b', q', f', rfl, fun hne => hb' (hb hne)⟩

theorem httpdSend_filled (data : Bytes) (r : Rest) : Filled r (httpdSend data r) := by
  unfold httpdSend
  split
  · exact ⟨_, _, _, rfl, id⟩
  · exact ⟨_, _, _, rfl, fun h => by simp [h]⟩

theorem sendPart_filled (r : Rest) (p : Part) : Filled r (sendPart r p) := by
  cases p with
  | lit text => exact httpdSend_filled text r
  | fmt cap text =>
    have h : Filled r (osSprintf cap text r) := ⟨_, _, _, rfl, id⟩
    exact h.trans (httpdSend_filled text _)

theorem sendParts_filled (parts : List Part) (r : Rest) : Filled r (parts.foldl sendPart r) := by
  induction parts generalizing r with
  | nil => exact .refl r
  | cons p parts ih => exact (sendPart_filled r p).trans (ih _)

/-- A piece that fits into an empty buffer leaves none empty: it is dropped only for what is there. -/
theorem httpdSend_ne_nil {data : Bytes} (h : data ≠ []) (hlen : data.length ≤ maxSendbuffLen)
    (r : Rest) : (httpdSend data r).sendBuff ≠ [] := by
  unfold httpdSend
  by_cases hbig : maxSendbuffLen < r.sendBuff.length + data.length
  · rw [if_pos hbig]
    intro e
    have : r.sendBuff.length = 0 := by simpa using e
    omega
  · rw [if_neg hbig]
    simp [h]

lemma startResponse_ne_nil (r : Rest) : (sendPart r (startResponse 200)).sendBuff ≠ [] :=
  httpdSend_ne_nil (by decide) (by decide) _

/-- `r'` is `r` after one answer on `conn`: a buffer that is not empty went to `espconn_sent`. -/
def Answers (conn : Conn) (r r' : Rest) : Prop :=
  ∃ buf q f, buf ≠ [] ∧ r' =
    { r with sendBuff := [],
             log := { r.log with queued := q, formatted := f,
                                 sent := r.log.sent ++ [(conn.conn, buf)] } }

/-- **Every response is one answer.** -/
theorem respondJson_answers (conn : Conn) (body : List Part) (r : Rest) :
    Answers conn r (respondJson conn body r) := by
  unfold respondJson startResponseJson
  rw [List.cons_append, List.foldl_cons]
  obtain ⟨b, q, f, hr, -⟩ := sendPart_filled r (startResponse 200)
  have hb : b ≠ [] := by
    have := startResponse_ne_nil r
    rwa [hr] at this
  rw [hr]
  obtain ⟨b', q', f', hr', hb'⟩ := sendParts_filled _ _
  rw [hr']
  refine ⟨b', q', f', hb' hb, ?_⟩
  have : b'.length ≠ 0 := fun h => hb' hb (List.length_eq_zero_iff.1 h)
  simp only [xmitSendBuff, if_pos this]

section Frame

variable {conn : Conn} {r r' : Rest}

lemma Answers.board (h : Answers conn r r') : r'.board = r.board := by
  obtain ⟨_, _, _, -, rfl⟩ := h; rfl

lemma Answers.copies (h : Answers conn r r') : r'.log.copies = r.log.copies := by
  obtain ⟨_, _, _, -, rfl⟩ := h; rfl

lemma Answers.accesses (h : Answers conn r r') : r'.log.accesses = r.log.accesses := by
  obtain ⟨_, _, _, -, rfl⟩ := h; rfl

lemma Answers.pinSets (h : Answers conn r r') : r'.log.pinSets = r.log.pinSets := by
  obtain ⟨_, _, _, -, rfl⟩ := h; rfl

lemma Answers.handlers (h : Answers conn r r') : r'.log.handlers = r.log.handlers := by
  obtain ⟨_, _, _, -, rfl⟩ := h; rfl

lemma Answers.sendBuff (h : Answers conn r r') : r'.sendBuff = [] := by
  obtain ⟨_, _, _, -, rfl⟩ := h; rfl

theorem Answers.sent (h : Answers conn r r') :
    ∃ buf, buf ≠ [] ∧ r'.log.sent = r.log.sent ++ [(conn.conn, buf)] := by
  obtain ⟨buf, _, _, hne, rfl⟩ := h
  exact ⟨buf, hne, rfl⟩

end Frame

section Respond

variable (conn : Conn) (body : List Part) (r : Rest)

@[simp] theorem respondJson_board : (respondJson conn body r).board = r.board :=
  (respondJson_answers conn body r).board

@[simp] theorem respondJson_copies : (respondJson conn body r).log.copies = r.log.copies :=
  (respondJson_answers conn body r).copies

@[simp] theorem respondJson_accesses : (respondJson conn body r).log.accesses = r.log.accesses :=
  (respondJson_answers conn body r).accesses

@[simp] theorem respondJson_pinSets : (respondJson conn body r).log.pinSets = r.log.pinSets :=
  (respondJson_answers conn body r).pinSets

@[simp] theorem respondJson_handlers : (respondJson conn body r).log.handlers = r.log.handlers :=
  (respondJson_answers conn body r).handlers

end Respond

end Esp8266Rest.Url
