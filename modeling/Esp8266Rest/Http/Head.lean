import Esp8266Rest.Http.Lines

/-!
# The head of a request

What a slot holds after the bytes of a connection is a function of these bytes alone, however they
were cut into segments.  `headerText bytes` is the text of the header block that has been completed,
if one has; `Received` says what the slot looks like before and after that, and `recvLoop_spec` that
the requests of the block are handled once, when it is completed.
-/

namespace Esp8266Rest.Http

open Esp8266Rest.Lib.CStr Esp8266Rest.Model

/-! ### The text of a header block -/

/-- The text in front of the first `blockEnd`, if that stands in the bytes that fit into `head`, and
no NUL in front of it. -/
def headerText (bytes : Bytes) : Option Bytes :=
  (strstr (cstr (bytes.take maxHeadLen)) blockEnd).map fun k => bytes.take k

/-- The requests of the block. -/
def requested (bytes : Bytes) : List Bytes := (headerText bytes).elim [] requestPaths

section HeaderText

variable {a b t : Bytes}

lemma headerText_eq_none : headerText a = none ↔ strstr (cstr (a.take maxHeadLen)) blockEnd = none :=
  Option.map_eq_none_iff

theorem headerText_append (h : headerText a = some t) (b : Bytes) : headerText (a ++ b) = some t := by
  obtain ⟨k, hk, rfl⟩ := Option.map_eq_some_iff.1 h
  have hpre : a.take maxHeadLen <+: (a ++ b).take maxHeadLen := by
    rw [List.take_append]
    exact List.prefix_append _ _
  obtain ⟨t, ht⟩ := cstr_mono hpre
  have hk' := strstr_append hk t
  rw [ht] at hk'
  have hle : k ≤ a.length := by
    have h1 := strstr_le hk
    have h2 := length_cstr_le (a.take maxHeadLen)
    have h3 := List.length_take_le maxHeadLen a
    have h4 : (a.take maxHeadLen).length ≤ a.length := List.length_take_le' _ _
    omega
  unfold headerText
  rw [hk', Option.map_some, List.take_append_of_le_length hle]

/-- Bytes that have no block yet and get none by more of them: a NUL came first, or `head` is full. -/
theorem headerText_append_of_dead (hb : blockEnd <:+: a) (h : headerText a = none) (b : Bytes) :
    headerText (a ++ b) = none := by
  rw [headerText_eq_none] at h ⊢
  by_cases hlen : maxHeadLen ≤ a.length
  · rwa [List.take_append_of_le_length hlen]
  · have htake : a.take maxHeadLen = a := List.take_of_length_le (by omega)
    rw [htake] at h
    by_cases h0 : (0 : Byte) ∈ a
    · rw [List.take_append, htake, cstr_append_of_mem h0]
      exact h
    · rw [cstr_eq_self h0] at h
      exact absurd hb (strstr_eq_none_iff.1 h)

/-- **Once the end of a block came by, more bytes change nothing.** -/
theorem headerText_stable (hb : blockEnd <:+: a) (b : Bytes) : headerText (a ++ b) = headerText a := by
  cases h : headerText a with
  | none => exact headerText_append_of_dead hb h b
  | some t => exact headerText_append h b

/-- **The byte that completes a block** is the newline at its end. -/
theorem headerText_concat {c : Byte} (h : headerText a = none) (h' : headerText (a ++ [c]) = some t) :
    c = lf ∧ a ++ [c] = t ++ blockEnd ∧ (a ++ [c]).length ≤ maxHeadLen ∧ (0 : Byte) ∉ a ++ [c] ∧
      strstr (t ++ blockEnd) blockEnd = some t.length := by
  rw [headerText_eq_none] at h
  obtain ⟨k, hk, rfl⟩ := Option.map_eq_some_iff.1 h'
  have hne : cstr (a.take maxHeadLen) ≠ cstr ((a ++ [c]).take maxHeadLen) := fun he => by
    rw [he, hk] at h
    cases h
  -- the new byte is in `head`, and no NUL stands in front of it
  have hlen : a.length < maxHeadLen := by
    by_contra hge
    exact hne (by rw [List.take_append_of_le_length (by omega)])
  have htake : a.take maxHeadLen = a := List.take_of_length_le (by omega)
  have htake' : (a ++ [c]).take maxHeadLen = a ++ [c] := List.take_of_length_le (by simp; omega)
  rw [htake, htake'] at hne
  rw [htake] at h
  rw [htake'] at hk
  have h0a : (0 : Byte) ∉ a := fun h0 => hne (cstr_append_of_mem h0 _).symm
  have hc : c ≠ 0 := by
    rintro rfl
    exact hne (by rw [cstr_append_zero h0a, cstr_eq_self h0a])
  have h0 : (0 : Byte) ∉ a ++ [c] := by
    rw [List.mem_append, List.mem_singleton]
    rintro (h0 | h0)
    · exact h0a h0
    · exact hc h0.symm
  rw [cstr_eq_self h0] at hk
  rw [cstr_eq_self h0a] at h
  -- so the block ends with that byte
  have hle := strstr_le hk
  have hlt := lt_of_strstr_append h hk
  obtain ⟨-, hp, -⟩ := strstr_eq_some_iff.1 hk
  simp only [List.length_append, List.length_singleton] at hle
  have hdrop : (a ++ [c]).drop k = blockEnd := (hp.eq_of_length (by simp; omega)).symm
  have heq : a ++ [c] = (a ++ [c]).take k ++ blockEnd := by
    rw [← hdrop, List.take_append_drop]
  have hklen : ((a ++ [c]).take k).length = k := by simp; omega
  refine ⟨?_, heq, by simp; omega, h0, ?_⟩
  · have hlast := congrArg List.getLast? heq
    simpa [blockEnd, crlf] using hlast
  · rw [← heq, hk, hklen]

end HeaderText

/-! ### What a slot holds -/

/-- `head` holds the bytes `t`, and a NUL behind them where there is room. -/
structure Holds (c : ServerConnData) (t : Bytes) : Prop where
  headPos : c.priv.headPos = t.length
  text : t <+: c.from 0
  ended : t ≠ [] → cstr (c.from 0) = cstr t

lemma length_from_zero (c : ServerConnData) : (c.from 0).length = maxHeadLen := by
  simp [ServerConnData.from, maxHeadLen]

lemma Holds.length_le {c : ServerConnData} {t : Bytes} (h : Holds c t) : t.length ≤ maxHeadLen := by
  have := h.text.length_le
  rwa [length_from_zero] at this

section PutHead

variable {c : ServerConnData} (b : Byte)

/-- With a full `head` the NUL goes to the low byte of `headPos`, which is `0` already. -/
theorem putHead_full (h : c.priv.headPos = maxHeadLen) : c.putHead b = c := by
  have hpriv : c.priv = { c.priv with headPos := maxHeadLen } := by rw [← h]
  unfold ServerConnData.putHead
  rw [if_neg (not_not.2 h), if_neg (by omega), h]
  change { c with priv := { c.priv with headPos := maxHeadLen } } = c
  rw [← hpriv]

/-- The slot with the byte stored. -/
def stored (c : ServerConnData) (b : Byte) : ServerConnData :=
  { c with priv := { c.priv with head := c.priv.head.setIfInBounds c.priv.headPos b,
                                 headPos := c.priv.headPos + 1 } }

theorem putHead_room (h : c.priv.headPos + 1 < maxHeadLen) :
    c.putHead b = (stored c b).cut (c.priv.headPos + 1) := by
  unfold ServerConnData.putHead
  rw [if_pos (show c.priv.headPos ≠ maxHeadLen by omega)]
  exact if_pos h

/-- The last byte that fits leaves no room for a NUL. -/
theorem putHead_last (h : c.priv.headPos + 1 = maxHeadLen) : c.putHead b = stored c b := by
  have hmod : maxHeadLen - maxHeadLen % 256 = maxHeadLen := by decide
  unfold ServerConnData.putHead
  rw [if_pos (show c.priv.headPos ≠ maxHeadLen by omega)]
  dsimp only
  rw [if_neg (by omega), h, hmod]
  unfold stored
  rw [h]

theorem putHead_conn (c : ServerConnData) (b : Byte) : (c.putHead b).conn = c.conn := by
  unfold ServerConnData.putHead
  dsimp only
  split <;> split <;> rfl

theorem putHead_postLen (c : ServerConnData) (b : Byte) : (c.putHead b).postLen = c.postLen := by
  unfold ServerConnData.putHead
  dsimp only
  split <;> split <;> rfl

theorem from_stored {t js : Bytes} {j : Byte} (hpos : c.priv.headPos = t.length)
    (h : c.from 0 = t ++ j :: js) : (stored c b).from 0 = t ++ b :: js := by
  unfold ServerConnData.from stored at *
  rw [List.drop_zero] at *
  rw [Vector.toList_setIfInBounds, h, hpos]
  simp

/-- **A received byte** is stored behind the others, with a NUL behind it, if there is room. -/
theorem putHead_holds {t : Bytes} (h : Holds c t) : Holds (c.putHead b) ((t ++ [b]).take maxHeadLen) := by
  have hpos := h.headPos
  obtain ⟨junk, hjunk⟩ := h.text
  have hlen : t.length + junk.length = maxHeadLen := by
    rw [← List.length_append, hjunk, length_from_zero]
  by_cases hfull : t.length = maxHeadLen
  · rw [putHead_full b (hpos.trans hfull), List.take_append_of_le_length (by omega),
      List.take_of_length_le (by omega)]
    exact h
  obtain ⟨j, js, rfl⟩ : ∃ j js, junk = j :: js := List.exists_cons_of_length_pos (by omega)
  simp only [List.length_cons] at hlen
  have hstored := from_stored b hpos hjunk.symm
  rw [List.take_of_length_le (by simp; omega)]
  by_cases hroom : c.priv.headPos + 1 < maxHeadLen
  · obtain ⟨j', js, rfl⟩ : ∃ j' js', js = j' :: js' := List.exists_cons_of_length_pos (by omega)
    have hcut : ((stored c b).cut (c.priv.headPos + 1)).from 0 = (t ++ [b]) ++ 0 :: js := by
      have hset : ((stored c b).cut (c.priv.headPos + 1)).from 0 =
          ((stored c b).from 0).set (c.priv.headPos + 1) 0 := by
        simp [ServerConnData.from, ServerConnData.cut, stored]
      rw [hset, hstored, hpos]
      simp
    rw [putHead_room b hroom]
    refine ⟨by simp [ServerConnData.cut, stored, hpos], ?_, fun _ => ?_⟩
    · rw [hcut]
      exact List.prefix_append _ _
    · rw [hcut, cstr_append_cons_zero]
  · have hjs : js = [] := List.length_eq_zero_iff.1 (by omega)
    subst hjs
    rw [putHead_last b (by omega)]
    refine ⟨by simp [stored, hpos], ?_, fun _ => ?_⟩
    · rw [hstored]
    · rw [hstored]

end PutHead

/-! ### What receiving does -/

/-- The slot of a connection that `bytes` have come in on. -/
structure Received (bytes : Bytes) (c : ServerConnData) : Prop where
  waiting : headerText bytes = none → c.postLen = -1 ∧ Holds c (bytes.take maxHeadLen)
  done : headerText bytes ≠ none → c.postLen = 0

/-- The requests that `data` completes behind `bytes`. -/
def newlyRequested (bytes data : Bytes) : List Bytes :=
  if headerText bytes = none then requested (bytes ++ data) else []

theorem requested_append (bytes data : Bytes) :
    requested (bytes ++ data) = requested bytes ++ newlyRequested bytes data := by
  unfold newlyRequested requested
  cases h : headerText bytes with
  | none => simp
  | some t => simp [headerText_append h]

section Receive

variable (arg : Ptr) (uninit : ℕ → ℕ → Byte)

theorem take_take_concat (bytes : Bytes) (b : Byte) (n : ℕ) :
    (bytes.take n ++ [b]).take n = (bytes ++ [b]).take n := by
  by_cases h : n ≤ bytes.length
  · rw [List.take_append_of_le_length (by simp; omega), List.take_take, Nat.min_self,
      List.take_append_of_le_length h]
  · rw [List.take_of_length_le (show bytes.length ≤ n by omega)]

/-- The byte starts the loop over the lines. -/
def Begins (b : Byte) (s : Session) : Prop :=
  b = lf ∧ (strstr (cstr ((s.slot.putHead b).from 0)) blockEnd).isSome

instance (b : Byte) (s : Session) : Decidable (Begins b s) := by unfold Begins; infer_instance

/-- What the loop over the lines starts with. -/
def begun (b : Byte) (s : Session) : Session :=
  { s with slot := { s.slot.putHead b with postLen := 0, url := none },
           headWrites := s.headWrites ++ s.slot.putWrites }

lemma headerByte_of_begins {b : Byte} {s : Session} (h : Begins b s) :
    headerByte arg uninit b s = lineLoop arg uninit 0 (begun b s) := if_pos h

lemma headerByte_of_not_begins {b : Byte} {s : Session} (h : ¬ Begins b s) :
    headerByte arg uninit b s =
      { s with slot := s.slot.putHead b, headWrites := s.headWrites ++ s.slot.putWrites } := if_neg h

section HeaderByte

variable {bytes : Bytes} {s : Session} (hnone : headerText bytes = none)
  (hold : Holds s.slot (bytes.take maxHeadLen)) (b : Byte)
include hnone hold

/-- **The loop over the lines starts** with the byte that completes the block, and no earlier. -/
theorem begins_iff : Begins b s ↔ headerText (bytes ++ [b]) ≠ none := by
  have hput := putHead_holds b hold
  rw [take_take_concat] at hput
  have hcstr := hput.ended (by simp [maxHeadLen])
  have hfound : (strstr (cstr ((s.slot.putHead b).from 0)) blockEnd).isSome =
      (headerText (bytes ++ [b])).isSome := by
    rw [hcstr, headerText, Option.isSome_map]
  rw [Begins, hfound, ← Option.isSome_iff_ne_none, and_iff_right_iff_imp, Option.isSome_iff_exists]
  rintro ⟨t, ht⟩
  exact (headerText_concat hnone ht).1

theorem begun_holds {t : Bytes} (htext : headerText (bytes ++ [b]) = some t) :
    LinesLeft t 0 (begun b s) := by
  obtain ⟨-, hend, hle, h0, hfirst⟩ := headerText_concat hnone htext
  have hput := putHead_holds b hold
  rw [take_take_concat, List.take_of_length_le hle] at hput
  refine ⟨?_, ?_, hfirst⟩
  · show cstr ((s.slot.putHead b).from 0) = t ++ blockEnd
    rw [hput.ended (by simp), cstr_eq_self h0, hend]
  · show (s.slot.putHead b).priv.headPos = 0 + t.length + 4
    rw [hput.headPos, hend, List.length_append, Nat.zero_add]
    rfl

/-- **A header byte** completes the block, and its requests are handled, or it is stored. -/
theorem headerByte_spec (hlen : s.slot.postLen = -1) :
    Received (bytes ++ [b]) (headerByte arg uninit b s).slot ∧
    (headerByte arg uninit b s).rest = handle arg uninit (requested (bytes ++ [b])) s.rest := by
  cases htext : headerText (bytes ++ [b]) with
  | none =>
    have hnot : ¬ Begins b s := fun h => (begins_iff hnone hold b).1 h htext
    have hreq : requested (bytes ++ [b]) = [] := by rw [requested, htext]; rfl
    have hput := putHead_holds b hold
    rw [take_take_concat] at hput
    rw [headerByte_of_not_begins arg uninit hnot, hreq]
    exact ⟨⟨fun _ => ⟨(putHead_postLen _ _).trans hlen, hput⟩, fun h => absurd htext h⟩, rfl⟩
  | some t =>
    have hbegins : Begins b s := (begins_iff hnone hold b).2 (by rw [htext]; simp)
    have hreq : requested (bytes ++ [b]) = requestPaths t := by rw [requested, htext]; rfl
    rw [headerByte_of_begins arg uninit hbegins, hreq]
    refine ⟨⟨fun h => ?_, fun _ => (lineLoop_same arg uninit 0 _).postLen⟩,
      lineLoop_spec arg uninit (begun_holds hnone hold b htext)⟩
    rw [htext] at h
    cases h

end HeaderByte

/-- **Receiving** keeps what each byte keeps, of the header or of the body. -/
theorem recvLoop_keeps {P : Session → Prop} (hheader : ∀ b s, P s → P (headerByte arg uninit b s))
    (hpost : ∀ b s, P s → P { s with slot := (s.slot.putPost b).1 }) (data : Bytes) {s : Session}
    (h : P s) : P (recvLoop arg uninit data s) := by
  induction data generalizing s with
  | nil => exact h
  | cons b data ih =>
    rw [recvLoop]
    split
    · exact ih (hheader b s h)
    · split
      · dsimp only
        split
        · exact hpost b s h
        · exact ih (hpost b s h)
      · exact ih h

theorem recvLoop_conn (data : Bytes) (s : Session) :
    (recvLoop arg uninit data s).slot.conn = s.slot.conn := by
  have hheader : ∀ b s, (headerByte arg uninit b s).slot.conn = s.slot.conn := by
    intro b s
    unfold headerByte
    dsimp only
    split
    · exact (lineLoop_same arg uninit 0 _).conn.trans (putHead_conn _ _)
    · exact putHead_conn _ _
  have hpost : ∀ (c : ServerConnData) b, (c.putPost b).1.conn = c.conn := by
    intro c b
    unfold ServerConnData.putPost
    dsimp only
    split <;> rfl
  exact recvLoop_keeps arg uninit (P := fun t => t.slot.conn = s.slot.conn)
    (fun b t h => (hheader b t).trans h) (fun b t h => (hpost t.slot b).trans h) data rfl

theorem recvLoop_of_done (data : Bytes) {s : Session} (h : s.slot.postLen = 0) :
    recvLoop arg uninit data s = s := by
  induction data with
  | nil => rfl
  | cons b data ih =>
    rw [recvLoop, if_neg (by rw [h]; decide), if_neg (by simp [h]), ih]

/-- **Receiving.**  The slot then stands for all bytes, and what these complete was handled. -/
theorem recvLoop_spec (data : Bytes) {bytes : Bytes} {s : Session} (h : Received bytes s.slot) :
    Received (bytes ++ data) (recvLoop arg uninit data s).slot ∧
    (recvLoop arg uninit data s).rest = handle arg uninit (newlyRequested bytes data) s.rest := by
  induction data generalizing bytes s with
  | nil =>
    have hnew : newlyRequested bytes [] = [] := by
      have := requested_append bytes []
      simpa using this
    rw [List.append_nil, hnew]
    exact ⟨h, rfl⟩
  | cons b data ih =>
    have happ : bytes ++ b :: data = bytes ++ [b] ++ data := by simp
    by_cases hnone : headerText bytes = none
    · obtain ⟨hlen, hold⟩ := h.waiting hnone
      obtain ⟨hr, hrest⟩ := headerByte_spec arg uninit hnone hold b hlen
      obtain ⟨hr', hrest'⟩ := ih hr
      have heq : recvLoop arg uninit (b :: data) s =
          recvLoop arg uninit data (headerByte arg uninit b s) := by
        rw [recvLoop, if_pos (by rw [hlen]; decide)]
      have hnew : newlyRequested bytes (b :: data) =
          requested (bytes ++ [b]) ++ newlyRequested (bytes ++ [b]) data := by
        rw [← requested_append, newlyRequested, if_pos hnone, happ]
      rw [heq, happ, hnew, handle_append, hrest', hrest]
      exact ⟨hr', rfl⟩
    · -- the block is complete: what follows is not read
      have hlen := h.done hnone
      have hne : headerText (bytes ++ b :: data) ≠ none := by
        obtain ⟨t, ht⟩ := Option.ne_none_iff_exists'.1 hnone
        rw [headerText_append ht]
        simp
      rw [recvLoop_of_done arg uninit (b :: data) hlen, newlyRequested, if_neg hnone]
      exact ⟨⟨fun h' => absurd h' hne, fun _ => hlen⟩, rfl⟩

end Receive

end Esp8266Rest.Http
