import Esp8266Rest.Http.Refine

/-!
# Writes to `head`

The cuts in a completed block lie inside `head` (`lineLoop_inside`).  A received byte is stored inside
too, but the NUL behind it is not when the byte went to the last place (`putWrites_inside_iff`).
`headInBounds_iff` says for which bytes of the connections this does not happen.
-/

namespace Esp8266Rest.Http

open Esp8266Rest.Lib.CStr Esp8266Rest.Lib.Runs Esp8266Rest.Model

/-- Places in a `head`. -/
def Inside (ws : List ℕ) : Prop := ∀ w ∈ ws, w < maxHeadLen

lemma inside_append {ws vs : List ℕ} : Inside (ws ++ vs) ↔ Inside ws ∧ Inside vs :=
  List.forall_mem_append

/-- Bytes that leave a place of `head` free, or whose header block ends in front of the last place. -/
def EndsInTime (bytes : Bytes) : Prop :=
  bytes.length < maxHeadLen ∨ headerText (bytes.take (maxHeadLen - 1)) ≠ none

/-- Bytes that end in time and wait for more leave a place free. -/
theorem EndsInTime.length_lt {bytes : Bytes} (h : EndsInTime bytes) (hnone : headerText bytes = none) :
    bytes.length < maxHeadLen := by
  rcases h with h | h
  · exact h
  · obtain ⟨t, ht⟩ := Option.ne_none_iff_exists'.1 h
    have hall := headerText_append ht (bytes.drop (maxHeadLen - 1))
    rw [List.take_append_drop, hnone] at hall
    cases hall

/-! ### Cuts -/

theorem strstr_from_lt {c : ServerConnData} {p e : ℕ} {t : Bytes} (ht : t ≠ [])
    (h : strstr (cstr (c.from p)) t = some e) : p + e < maxHeadLen := by
  have hle := strstr_le h
  have hpos := List.length_pos_iff.2 ht
  have hcstr := length_cstr_le (c.from p)
  have hfrom : (c.from p).length = maxHeadLen - p := by simp [ServerConnData.from, maxHeadLen]
  omega

theorem urlCuts_inside (c : ServerConnData) (p : ℕ) : Inside (c.urlCuts p) := by
  unfold ServerConnData.urlCuts Inside
  dsimp only
  split
  · exact List.forall_mem_nil _
  · rename_i e he
    have hspace := strstr_from_lt (List.cons_ne_nil _ _) he
    split
    · rename_i k hk
      have hquestion := strstr_from_lt (by decide) hk
      exact List.forall_mem_cons.2 ⟨hspace, List.forall_mem_singleton.2 hquestion⟩
    · exact List.forall_mem_singleton.2 hspace

section Receive

variable (arg : Ptr) (uninit : ℕ → ℕ → Byte)

theorem serverParseHeaderURL_inside (p : ℕ) (s : Session) :
    Inside (serverParseHeaderURL arg uninit p s).headWrites ↔ Inside s.headWrites := by
  have hcuts := urlCuts_inside s.slot p
  unfold serverParseHeaderURL
  split
  · dsimp only
    split
    · exact inside_append.trans (and_iff_left hcuts)
    · exact inside_append.trans (and_iff_left hcuts)
  · exact Iff.rfl

theorem lineLoop_inside (p : ℕ) (s : Session) :
    Inside (lineLoop arg uninit p s).headWrites ↔ Inside s.headWrites := by
  refine lineLoop_keeps arg uninit (P := fun t => Inside t.headWrites ↔ Inside s.headWrites)
    (fun p e t he h => ?_) p Iff.rfl
  have hline : Inside [p + e] := List.forall_mem_singleton.2 (strstr_from_lt (by decide) he)
  rw [serverParseHeaderURL_inside, Session.endLine]
  exact (inside_append.trans (and_iff_left hline)).trans h

/-! ### Received bytes -/

/-- **The NUL behind a byte** needs a place of its own. -/
theorem putWrites_inside_iff (c : ServerConnData) :
    Inside c.putWrites ↔ c.priv.headPos + 1 < maxHeadLen := by
  unfold Inside ServerConnData.putWrites
  split
  · simp only [List.forall_mem_cons, List.not_mem_nil, false_implies, implies_true, and_true]
    omega
  · simp only [List.forall_mem_cons, List.not_mem_nil, false_implies, implies_true, and_true]
    omega

theorem headerByte_inside (b : Byte) (s : Session) : Inside (headerByte arg uninit b s).headWrites ↔
    Inside s.headWrites ∧ s.slot.priv.headPos + 1 < maxHeadLen := by
  have hput : Inside (s.headWrites ++ s.slot.putWrites) ↔
      Inside s.headWrites ∧ s.slot.priv.headPos + 1 < maxHeadLen := by
    rw [inside_append, putWrites_inside_iff]
  unfold headerByte
  dsimp only
  split
  · exact (lineLoop_inside arg uninit 0 _).trans hput
  · exact hput

theorem inside_of_recvLoop (data : Bytes) (s : Session)
    (h : Inside (recvLoop arg uninit data s).headWrites) : Inside s.headWrites := by
  by_contra hout
  refine recvLoop_keeps arg uninit (P := fun t => ¬ Inside t.headWrites) (fun b t ht hin => ?_)
    (fun b t ht => ht) data hout h
  exact ht ((headerByte_inside arg uninit b t).1 hin).1

theorem endsInTime_cons {bytes : Bytes} (hnone : headerText bytes = none)
    (hlen : bytes.length < maxHeadLen) (b : Byte) (data : Bytes) : EndsInTime (bytes ++ b :: data) ↔
      bytes.length + 1 < maxHeadLen ∧
        (headerText (bytes ++ [b]) = none → EndsInTime (bytes ++ [b] ++ data)) := by
  have happ : bytes ++ b :: data = bytes ++ [b] ++ data := by simp
  constructor
  · intro h
    by_cases hroom : bytes.length + 1 < maxHeadLen
    · exact ⟨hroom, fun _ => happ ▸ h⟩
    · -- the byte goes to the last place, and no block ends in front of it
      have htake : (bytes ++ b :: data).take (maxHeadLen - 1) = bytes := List.take_left' (by omega)
      rcases h with h | h
      · simp only [List.length_append, List.length_cons] at h
        omega
      · rw [htake] at h
        exact absurd hnone h
  · rintro ⟨hroom, h⟩
    cases htext : headerText (bytes ++ [b]) with
    | none => exact happ ▸ h htext
    | some t =>
      refine .inr ?_
      have hone : (bytes ++ [b]).length ≤ maxHeadLen - 1 := by simp; omega
      rw [happ, List.take_append, List.take_of_length_le hone, headerText_append htext]
      simp

/-- **Receiving stays inside** exactly if the bytes end in time. -/
theorem recvLoop_inside (data : Bytes) {bytes : Bytes} {s : Session} (h : Received bytes s.slot)
    (hnone : headerText bytes = none) (hlen : bytes.length < maxHeadLen) :
    Inside (recvLoop arg uninit data s).headWrites ↔ Inside s.headWrites ∧ EndsInTime (bytes ++ data) := by
  induction data generalizing bytes s with
  | nil =>
    have hends : EndsInTime (bytes ++ []) := .inl (by simpa using hlen)
    exact (and_iff_left hends).symm
  | cons b data ih =>
    obtain ⟨hwait, hold⟩ := h.waiting hnone
    have hpos : s.slot.priv.headPos = bytes.length := by
      rw [hold.headPos, List.take_of_length_le hlen.le]
    obtain ⟨hr, -⟩ := headerByte_spec arg uninit hnone hold b hwait
    have hbyte := headerByte_inside arg uninit b s
    rw [hpos] at hbyte
    rw [recvLoop, if_pos (by rw [hwait]; decide), endsInTime_cons hnone hlen, ← and_assoc, ← hbyte]
    by_cases hroom : bytes.length + 1 < maxHeadLen
    · by_cases htext : headerText (bytes ++ [b]) = none
      · rw [ih hr htext (by simpa using hroom)]
        exact and_congr_right fun _ => ⟨fun h _ => h, fun h => h htext⟩
      · rw [recvLoop_of_done arg uninit data (hr.done htext)]
        exact (and_iff_left fun hc => absurd hc htext).symm
    · refine iff_of_false (fun h => ?_) fun h => ?_
      · exact hroom (hbyte.1 (inside_of_recvLoop arg uninit data _ h)).2
      · exact hroom (hbyte.1 h.1).2

end Receive

/-! ### Runs of the server -/

/-- All writes to a `head` were inside, and so is every `headPos`. -/
structure HeadInBounds (s : Server) : Prop where
  writes : Inside s.headWrites
  headPos : ∀ i : Fin 8, (s.pool.get i).priv.headPos ≤ maxHeadLen

/-- The bytes that come in, behind those that the slot has of its block, end in time. -/
def TakesInTime (s : Server) : Callback → Prop
  | .recv arg data _ => ∀ i, httpdFindConnData s.pool arg = some i →
      (s.pool.get i).postLen < 0 → EndsInTime (held (s.pool.get i) ++ data)
  | _ => True

theorem putHead_headPos_le {c : ServerConnData} (h : c.priv.headPos ≤ maxHeadLen) (b : Byte) :
    (c.putHead b).priv.headPos ≤ maxHeadLen := by
  by_cases hfull : c.priv.headPos = maxHeadLen
  · rw [putHead_full b hfull]
    exact h
  · by_cases hroom : c.priv.headPos + 1 < maxHeadLen
    · rw [putHead_room b hroom]
      exact hroom.le
    · have hlast : c.priv.headPos + 1 = maxHeadLen := by omega
      rw [putHead_last b hlast]
      exact hlast.le

theorem recvLoop_headPos_le (arg : Ptr) (uninit : ℕ → ℕ → Byte) (data : Bytes) {s : Session}
    (h : s.slot.priv.headPos ≤ maxHeadLen) :
    (recvLoop arg uninit data s).slot.priv.headPos ≤ maxHeadLen := by
  have hheader : ∀ b s, s.slot.priv.headPos ≤ maxHeadLen →
      (headerByte arg uninit b s).slot.priv.headPos ≤ maxHeadLen := by
    intro b s h
    have hput := putHead_headPos_le h b
    unfold headerByte
    dsimp only
    split
    · rw [(lineLoop_same arg uninit 0 _).headPos]
      exact hput
    · exact hput
  refine recvLoop_keeps arg uninit (P := fun t => t.slot.priv.headPos ≤ maxHeadLen) hheader
    (fun b t ht => ?_) data h
  unfold ServerConnData.putPost
  dsimp only
  split <;> exact ht

theorem step_headPos_le {s : Server} (h : ∀ i : Fin 8, (s.pool.get i).priv.headPos ≤ maxHeadLen)
    (e : Callback) (i : Fin 8) : ((s.step e).pool.get i).priv.headPos ≤ maxHeadLen := by
  have hset : ∀ (k : Fin 8) {c : ServerConnData}, c.priv.headPos ≤ maxHeadLen →
      ((setAt s.pool k c).get i).priv.headPos ≤ maxHeadLen := by
    intro k c hc
    rw [get_setAt]
    split
    · exact hc
    · exact h i
  cases e with
  | connect p =>
    rw [Server.step, httpdConnectCb]
    cases findFree s.pool with
    | none => exact h i
    | some k => exact hset k (Nat.zero_le _)
  | recv p data uninit =>
    rw [Server.step, httpdRecvCb]
    cases httpdFindConnData s.pool p with
    | none => exact h i
    | some k => exact hset k (recvLoop_headPos_le p uninit data (h k))
  | sent p =>
    rw [Server.step, httpdSentCb]
    cases httpdFindConnData s.pool p with
    | none => exact h i
    | some k => exact hset k (h k)
  | discon state =>
    rw [Server.step, httpdDisconCb_get]
    have hi := h i
    split
    · split <;> exact hi
    · exact hi
  | recon p err => exact h i
  | tick t tz =>
    rw [Server.step, onBoard_pool]
    exact h i
  | expire =>
    rw [Server.step, onBoard_pool]
    exact h i

/-- A slot that has room left while its block is not complete. -/
def HasRoom (c : ServerConnData) : Prop :=
  ∃ bytes, Received bytes c ∧ (headerText bytes = none → bytes.length < maxHeadLen)

/-- What holds between two callbacks whose bytes end in time. -/
structure HeadInv (s : Server) : Prop where
  inBounds : HeadInBounds s
  slots : ∀ i : Fin 8, (s.pool.get i).conn ≠ none → HasRoom (s.pool.get i)

theorem fresh_headInv (board : Board) : HeadInv (.fresh board) where
  inBounds := by
    refine ⟨List.forall_mem_nil _, fun i => ?_⟩
    simp [Server.fresh, Vector.get, ServerConnData.zero]
  slots i hi := absurd (fresh_conn board i) hi

lemma onBoard_headWrites (f : Rest → Rest) (s : Server) : (s.onBoard f).headWrites = s.headWrites := rfl

theorem step_headWrites_of_ne {s : Server} {e : Callback} (h : ∀ p data uninit, e ≠ .recv p data uninit) :
    (s.step e).headWrites = s.headWrites := by
  cases e with
  | connect p =>
    rw [Server.step, httpdConnectCb]
    cases findFree s.pool <;> rfl
  | recv p data uninit => exact absurd rfl (h p data uninit)
  | sent p =>
    rw [Server.step, httpdSentCb]
    cases httpdFindConnData s.pool p <;> rfl
  | discon state => rfl
  | recon p err => rfl
  | tick t tz => rw [Server.step, onBoard_headWrites]
  | expire => rw [Server.step, onBoard_headWrites]

section Step

variable {s : Server} (h : HeadInv s)
include h

theorem recv_writes_iff (p : Ptr) (data : Bytes) (uninit : ℕ → ℕ → Byte) :
    Inside (httpdRecvCb p data uninit s).headWrites ↔ TakesInTime s (.recv p data uninit) := by
  have hold := h.inBounds.writes
  rw [httpdRecvCb, TakesInTime]
  cases hfind : httpdFindConnData s.pool p with
  | none => exact iff_of_true hold fun i hi => absurd hi (by simp)
  | some i =>
    obtain ⟨bytes, hbytes, hroom⟩ := h.slots i (by rw [httpdFindConnData_eq_some hfind]; simp)
    simp only [Option.some.injEq, forall_eq']
    by_cases hnone : headerText bytes = none
    · have hlen := hroom hnone
      have hheld : held (s.pool.get i) = bytes := by
        rw [hbytes.held_eq hnone, List.take_of_length_le hlen.le]
      rw [recvLoop_inside p uninit data hbytes hnone hlen, hheld, (hbytes.waiting hnone).1]
      exact ⟨fun hw _ => hw.2, fun hw => ⟨hold, hw (by decide)⟩⟩
    · have hdone := hbytes.done hnone
      rw [recvLoop_of_done p uninit data hdone, hdone]
      exact iff_of_true hold fun hneg => absurd hneg (by decide)

theorem step_headInBounds_iff (e : Callback) : HeadInBounds (s.step e) ↔ TakesInTime s e := by
  have hpos := step_headPos_le h.inBounds.headPos e
  have hiff : HeadInBounds (s.step e) ↔ Inside (s.step e).headWrites :=
    ⟨HeadInBounds.writes, fun hw => ⟨hw, hpos⟩⟩
  rw [hiff]
  cases e with
  | recv p data uninit => exact recv_writes_iff h p data uninit
  | _ =>
    rw [step_headWrites_of_ne (by simp)]
    exact iff_of_true h.inBounds.writes trivial

theorem step_headInv {e : Callback} (hok : TakesInTime s e) : HeadInv (s.step e) := by
  refine ⟨(step_headInBounds_iff h e).2 hok, fun k hk => ?_⟩
  have hnew : ∀ c p, HasRoom (ServerConnData.takeOver c p) := fun _ _ =>
    ⟨[], received_nil rfl rfl, fun _ => by decide⟩
  refine step_slots h.slots hnew ?_ hk
  rintro p data uninit i rfl hfind ⟨bytes, hbytes, hroom⟩
  refine ⟨bytes ++ data, (recv_spec hfind hbytes data uninit).1, fun hall => ?_⟩
  have hnone : headerText bytes = none := by
    by_contra hsome
    obtain ⟨t, ht⟩ := Option.ne_none_iff_exists'.1 hsome
    rw [headerText_append ht] at hall
    cases hall
  have hheld : held (s.pool.get i) = bytes := by
    rw [hbytes.held_eq hnone, List.take_of_length_le (hroom hnone).le]
  have hends := hok i hfind (by rw [(hbytes.waiting hnone).1]; decide)
  rw [hheld] at hends
  exact hends.length_lt hall

end Step

/-- **The heads are not overrun** in a run of the server exactly if all bytes that come in for a header
block end in time. -/
theorem headInBounds_iff (board : Board) (es : List Callback) :
    Throughout Server.step HeadInBounds (.fresh board) es ↔
      Along Server.step TakesInTime (.fresh board) es := by
  have hall : Along Server.step (fun _ _ => True) (.fresh board) es :=
    (along_event_iff Server.step).2 fun _ _ => trivial
  exact throughout_iff_along (V := fun _ _ => True) (I := HeadInv) Server.step
    (fun s e h _ hok => step_headInv h hok) (fun s e h _ => step_headInBounds_iff h e)
    (fresh_headInv board) (fresh_headInv board).inBounds hall

theorem headerText_of_notMem {bytes : Bytes} (h : cr ∉ bytes) : headerText bytes = none := by
  rw [headerText_eq_none, strstr_eq_none_iff]
  intro hin
  have hmem : cr ∈ cstr (bytes.take maxHeadLen) := hin.subset (by decide)
  exact h (List.mem_of_mem_take ((cstr_prefix_self _).subset hmem))

/-- **A block that fills `head`**: the NUL behind the last byte is written outside. -/
theorem not_headInBounds_full : ¬ Throughout Server.step HeadInBounds (.fresh (Rest.start .zero).board)
    [.connect 1, .recv 1 (List.replicate 1024 88) fun _ _ => 0] := by
  intro h
  have hlen : (List.replicate 1024 (88 : Byte)).length = maxHeadLen := List.length_replicate
  have hcr : cr ∉ List.replicate 1024 (88 : Byte) := fun hmem =>
    absurd (List.eq_of_mem_replicate hmem) (by decide)
  generalize List.replicate 1024 (88 : Byte) = data at h hlen hcr
  have hend := run_of_throughout Server.step h
  rw [run_cons, run_cons, run_nil] at hend
  have hinv := step_headInv (fresh_headInv (Rest.start .zero).board) (e := .connect 1) trivial
  have hfull := (step_headInBounds_iff hinv _).1 hend 0 rfl (by decide)
  change EndsInTime data at hfull
  have hlt := hfull.length_lt (headerText_of_notMem hcr)
  omega

end Esp8266Rest.Http
