import Esp8266Rest.Http.Isolation

/-!
# The lines that are handed over

`lineStarts` writes down, for a connection in a run of the server, each time that `httpdRecvCb` starts to
take a header block apart: how many bytes of the connection have come in by then, and the texts that
are handed to `ServerParseHeaderURL`.  It follows from the bytes alone (`lineStarts_run`): once, at the
end of the block, with the lines of its text (`lines_handed`).
-/

namespace Esp8266Rest.Http

open Esp8266Rest.Lib.CStr Esp8266Rest.Lib.Runs Esp8266Rest.Model

/-- A start of the loop over the lines: the number of bytes that have come in, and the texts that are
handed over. -/
abbrev LineStart := ℕ × List Bytes

/-- The starts that the bytes of a connection ask for. -/
def started (bytes : Bytes) : List LineStart :=
  (headerText bytes).elim [] fun t => [((t ++ blockEnd).length, headerLines t)]

lemma started_of_none {bytes : Bytes} (h : headerText bytes = none) : started bytes = [] := by
  rw [started, h]
  rfl

theorem started_append {bytes : Bytes} (h : headerText bytes ≠ none) (data : Bytes) :
    started (bytes ++ data) = started bytes := by
  obtain ⟨t, ht⟩ := Option.ne_none_iff_exists'.1 h
  rw [started, started, headerText_append ht, ht]

section Receive

variable (arg : Ptr) (uninit : ℕ → ℕ → Byte)

/-- The starts in the loop of `httpdRecvCb`, with `n` bytes of the connection before. -/
def starts : ℕ → Bytes → Session → List LineStart
  | _, [], _ => []
  | n, b :: data, s =>
    if s.slot.postLen < 0 then
      (if Begins b s then [(n + 1, handed arg uninit 0 (begun b s))] else []) ++
        starts (n + 1) data (headerByte arg uninit b s)
    else if s.slot.priv.postPos ≠ -1 ∧ s.slot.postLen ≠ 0 ∧ s.slot.priv.postPos ≤ s.slot.postLen then
      let (slot, last) := s.slot.putPost b
      if last then [] else starts (n + 1) data { s with slot }
    else starts (n + 1) data s

/-- Behind the block nothing starts. -/
theorem starts_of_done (n : ℕ) (data : Bytes) {s : Session} (h : s.slot.postLen = 0) :
    starts arg uninit n data s = [] := by
  induction data generalizing n with
  | nil => rfl
  | cons b data ih => rw [starts, if_neg (by rw [h]; decide), if_neg (by simp [h]), ih]

theorem started_concat {bytes : Bytes} {s : Session} (hnone : headerText bytes = none)
    (hold : Holds s.slot (bytes.take maxHeadLen)) (b : Byte) : started (bytes ++ [b]) =
      if Begins b s then [(bytes.length + 1, handed arg uninit 0 (begun b s))] else [] := by
  have hiff := begins_iff hnone hold b
  cases htext : headerText (bytes ++ [b]) with
  | none => rw [started_of_none htext, if_neg fun h => hiff.1 h htext]
  | some t =>
    have hbegins : Begins b s := hiff.2 (by rw [htext]; simp)
    obtain ⟨-, hend, -⟩ := headerText_concat hnone htext
    rw [if_pos hbegins, handed_spec arg uninit (begun_holds hnone hold b htext), started, htext,
      Option.elim_some, ← hend, List.length_append, List.length_singleton]

/-- **Receiving** starts what its data completes. -/
theorem starts_spec (data : Bytes) {bytes : Bytes} {s : Session} (h : Received bytes s.slot) :
    started (bytes ++ data) = started bytes ++ starts arg uninit bytes.length data s := by
  induction data generalizing bytes s with
  | nil => rw [List.append_nil, starts, List.append_nil]
  | cons b data ih =>
    by_cases hnone : headerText bytes = none
    · obtain ⟨hlen, hold⟩ := h.waiting hnone
      obtain ⟨hr, -⟩ := headerByte_spec arg uninit hnone hold b hlen
      have key := ih hr
      rw [List.append_assoc, List.singleton_append, List.length_append, List.length_singleton] at key
      rw [key, starts, if_pos (by rw [hlen]; decide), started_concat arg uninit hnone hold b,
        started_of_none hnone, List.nil_append]
    · rw [started_append hnone, starts_of_done arg uninit _ _ (h.done hnone), List.append_nil]

theorem recvLoop_append (data more : Bytes) {bytes : Bytes} {s : Session} (h : Received bytes s.slot)
    (hdone : headerText (bytes ++ data) ≠ none) :
    recvLoop arg uninit (data ++ more) s = recvLoop arg uninit data s := by
  induction data generalizing bytes s with
  | nil =>
    rw [List.append_nil] at hdone
    exact recvLoop_of_done arg uninit more (h.done hdone)
  | cons b data ih =>
    by_cases hnone : headerText bytes = none
    · obtain ⟨hlen, hold⟩ := h.waiting hnone
      obtain ⟨hr, -⟩ := headerByte_spec arg uninit hnone hold b hlen
      have hwait : s.slot.postLen < 0 := by rw [hlen]; decide
      rw [List.cons_append, recvLoop, recvLoop, if_pos hwait, if_pos hwait]
      exact ih hr (by rwa [List.append_assoc, List.singleton_append])
    · rw [recvLoop_of_done arg uninit _ (h.done hnone), recvLoop_of_done arg uninit _ (h.done hnone)]

end Receive

/-! ### Runs of the server -/

/-- The starts in one callback, for the connection `p` with `n` bytes before. -/
def startsOf (p : Ptr) (n : ℕ) (s : Server) : Callback → List LineStart
  | .recv q data uninit =>
    if q = p then
      match httpdFindConnData s.pool p with
      | none => []
      | some i => starts p uninit n data ⟨s.pool.get i, ⟨s.board, [], s.log⟩, s.headWrites⟩
    else []
  | _ => []

/-- The starts in a run, for the connection `p` with `n` bytes before. -/
def lineStarts (p : Ptr) : ℕ → Server → List Callback → List LineStart
  | _, _, [] => []
  | n, s, e :: es => startsOf p n s e ++ lineStarts p (n + (received p [e]).length) (s.step e) es

section Runs

variable {base : List HandlerRun} {p : Ptr} {bytes : Bytes} {s : Server}

/-- **One callback** starts what the bytes ask for that it brings. -/
theorem startsOf_spec (h : Serves base p bytes s) (e : Callback) :
    started (bytes ++ received p [e]) = started bytes ++ startsOf p bytes.length s e := by
  have hnil : started (bytes ++ []) = started bytes ++ [] := by rw [List.append_nil, List.append_nil]
  cases e with
  | recv q data uninit =>
    by_cases hq : q = p
    · subst hq
      have hrec : received q [.recv q data uninit] = data := by simp [received]
      rw [hrec, startsOf, if_pos rfl]
      rcases h.slot with ⟨i, hslot, hr⟩ | ⟨hno, hend⟩
      · rw [httpdFindConnData_of_unique hslot]
        exact starts_spec q uninit data
          (s := ⟨s.pool.get i, ⟨s.board, [], s.log⟩, s.headWrites⟩) hr
      · rw [httpdFindConnData_eq_none_iff.2 hno, started, headerText_stable hend]
        exact (List.append_nil _).symm
    · have hrec : received p [.recv q data uninit] = [] := by simp [received, hq]
      rw [hrec, startsOf, if_neg hq]
      exact hnil
  | connect q => exact hnil
  | sent q => exact hnil
  | discon state => exact hnil
  | recon q err => exact hnil
  | tick sntpTime sntpTz => exact hnil
  | expire => exact hnil

lemma received_cons (p : Ptr) (e : Callback) (es : List Callback) :
    received p (e :: es) = received p [e] ++ received p es := by simp [received]

/-- **A run** starts what the bytes of the connection ask for. -/
theorem lineStarts_run (h : Serves base p bytes s) (life : List Callback) (hconn : .connect p ∉ life)
    (hends : ∀ l e l', life = l ++ e :: l' → Ends p e → blockEnd <:+: bytes ++ received p l) :
    started (bytes ++ received p life) = started bytes ++ lineStarts p bytes.length s life := by
  induction life generalizing bytes s with
  | nil => rw [lineStarts, List.append_nil]; exact congrArg started (List.append_nil bytes)
  | cons e es ih =>
    have hne : e ≠ .connect p := fun he => hconn (by simp [he])
    have hend : Ends p e → blockEnd <:+: bytes := fun he => by
      simpa [received] using hends [] e es rfl he
    have hnext := step_serves h hne hend
    have key := ih hnext (fun hm => hconn (List.mem_cons_of_mem e hm)) fun l e' l' heq he => by
      rw [List.append_assoc, ← received_cons]
      exact hends (e :: l) e' l' (by rw [heq]; rfl) he
    rw [List.append_assoc, ← received_cons, startsOf_spec h e, List.length_append, List.append_assoc] at key
    exact key

theorem recv_append (h : Serves base p bytes s) {data : Bytes}
    (hdone : headerText (bytes ++ data) ≠ none) (more : Bytes) (uninit : ℕ → ℕ → Byte) :
    httpdRecvCb p (data ++ more) uninit s = httpdRecvCb p data uninit s := by
  unfold httpdRecvCb
  rcases h.slot with ⟨i, hslot, hr⟩ | ⟨hno, -⟩
  · rw [httpdFindConnData_of_unique hslot]
    dsimp only
    rw [recvLoop_append p uninit data more (s := ⟨s.pool.get i, ⟨s.board, [], s.log⟩, s.headWrites⟩) hr
      hdone]
  · rw [httpdFindConnData_eq_none_iff.2 hno]

end Runs

/-- A block of two lines, the first one empty, in two segments, and bytes behind it. -/
def twoLines : List Callback :=
  [.recv 1 (ascii "\r\nGET /status x") fun _ _ => 0, .recv 1 (ascii "\r\n\r\nGET") fun _ _ => 0]

end Esp8266Rest.Http
