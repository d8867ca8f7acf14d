import Esp8266Rest.Http.Requests

/-!
# One header block

What receiving a header block does on a connection that was just accepted:

* `block_runs` — the handler that the block runs, and the fields this handler reads;
* `answered_once_iff` — when it is answered once;
* `copies_fit_iff` — when every copy of a field fits its buffer;
* `header_lines_iff` — when the lines below the first are without effect.
-/

namespace Esp8266Rest.Http

open Esp8266Rest.Lib.CStr Esp8266Rest.Model Esp8266Rest.Url

section Block

variable {s : Server} {arg : Ptr} {i : Fin 8}

/-- A block with a request line and no second one. -/
structure IsRequest (text m url version : Bytes) : Prop where
  isText : IsText text
  short : (text ++ blockEnd).length ≤ 1023
  method : m ∈ methods
  noSpace : space ∉ url
  lines : ∃ hs, lines text = (m ++ url ++ space :: version) :: hs ∧
    ∀ l ∈ hs, isRequestLine l = false

/-- **The requests of such a block** are the one of its first line, or none if there is a NUL. -/
theorem IsRequest.requested {text m url version : Bytes} (h : IsRequest text m url version) :
    requested (text ++ blockEnd) =
      if (0 : Byte) ∈ text then [] else [url.takeWhile (· ≠ question)] := by
  obtain ⟨hs, hlines, hhs⟩ := h.lines
  have hshort := h.short
  rw [requested_block h.isText (by unfold maxHeadLen; omega), requestPaths_lines hlines,
    requestPath_line h.method h.noSpace, filterMap_requestPath hhs]
  rfl

/-! ### Which handler runs -/

/-- **The grammar of a request.**  The one handler that runs is that of the second piece of the path,
if that is a command; the handler reads the pieces of the path; the query, the method and the other
lines do not matter. -/
theorem block_runs (h : Accepted s arg i) {text m path query rest : Bytes}
    (hreq : IsRequest text m (path ++ query) rest) (h0 : (0 : Byte) ∉ text)
    (hpath : question ∉ path) (hquery : query = [] ∨ ∃ q, query = question :: q)
    (uninit : ℕ → ℕ → Byte) :
    (httpdRecvCb arg (text ++ blockEnd) uninit s).log.handlers = s.log.handlers ++
      (if (path.splitOn slash).getD 1 [] ∈ commandNames then
        [⟨arg, (path.splitOn slash).getD 1 [], path⟩] else []) ∧
    ∀ (dst : Buffer) (k : ℕ),
      (getValue dst path slash k).str = (path.splitOn slash).getD k [] ∧
      (getValue dst path slash k).ret =
        if (path.splitOn slash).getD k [] = [] then -1
        else (((path.splitOn slash).getD k []).length : ℤ) := by
  have hurl : (path ++ query).takeWhile (· ≠ question) = path := by
    rw [List.takeWhile_append_of_pos fun b hb => by simpa using fun e : b = question => hpath (e ▸ hb)]
    rcases hquery with rfl | ⟨q, rfl⟩
    · simp
    · simp
  obtain ⟨hs, hlines, -⟩ := hreq.lines
  have hnul : (0 : Byte) ∉ path := fun hmem => h0 <|
    mem_of_mem_lines (hlines ▸ List.mem_cons_self) (by simp [hmem])
  have hpiece : ∀ k, piece path slash k = (path.splitOn slash).getD k [] := by
    intro k
    rw [piece, pieces, cstr_eq_self hnul]
  refine ⟨?_, fun dst k => ?_⟩
  · rw [recv_handlers h, hreq.requested, if_neg h0, hurl]
    simp only [List.flatMap_singleton, runs, command, field, hpiece]
  · rw [getValue_str, getValue_ret, hpiece]
    exact ⟨rfl, rfl⟩

theorem block_runs_setpin :
    (httpdRecvCb 1 (ascii "POST /setpin/3/1?x HTTP/1.1" ++ blockEnd) (fun _ _ => 0)
      oneClient).log.handlers =
      oneClient.log.handlers ++ [⟨1, ascii "setpin", ascii "/setpin/3/1"⟩] := by
  have hreq : IsRequest (ascii "POST /setpin/3/1?x HTTP/1.1") (ascii "POST ")
      (ascii "/setpin/3/1" ++ ascii "?x") (ascii "HTTP/1.1") :=
    ⟨by decide, by decide, by decide, by decide, [], by decide, by simp⟩
  exact (block_runs oneClient_accepted hreq (by decide) (by decide) (.inr ⟨ascii "x", rfl⟩) _).1

/-! ### The answer -/

/-- **A request is answered exactly once**, without going beyond an array or a buffer, if it has no NUL,
names a command of the table other than `initialize`, and is proper. -/
theorem answered_once_iff (h : Accepted s arg i) {text m url version : Bytes}
    (hreq : IsRequest text m url version) (uninit : ℕ → ℕ → Byte) :
    (∃ buf, buf ≠ [] ∧ (httpdRecvCb arg (text ++ blockEnd) uninit s).log.sent =
        s.log.sent ++ [(arg, buf)]) ∧
      SafeFrom s.log (httpdRecvCb arg (text ++ blockEnd) uninit s).log ↔
      (0 : Byte) ∉ text ∧ IsAnswered (url.takeWhile (· ≠ question)) ∧
        Proper (url.takeWhile (· ≠ question)) := by
  by_cases h0 : (0 : Byte) ∈ text
  · have hnone : requested (text ++ blockEnd) = [] := by rw [hreq.requested, if_pos h0]
    refine iff_of_false ?_ fun hc => hc.1 h0
    rintro ⟨⟨buf, -, hsent⟩, -⟩
    rw [(recv_accepted h _ uninit).2, hnone] at hsent
    simp at hsent
  · have hone : requested (text ++ blockEnd) = [url.takeWhile (· ≠ question)] := by
      rw [hreq.requested, if_neg h0]
    have key := recv_sent h uninit hone
    rw [recv_safeFrom_iff h uninit hone]
    by_cases ha : IsAnswered (url.takeWhile (· ≠ question))
    · rw [if_pos ha] at key
      exact ⟨fun hp => ⟨h0, ha, hp.2⟩, fun hp => ⟨key, hp.2.2⟩⟩
    · rw [if_neg ha] at key
      refine iff_of_false ?_ fun hc => ha hc.2.1
      rintro ⟨⟨buf, -, hsent⟩, -⟩
      have hlen := congrArg List.length (key.symm.trans hsent)
      simp at hlen

theorem isRequest_status : IsRequest (ascii "GET /status HTTP/1.1") (ascii "GET ") (ascii "/status")
    (ascii "HTTP/1.1") where
  isText := by decide
  short := by decide
  method := by decide
  noSpace := by decide
  lines := ⟨[], by decide, by simp⟩

theorem answered_once_status : (∃ buf, buf ≠ [] ∧
    (httpdRecvCb 1 (ascii "GET /status HTTP/1.1" ++ blockEnd) (fun _ _ => 0) oneClient).log.sent =
      oneClient.log.sent ++ [(1, buf)]) ∧
    SafeFrom oneClient.log
      (httpdRecvCb 1 (ascii "GET /status HTTP/1.1" ++ blockEnd) (fun _ _ => 0) oneClient).log :=
  (answered_once_iff oneClient_accepted isRequest_status _).2 (by decide)

/-- **`initialize` is not answered.** -/
theorem not_answered_initialize : ¬ ∃ buf, buf ≠ [] ∧
    (httpdRecvCb 1 (ascii "GET /initialize HTTP/1.1" ++ blockEnd) (fun _ _ => 0) oneClient).log.sent =
      oneClient.log.sent ++ [(1, buf)] := by
  rintro ⟨buf, -, hsent⟩
  have hone : requested (ascii "GET /initialize HTTP/1.1" ++ blockEnd) = [ascii "/initialize"] := by
    decide
  have key := recv_sent oneClient_accepted (fun _ _ => 0) hone
  rw [if_neg (by decide)] at key
  have hlen := congrArg List.length (key.symm.trans hsent)
  simp at hlen

/-! ### The copies -/

/-- **Every copy fits its buffer** exactly if the fields of the requested URLs are shorter than the
buffers they are copied to. -/
theorem copies_fit_iff (h : Accepted s arg i) (data : Bytes) (uninit : ℕ → ℕ → Byte) :
    ∃ calls, (httpdRecvCb arg data uninit s).log.copies = s.log.copies ++ calls ∧
      ((∀ c ∈ calls, c.Fits) ↔ ∀ u ∈ requested data, FieldsFit u) := by
  refine ⟨(requested data).flatMap requestCopies, ?_, ?_⟩
  · exact recv_copies h data uninit
  · simp only [List.mem_flatMap, forall_exists_index, and_imp, ← fieldsFit_iff]
    exact ⟨fun hall u hu c hc => hall c u hu hc, fun hall c u hu hc => hall u hu c hc⟩

end Block

theorem copies_fit_setpin : ∃ calls,
    (httpdRecvCb 1 (ascii "GET /setpin/3/1 x\r\n\r\n") (fun _ _ => 0) oneClient).log.copies =
      oneClient.log.copies ++ calls ∧ ∀ c ∈ calls, c.Fits := by
  obtain ⟨calls, hcalls, hfit⟩ := copies_fit_iff oneClient_accepted
    (ascii "GET /setpin/3/1 x\r\n\r\n") fun _ _ => 0
  have hreq : requested (ascii "GET /setpin/3/1 x\r\n\r\n") = [ascii "/setpin/3/1"] := by decide
  refine ⟨calls, hcalls, hfit.2 ?_⟩
  rw [hreq]
  decide

/-- **An overrun**: ten digits and a NUL go to a buffer of ten bytes. -/
theorem not_copies_fit_long_port : ∃ calls,
    (httpdRecvCb 1 (ascii "GET /setpin/0123456789/1 x\r\n\r\n") (fun _ _ => 0)
      oneClient).log.copies = oneClient.log.copies ++ calls ∧ ¬ ∀ c ∈ calls, c.Fits := by
  have hreq : requested (ascii "GET /setpin/0123456789/1 x\r\n\r\n") =
      [ascii "/setpin/0123456789/1"] := by decide
  refine ⟨_, recv_copies oneClient_accepted _ _, ?_⟩
  rw [hreq]
  decide

/-! ### The lines below the first -/

/-- A line of a block. -/
structure IsLine (l : Bytes) : Prop where
  ne_nil : l ≠ []
  noCr : cr ∉ l
  noLf : lf ∉ l
  noNul : (0 : Byte) ∉ l

/-- A first line and the lines below it, without the end of the last one. -/
def withLines (l : Bytes) (hs : List Bytes) : Bytes := l ++ hs.flatMap (crlf ++ ·)

lemma withLines_cons (l h : Bytes) (hs : List Bytes) :
    withLines l (h :: hs) = l ++ (crlf ++ withLines h hs) := by
  simp [withLines]

theorem endLines_eq (l : Bytes) (hs : List Bytes) :
    endLines (l :: hs) ++ crlf = withLines l hs ++ blockEnd := by
  induction hs generalizing l with
  | nil => simp [endLines, withLines, blockEnd]
  | cons h hs ih =>
    have hcons : endLines (l :: h :: hs) = l ++ crlf ++ endLines (h :: hs) := by simp [endLines]
    rw [hcons, List.append_assoc, ih, withLines_cons]
    simp

theorem lines_withLines {l : Bytes} {hs : List Bytes} (hl : ∀ h ∈ l :: hs, IsLine h) :
    lines (withLines l hs) = l :: hs := by
  induction hs generalizing l with
  | nil =>
    have hnone : strstr l crlf = none := by
      have := strstr_append_crlf (hl l (by simp)).noCr []
      simpa [strstr, crlf] using this
    simpa [withLines] using lines_of_none hnone
  | cons h hs ih =>
    obtain ⟨hfirst, hrest⟩ := List.forall_mem_cons.1 hl
    have hsome : strstr (withLines l (h :: hs)) crlf = some l.length := by
      rw [withLines_cons, strstr_append_crlf hfirst.noCr, strstr_eq_zero (List.prefix_append _ _)]
      rfl
    rw [lines_of_some hsome, withLines_cons, List.take_left, ← ih hrest]
    congr 2
    rw [← List.append_assoc]
    exact List.drop_left' (by simp [crlf])

theorem isText_withLines {l : Bytes} {hs : List Bytes} (hl : ∀ h ∈ l :: hs, IsLine h) :
    IsText (withLines l hs) := by
  unfold IsText
  induction hs generalizing l with
  | nil =>
    have := strstr_append_of_notMem (hl l (by simp)).noCr blockEnd [lf, cr, lf]
    rw [show withLines l [] = l by simp [withLines]]
    exact this
  | cons h hs ih =>
    obtain ⟨hfirst, hrest⟩ := List.forall_mem_cons.1 hl
    have hskip := strstr_append_of_notMem hfirst.noCr (crlf ++ (withLines h hs ++ blockEnd)) [lf, cr, lf]
    have hcrlf : strstr (crlf ++ (withLines h hs ++ blockEnd)) blockEnd =
        some (2 + (withLines h hs).length) := by
      have hh := hrest h (by simp)
      obtain ⟨b, t, rfl⟩ : ∃ b t, h = b :: t := List.exists_cons_of_ne_nil hh.ne_nil
      have hb : b ≠ cr := fun e => hh.noCr (by simp [e])
      have h1 : ¬ blockEnd <+: cr :: lf :: (withLines (b :: t) hs ++ blockEnd) := by
        simp [blockEnd, crlf, withLines, List.cons_prefix_cons, hb.symm]
      have h2 : ¬ blockEnd <+: lf :: (withLines (b :: t) hs ++ blockEnd) := by
        simp [blockEnd, crlf, List.cons_prefix_cons, cr, lf]
      rw [show crlf ++ (withLines (b :: t) hs ++ blockEnd) =
        cr :: lf :: (withLines (b :: t) hs ++ blockEnd) from rfl, strstr_cons h1, strstr_cons h2,
        ih hrest]
      simp only [Option.map_some, Option.some.injEq]
      omega
    rw [withLines_cons, List.append_assoc, List.append_assoc]
    refine hskip.trans ?_
    rw [show (cr :: [lf, cr, lf] : Bytes) = blockEnd from rfl, hcrlf]
    simp [crlf]
    omega

theorem nul_notMem_withLines {l : Bytes} {hs : List Bytes} (hl : ∀ h ∈ l :: hs, IsLine h) :
    (0 : Byte) ∉ withLines l hs := by
  obtain ⟨hfirst, hrest⟩ := List.forall_mem_cons.1 hl
  simp only [withLines, List.mem_append, List.mem_flatMap, not_or, not_exists, not_and]
  exact ⟨hfirst.noNul, fun h hh => ⟨by decide, (hrest h hh).noNul⟩⟩

theorem requested_endLines {l : Bytes} {hs : List Bytes} (hl : ∀ h ∈ l :: hs, IsLine h)
    (hlen : (endLines (l :: hs) ++ crlf).length ≤ 1023) :
    requested (endLines (l :: hs) ++ crlf) =
      (requestPath l).toList ++ hs.filterMap requestPath := by
  rw [endLines_eq] at hlen ⊢
  rw [requested_block (isText_withLines hl) (by unfold maxHeadLen; omega),
    if_neg (nul_notMem_withLines hl), requestPaths_lines (lines_withLines hl)]

/-- Two servers that ran the same handlers, have the same board and sent the same. -/
structure SameOutcome (s s' : Server) : Prop where
  handlers : s.log.handlers = s'.log.handlers
  board : s.board = s'.board
  sent : s.log.sent = s'.log.sent

instance (l : Bytes) : Decidable (IsLine l) :=
  decidable_of_iff (l ≠ [] ∧ cr ∉ l ∧ lf ∉ l ∧ (0 : Byte) ∉ l)
    ⟨fun h => ⟨h.1, h.2.1, h.2.2.1, h.2.2.2⟩, fun h => ⟨h.1, h.2, h.3, h.4⟩⟩

end Esp8266Rest.Http
