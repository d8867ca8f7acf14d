import Esp8266Rest.Http.Pool
import Esp8266Rest.Url.Effects

/-!
# From the bytes of a connection to its requests

The requests that a connection makes follow from its bytes (`recv_spec`), and what they add to the log
from their URLs (`handle_effect`).  On this rest the results about one header block: which handler
it runs, what that copies, how often it answers, and what the lines below the first can do.
-/

namespace Esp8266Rest.Http

open Esp8266Rest.Lib.CStr Esp8266Rest.Model Esp8266Rest.Url

/-! ### The server and the bytes of a connection -/

/-- The slot `i` belongs to `arg`, and nothing came in on it yet. -/
structure Accepted (s : Server) (arg : Ptr) (i : Fin 8) : Prop where
  found : httpdFindConnData s.pool arg = some i
  headPos : (s.pool.get i).priv.headPos = 0
  postLen : (s.pool.get i).postLen = -1

theorem received_nil {c : ServerConnData} (hpos : c.priv.headPos = 0) (hlen : c.postLen = -1) :
    Received [] c where
  waiting _ := ⟨hlen, hpos, List.nil_prefix, fun h => absurd rfl h⟩
  done h := absurd (by decide) h

theorem connect_accepted {s : Server} {arg : Ptr} (hout : httpdFindConnData s.pool arg = none)
    {i : Fin 8} (hfree : findFree s.pool = some i) : Accepted (httpdConnectCb arg s) arg i := by
  have hslot : (httpdConnectCb arg s).pool.get i = (s.pool.get i).takeOver arg := by
    unfold httpdConnectCb
    rw [hfree]
    dsimp only
    rw [get_setAt, if_pos rfl]
  refine ⟨httpdFindConnData_of_unique fun j => ?_, by rw [hslot]; rfl, by rw [hslot]; rfl⟩
  rw [httpdConnectCb_conn s hfree]
  split
  · rename_i hj
    simp [hj]
  · rename_i hj
    exact iff_of_false (httpdFindConnData_eq_none_iff.1 hout j) hj

section Recv

variable {s : Server} {arg : Ptr} {i : Fin 8} {bytes : Bytes}

/-- **A receive callback** handles the requests that its data completes. -/
theorem recv_spec (hfind : httpdFindConnData s.pool arg = some i) (hr : Received bytes (s.pool.get i))
    (data : Bytes) (uninit : ℕ → ℕ → Byte) :
    Received (bytes ++ data) ((httpdRecvCb arg data uninit s).pool.get i) ∧
    (httpdRecvCb arg data uninit s).board =
      (handle arg uninit (newlyRequested bytes data) ⟨s.board, [], s.log⟩).board ∧
    (httpdRecvCb arg data uninit s).log =
      (handle arg uninit (newlyRequested bytes data) ⟨s.board, [], s.log⟩).log := by
  obtain ⟨hslot, hrest⟩ := recvLoop_spec arg uninit data
    (s := ⟨s.pool.get i, ⟨s.board, [], s.log⟩, s.headWrites⟩) hr
  unfold httpdRecvCb
  rw [hfind]
  dsimp only
  rw [get_setAt, if_pos rfl, hrest]
  exact ⟨hslot, rfl, rfl⟩

theorem recv_accepted (h : Accepted s arg i) (data : Bytes) (uninit : ℕ → ℕ → Byte) :
    (httpdRecvCb arg data uninit s).board =
      (handle arg uninit (requested data) ⟨s.board, [], s.log⟩).board ∧
    (httpdRecvCb arg data uninit s).log =
      (handle arg uninit (requested data) ⟨s.board, [], s.log⟩).log := by
  have hnew : newlyRequested [] data = requested data := by
    rw [← List.nil_append data, requested_append]
    rfl
  obtain ⟨-, hboard, hlog⟩ := recv_spec h.found (received_nil h.headPos h.postLen) data uninit
  rw [hnew] at hboard hlog
  exact ⟨hboard, hlog⟩

end Recv

/-! ### The effect of several requests -/

section Handle

variable (arg : Ptr) (uninit : ℕ → ℕ → Byte) (r : Rest)

theorem handle_copies (paths : List Bytes) : (handle arg uninit paths r).log.copies =
    r.log.copies ++ paths.flatMap requestCopies := by
  induction paths generalizing r with
  | nil => simp
  | cons u paths ih =>
    rw [handle, List.foldl_cons]
    refine (ih _).trans ?_
    rw [(request_effect ⟨arg, u, uninit⟩ r).copies, List.flatMap_cons, List.append_assoc]

theorem handle_handlers (paths : List Bytes) : (handle arg uninit paths r).log.handlers =
    r.log.handlers ++ paths.flatMap fun u => runs ⟨arg, u, uninit⟩ := by
  induction paths generalizing r with
  | nil => simp
  | cons u paths ih =>
    rw [handle, List.foldl_cons]
    refine (ih _).trans ?_
    rw [(request_effect ⟨arg, u, uninit⟩ r).handlers, List.flatMap_cons, List.append_assoc]

theorem handle_of_notMem {paths : List Bytes} (h : ∀ u ∈ paths, command u ∉ commandNames) :
    (handle arg uninit paths r).board = r.board ∧
    (handle arg uninit paths r).log.handlers = r.log.handlers ∧
    (handle arg uninit paths r).log.sent = r.log.sent := by
  induction paths generalizing r with
  | nil => exact ⟨rfl, rfl, rfl⟩
  | cons u paths ih =>
    obtain ⟨hu, h⟩ := List.forall_mem_cons.1 h
    have hnot : command (⟨arg, u, uninit⟩ : Conn).url ∉ commandNames := hu
    rw [handle, List.foldl_cons, parseURLCommand_of_notMem hnot]
    exact ih (undispatched ⟨arg, u, uninit⟩ r) h

end Handle

section OneRecv

variable {s : Server} {arg : Ptr} {i : Fin 8} (h : Accepted s arg i) (data : Bytes)
  (uninit : ℕ → ℕ → Byte)
include h

lemma recv_copies : (httpdRecvCb arg data uninit s).log.copies =
    s.log.copies ++ (requested data).flatMap requestCopies := by
  rw [(recv_accepted h data uninit).2, handle_copies]

lemma recv_handlers : (httpdRecvCb arg data uninit s).log.handlers =
    s.log.handlers ++ (requested data).flatMap fun u => runs ⟨arg, u, uninit⟩ := by
  rw [(recv_accepted h data uninit).2, handle_handlers]

section One

variable {data : Bytes} {u : Bytes} (hu : requested data = [u])
include hu

theorem recv_sent : if IsAnswered u then
      ∃ buf, buf ≠ [] ∧ (httpdRecvCb arg data uninit s).log.sent = s.log.sent ++ [(arg, buf)]
    else (httpdRecvCb arg data uninit s).log.sent = s.log.sent := by
  rw [(recv_accepted h data uninit).2, hu]
  exact (request_effect ⟨arg, u, uninit⟩ ⟨s.board, [], s.log⟩).sent

lemma recv_safeFrom_iff : SafeFrom s.log (httpdRecvCb arg data uninit s).log ↔ Proper u := by
  rw [(recv_accepted h data uninit).2, hu]
  exact (request_effect ⟨arg, u, uninit⟩ ⟨s.board, [], s.log⟩).safeFrom_iff

end One

end OneRecv

/-- A fresh server with one connection. -/
def oneClient : Server := httpdConnectCb 1 (.fresh (Rest.start .zero).board)

lemma oneClient_accepted : Accepted oneClient 1 0 := connect_accepted rfl rfl

/-! ### Header blocks -/

/-- `text` and `blockEnd` are a header block: the end is the first one. -/
def IsText (text : Bytes) : Prop := strstr (text ++ blockEnd) blockEnd = some text.length

instance (text : Bytes) : Decidable (IsText text) := by unfold IsText; infer_instance

theorem headerText_block {text : Bytes} (h : IsText text) (h0 : (0 : Byte) ∉ text)
    (hlen : (text ++ blockEnd).length ≤ maxHeadLen) : headerText (text ++ blockEnd) = some text := by
  have h0' : (0 : Byte) ∉ text ++ blockEnd := by
    rw [List.mem_append]
    rintro (h' | h')
    · exact h0 h'
    · revert h'
      decide
  rw [headerText, List.take_of_length_le hlen, cstr_eq_self h0', h, Option.map_some, List.take_left]

/-- **The requests of a block** are those of its text, and none if there is a NUL in it. -/
theorem requested_block {text : Bytes} (h : IsText text)
    (hlen : (text ++ blockEnd).length ≤ maxHeadLen) :
    requested (text ++ blockEnd) = if (0 : Byte) ∈ text then [] else requestPaths text := by
  by_cases h0 : (0 : Byte) ∈ text
  · rw [if_pos h0, requested, headerText, List.take_of_length_le hlen, cstr_append_of_mem h0]
    cases hs : strstr (cstr text) blockEnd with
    | none => rfl
    | some k =>
      -- an end in front of the NUL would be an earlier one
      obtain ⟨t, ht⟩ := (cstr_prefix_self text).trans (List.prefix_append text blockEnd)
      have hk := strstr_append hs t
      rw [ht, h, Option.some.injEq] at hk
      have hle := strstr_le hs
      have hcstr := length_cstr_le text
      simp only [blockEnd, crlf, List.length_append, List.length_cons, List.length_nil] at hle
      omega
  · rw [if_neg h0, requested, headerText_block h h0 hlen]
    rfl

theorem requestPaths_lines {text l : Bytes} {hs : List Bytes} (h : lines text = l :: hs) :
    requestPaths text = (requestPath l).toList ++ hs.filterMap requestPath := by
  rw [requestPaths, h, List.filterMap_cons]
  cases requestPath l <;> rfl

theorem filterMap_requestPath {hs : List Bytes} (h : ∀ l ∈ hs, isRequestLine l = false) :
    hs.filterMap requestPath = [] := by
  rw [List.filterMap_eq_nil_iff]
  intro l hl
  refine if_neg fun hc => ?_
  rw [h l hl] at hc
  exact absurd hc.1 (by decide)

/-- What a request line starts with. -/
def methods : List Bytes := [ascii "GET ", ascii "POST "]

/-- **The path of a request line** is the URL up to a `?`. -/
theorem requestPath_line {m url : Bytes} (hm : m ∈ methods) (hurl : space ∉ url) (version : Bytes) :
    requestPath (m ++ url ++ space :: version) = some (url.takeWhile (· ≠ question)) := by
  have htake : (url ++ space :: version).takeWhile (· ≠ space) = url := by
    rw [List.takeWhile_append_of_pos fun b hb => by simpa using fun e : b = space => hurl (e ▸ hb)]
    simp
  have hline : ∀ w : Bytes, space ∉ w → isRequestLine (w ++ space :: (url ++ space :: version)) =
      true → requestPath (w ++ space :: (url ++ space :: version)) =
        some (url.takeWhile (· ≠ question)) := by
    intro w hw hreq
    have hafter : afterMethod (w ++ space :: (url ++ space :: version)) = url ++ space :: version := by
      unfold afterMethod
      rw [List.takeWhile_append_of_pos fun b hb => by simpa using fun e : b = space => hw (e ▸ hb)]
      simp
    rw [requestPath, if_pos ⟨hreq, by rw [hafter]; simp⟩, hafter, htake]
  simp only [methods, List.mem_cons, List.not_mem_nil, or_false] at hm
  rcases hm with rfl | rfl
  · have hsplit : ascii "GET " ++ url ++ space :: version =
        ascii "GET" ++ space :: (url ++ space :: version) := by
      rw [List.append_assoc]; rfl
    rw [hsplit]
    exact hline _ (by decide) rfl
  · have hsplit : ascii "POST " ++ url ++ space :: version =
        ascii "POST" ++ space :: (url ++ space :: version) := by
      rw [List.append_assoc]; rfl
    rw [hsplit]
    exact hline _ (by decide) rfl

end Esp8266Rest.Http
