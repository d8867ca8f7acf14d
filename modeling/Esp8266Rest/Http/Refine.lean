import Esp8266Rest.Http.Requests
import Esp8266Rest.Outputs.Bounds

/-!
# The server drives the board

A callback is some events for the board: a receive callback the requests that its data completes, a
tick and an expiry themselves, every other callback none (`boardEvents`).  With this the server refines
the board (`step_refines`), and a run of it is safe exactly if the requests that came in are proper,
whatever bytes come in on whatever connections (`server_safe_iff`).
-/

namespace Esp8266Rest.Http

open Esp8266Rest.Lib.CStr Esp8266Rest.Lib.Runs Esp8266Rest.Model Esp8266Rest.Url
  Esp8266Rest.Outputs

/-! ### What a slot holds -/

/-- The part of a header block that a slot holds. -/
def held (c : ServerConnData) : Bytes := (c.from 0).take c.priv.headPos

/-- The URLs whose requests `data` completes. -/
def completed (c : ServerConnData) (data : Bytes) : List Bytes :=
  if c.postLen < 0 then requested (held c ++ data) else []

/-- What does not fit into `head` asks for nothing. -/
theorem requested_take (bytes : Bytes) : requested (bytes.take maxHeadLen) = requested bytes := by
  have htext : headerText (bytes.take maxHeadLen) = headerText bytes := by
    unfold headerText
    rw [List.take_take, Nat.min_self]
    cases hs : strstr (cstr (bytes.take maxHeadLen)) blockEnd with
    | none => rfl
    | some k =>
      have hle := strstr_le hs
      have hcstr := length_cstr_le (bytes.take maxHeadLen)
      have hlen := List.length_take_le maxHeadLen bytes
      rw [Option.map_some, Option.map_some, List.take_take, Nat.min_eq_left (by omega)]
  rw [requested, requested, htext]

theorem Received.held_eq {bytes : Bytes} {c : ServerConnData} (h : Received bytes c)
    (hnone : headerText bytes = none) : held c = bytes.take maxHeadLen := by
  obtain ⟨-, hold⟩ := h.waiting hnone
  rw [held, hold.headPos]
  exact (List.prefix_iff_eq_take.1 hold.text).symm

theorem Received.completed_eq {bytes : Bytes} {c : ServerConnData} (h : Received bytes c)
    (data : Bytes) : completed c data = newlyRequested bytes data := by
  unfold completed newlyRequested
  by_cases hnone : headerText bytes = none
  · obtain ⟨hlen, -⟩ := h.waiting hnone
    rw [if_pos (by rw [hlen]; decide), if_pos hnone, h.held_eq hnone, ← requested_take (bytes ++ data),
      ← requested_take (bytes.take maxHeadLen ++ data), List.take_append, List.take_append,
      List.take_take, Nat.min_self]
    congr 3
    rw [List.length_take]
    omega
  · rw [if_neg (by rw [h.done hnone]; decide), if_neg hnone]

section Slots

variable {Q : ServerConnData → Prop} {s : Server}
  (h : ∀ i : Fin 8, (s.pool.get i).conn ≠ none → Q (s.pool.get i)) {i : Fin 8}
include h

/-- A new connection takes over a slot without one. -/
theorem connect_slots (hnew : ∀ c p, Q (ServerConnData.takeOver c p)) {p : Ptr}
    (hi : ((httpdConnectCb p s).pool.get i).conn ≠ none) : Q ((httpdConnectCb p s).pool.get i) := by
  rw [httpdConnectCb] at hi ⊢
  cases hfree : findFree s.pool with
  | none =>
    rw [hfree] at hi
    exact h i hi
  | some k =>
    rw [hfree] at hi
    dsimp only at hi ⊢
    rw [get_setAt] at hi ⊢
    split
    · exact hnew _ p
    · rename_i hne
      rw [if_neg hne] at hi
      exact h i hi

theorem recv_slots {p : Ptr} {data : Bytes} {uninit : ℕ → ℕ → Byte}
    (hrecv : ∀ k, httpdFindConnData s.pool p = some k → Q (s.pool.get k) →
      Q ((httpdRecvCb p data uninit s).pool.get k))
    (hi : ((httpdRecvCb p data uninit s).pool.get i).conn ≠ none) :
    Q ((httpdRecvCb p data uninit s).pool.get i) := by
  have hi' : (s.pool.get i).conn ≠ none := fun hc => hi ((httpdRecvCb_conn s p data uninit i).trans hc)
  cases hfind : httpdFindConnData s.pool p with
  | none =>
    rw [httpdRecvCb, hfind]
    exact h i hi'
  | some k =>
    by_cases hik : i = k
    · subst hik
      exact hrecv i hfind (h i hi')
    · rw [httpdRecvCb, hfind]
      dsimp only
      rw [get_setAt, if_neg hik]
      exact h i hi'

theorem sent_slots {p : Ptr} (hi : ((httpdSentCb p s).pool.get i).conn ≠ none) :
    Q ((httpdSentCb p s).pool.get i) := by
  rw [httpdSentCb] at hi ⊢
  cases hfind : httpdFindConnData s.pool p with
  | none =>
    rw [hfind] at hi
    exact h i hi
  | some k =>
    rw [hfind] at hi
    dsimp only at hi ⊢
    rw [get_setAt] at hi ⊢
    split
    · rename_i hik
      rw [if_pos hik] at hi
      exact absurd rfl hi
    · rename_i hik
      rw [if_neg hik] at hi
      exact h i hi

theorem discon_slots {state : Ptr → ℕ} (hi : ((httpdDisconCb state s).pool.get i).conn ≠ none) :
    Q ((httpdDisconCb state s).pool.get i) := by
  obtain ⟨p, hp⟩ := Option.ne_none_iff_exists'.1 hi
  obtain ⟨hp, hg⟩ := (httpdDisconCb_conn s state i p).1 hp
  rw [httpdDisconCb_kept s hp hg]
  exact h i (by rw [hp]; simp)

/-- **The slots with a connection.**  A callback fills one, or lets it receive, and leaves the others
alone or clears them. -/
theorem step_slots {e : Callback} (hnew : ∀ c p, Q (ServerConnData.takeOver c p))
    (hrecv : ∀ p data uninit i, e = .recv p data uninit → httpdFindConnData s.pool p = some i →
      Q (s.pool.get i) → Q ((s.step e).pool.get i))
    (hi : ((s.step e).pool.get i).conn ≠ none) : Q ((s.step e).pool.get i) := by
  cases e with
  | connect p => exact connect_slots h hnew hi
  | recv p data uninit => exact recv_slots h (fun k => hrecv p data uninit k rfl) hi
  | sent p => exact sent_slots h hi
  | discon state => exact discon_slots h hi
  | recon p err => exact h i hi
  | tick t tz =>
    rw [Server.step, onBoard_pool] at hi ⊢
    exact h i hi
  | expire =>
    rw [Server.step, onBoard_pool] at hi ⊢
    exact h i hi

end Slots

/-- A slot with a connection stands for the bytes that came in on it. -/
def Sound (pool : Pool) : Prop := ∀ i : Fin 8, (pool.get i).conn ≠ none → ∃ bytes, Received bytes (pool.get i)

/-- **Every callback keeps the slots sound.** -/
theorem step_sound (s : Server) (e : Callback) (h : Sound s.pool) : Sound (s.step e).pool := by
  intro i hi
  refine step_slots (Q := fun c => ∃ bytes, Received bytes c) h (fun _ _ => ⟨[], received_nil rfl rfl⟩) ?_ hi
  rintro p data uninit k rfl hfind ⟨bytes, hbytes⟩
  exact ⟨bytes ++ data, (recv_spec hfind hbytes data uninit).1⟩

lemma fresh_sound (board : Board) : Sound (Server.fresh board).pool := by
  intro i hi
  exact absurd (fresh_conn board i) hi

/-! ### The board below -/

/-- The state that a callback of the server starts its work on the board with. -/
def toRest (s : Server) : Rest := ⟨s.board, [], s.log⟩

/-- What a callback is for the board. -/
def boardEvents (s : Server) : Callback → List Event
  | .recv arg data uninit =>
    match httpdFindConnData s.pool arg with
    | none => []
    | some i => (completed (s.pool.get i) data).map fun u => .request ⟨arg, u, uninit⟩
  | .tick sntpTime sntpTz => [.tick sntpTime sntpTz]
  | .expire => [.expire]
  | _ => []

/-- The requests of a receive callback are steps of the board: each leaves the send buffer empty. -/
theorem handle_eq_run (arg : Ptr) (uninit : ℕ → ℕ → Byte) (urls : List Bytes) {r : Rest}
    (h : r.sendBuff = []) :
    handle arg uninit urls r = run step r (urls.map fun u => .request ⟨arg, u, uninit⟩) ∧
    (handle arg uninit urls r).sendBuff = [] := by
  induction urls generalizing r with
  | nil => exact ⟨rfl, h⟩
  | cons u urls ih =>
    have hr : { r with sendBuff := [] } = r := by rw [← h]
    have hstep : step r (.request ⟨arg, u, uninit⟩) = parseURLCommand ⟨arg, u, uninit⟩ r := by
      rw [step, hr]
    rw [handle, List.foldl_cons, List.map_cons, run_cons, hstep]
    exact ih ((request_effect ⟨arg, u, uninit⟩ r).sendBuff h)

theorem tick_sendBuff {r : Rest} (h : r.sendBuff = []) (t tz : Int32) : (tick t tz r).sendBuff = [] := by
  unfold tick
  refine oneSecLoop_induct (P := fun r => r.sendBuff = []) (fun p v r' _ h' => ?_) h
  rw [portPinSet_sendBuff]
  exact h'

theorem openTimerExpire_sendBuff {r : Rest} (h : r.sendBuff = []) :
    (openTimerExpire r).sendBuff = [] := by
  unfold openTimerExpire setPortToLow
  split
  · rw [portPinSet_sendBuff]
    exact h
  · exact h

lemma toRest_onBoard (f : Rest → Rest) (s : Server) (h : (f (toRest s)).sendBuff = []) :
    toRest (s.onBoard f) = f (toRest s) := Rest.ext rfl h.symm rfl

/-- **Refinement.**  What a callback does to the board is what its events do. -/
theorem step_refines (s : Server) (e : Callback) (h : Sound s.pool) :
    toRest (s.step e) = run step (toRest s) (boardEvents s e) := by
  cases e with
  | connect p =>
    rw [Server.step, httpdConnectCb]
    cases findFree s.pool <;> rfl
  | recv p data uninit =>
    rw [Server.step, boardEvents]
    cases hfind : httpdFindConnData s.pool p with
    | none =>
      rw [httpdRecvCb, hfind]
      rfl
    | some i =>
      obtain ⟨bytes, hbytes⟩ := h i (by rw [httpdFindConnData_eq_some hfind]; simp)
      obtain ⟨-, hboard, hlog⟩ := recv_spec hfind hbytes data uninit
      obtain ⟨hrun, hbuff⟩ := handle_eq_run p uninit (newlyRequested bytes data) (r := toRest s) rfl
      dsimp only
      rw [hbytes.completed_eq, ← hrun]
      exact Rest.ext hboard hbuff.symm hlog
  | sent p =>
    rw [Server.step, httpdSentCb]
    cases httpdFindConnData s.pool p <;> rfl
  | discon state => rfl
  | recon p err => rfl
  | tick t tz =>
    rw [Server.step, boardEvents, run_cons, run_nil, step]
    exact toRest_onBoard _ s (tick_sendBuff rfl t tz)
  | expire =>
    rw [Server.step, boardEvents, run_cons, run_nil, step]
    exact toRest_onBoard _ s (openTimerExpire_sendBuff rfl)

/-! ### Runs of the server -/

/-- The events that a run of a fresh server is for its board. -/
def eventsOf (board : Board) (es : List Callback) : List Event :=
  projected Server.step boardEvents (.fresh board) es

section Runs

variable (board : Board) (es : List Callback)

/-- **Every run of the server is a run of the board.** -/
theorem run_refines : toRest (run Server.step (.fresh board) es) =
    run step (toRest (.fresh board)) (eventsOf board es) :=
  abs_run step_sound step_refines (fresh_sound board) es

/-- **No request goes beyond an array or a buffer** in a run of the server exactly if every request that
came in is proper. -/
theorem server_safe_iff (h : board.openTimer.armed = false) :
    Safe (run Server.step (.fresh board) es).log ↔ ∀ e ∈ eventsOf board es, IsProper e := by
  have hstart : SafeInv (toRest (.fresh board)) := ⟨safe_empty, fun ha => absurd (h.symm.trans ha) (by decide)⟩
  have hlog : (run Server.step (.fresh board) es).log =
      (run step (toRest (.fresh board)) (eventsOf board es)).log :=
    congrArg Rest.log (run_refines board es)
  rw [hlog]
  exact run_safe_iff hstart _

end Runs

end Esp8266Rest.Http
