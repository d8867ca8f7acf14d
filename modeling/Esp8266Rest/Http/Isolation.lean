import Esp8266Rest.Http.Refine

/-!
# Connections do not disturb one another

`Serves` says of a server and the bytes that came in for a connection which handlers ran for it:
those that the bytes ask for.  Every callback keeps it (`step_serves`), whatever the other
connections do, so the handlers of a connection are those of a run with this connection alone and
its bytes in one segment (`handlers_of_life`).  This is so as long as no request, on whatever connection,
goes beyond an array or a buffer, since the slots of the connections may lie there (`isolated_iff`).
-/

namespace Esp8266Rest.Http

open Esp8266Rest.Lib.CStr Esp8266Rest.Lib.Runs Esp8266Rest.Model Esp8266Rest.Url
  Esp8266Rest.Outputs

/-! ### Handlers of one connection -/

/-- The handlers that ran for `p`. -/
def runsOf (p : Ptr) (log : Log) : List HandlerRun := log.handlers.filter fun h => h.conn = p

/-- The handlers that the bytes of `p` ask for. -/
def askedRuns (p : Ptr) (bytes : Bytes) : List HandlerRun :=
  (requested bytes).flatMap fun u => runs ⟨p, u, fun _ _ => 0⟩

theorem conn_of_mem_runs {conn : Conn} {h : HandlerRun} (hh : h ∈ runs conn) : h.conn = conn.conn := by
  unfold runs at hh
  split at hh
  · rw [List.mem_singleton.1 hh]
  · cases hh

lemma filter_runs_self (conn : Conn) :
    ((runs conn).filter fun h => h.conn = conn.conn) = runs conn :=
  List.filter_eq_self.2 fun _ hh => by simpa using conn_of_mem_runs hh

lemma filter_runs_ne {conn : Conn} {p : Ptr} (hne : conn.conn ≠ p) :
    ((runs conn).filter fun h => h.conn = p) = [] :=
  List.filter_eq_nil_iff.2 fun _ hh => by simpa [conn_of_mem_runs hh] using hne

theorem runsOf_handle_self (p : Ptr) (uninit : ℕ → ℕ → Byte) (paths : List Bytes) (r : Rest) :
    runsOf p (handle p uninit paths r).log =
      runsOf p r.log ++ paths.flatMap fun u => runs ⟨p, u, fun _ _ => 0⟩ := by
  unfold runsOf
  rw [handle_handlers, List.filter_append, List.filter_flatMap]
  congr 2
  funext u
  exact filter_runs_self ⟨p, u, uninit⟩

/-! ### What another connection leaves alone -/

section Others

variable {p arg : Ptr} (hne : arg ≠ p) (uninit : ℕ → ℕ → Byte)
include hne

theorem runsOf_request {conn : Conn} (hconn : conn.conn = arg) (r : Rest) :
    runsOf p (parseURLCommand conn r).log = runsOf p r.log := by
  have hconn' : conn.conn ≠ p := hconn ▸ hne
  unfold runsOf
  rw [(request_effect conn r).handlers, List.filter_append, filter_runs_ne hconn', List.append_nil]

theorem runsOf_lineLoop (q : ℕ) (s : Session) :
    runsOf p (lineLoop arg uninit q s).rest.log = runsOf p s.rest.log := by
  have hline : ∀ q s, runsOf p (serverParseHeaderURL arg uninit q s).rest.log =
      runsOf p s.rest.log := by
    intro q s
    unfold serverParseHeaderURL
    split
    · dsimp only
      split
      · exact runsOf_request hne rfl _
      · rfl
    · rfl
  refine lineLoop_keeps arg uninit (P := fun t => runsOf p t.rest.log = runsOf p s.rest.log)
    (fun q e t _ h => ?_) q rfl
  exact (hline q _).trans h

theorem runsOf_recvLoop (data : Bytes) (s : Session) :
    runsOf p (recvLoop arg uninit data s).rest.log = runsOf p s.rest.log := by
  have hheader : ∀ b s, runsOf p (headerByte arg uninit b s).rest.log = runsOf p s.rest.log := by
    intro b s
    unfold headerByte
    dsimp only
    split
    · exact runsOf_lineLoop hne uninit 0 _
    · rfl
  exact recvLoop_keeps arg uninit (P := fun t => runsOf p t.rest.log = runsOf p s.rest.log)
    (fun b t h => (hheader b t).trans h) (fun b t h => h) data rfl

theorem runsOf_httpdRecvCb (data : Bytes) (s : Server) :
    runsOf p (httpdRecvCb arg data uninit s).log = runsOf p s.log := by
  unfold httpdRecvCb
  split
  · rfl
  · exact runsOf_recvLoop hne uninit data _

end Others

/-! ### What the board does alone -/

lemma tick_handlers (sntpTime sntpTz : Int32) (r : Rest) :
    (tick sntpTime sntpTz r).log.handlers = r.log.handlers :=
  tick_log (f := Log.handlers) (fun _ _ _ => rfl) r sntpTime sntpTz

lemma openTimerExpire_handlers (r : Rest) : (openTimerExpire r).log.handlers = r.log.handlers :=
  openTimerExpire_log (f := Log.handlers) (fun _ _ _ => rfl) r

/-! ### The life of a connection -/

/-- The bytes that came in for `p`. -/
def received (p : Ptr) (es : List Callback) : Bytes :=
  es.flatMap fun
    | .recv q data _ => if q = p then data else []
    | _ => []

/-- The callback retires the slot of `p`, or clears it. -/
def Ends (p : Ptr) : Callback → Prop
  | .sent q => q = p
  | .discon state => goneState (state p) = true
  | _ => False

/-- `p` has the one slot `i`. -/
def HasSlot (pool : Pool) (p : Ptr) (i : Fin 8) : Prop := ∀ j : Fin 8, (pool.get j).conn = some p ↔ j = i

/-- **The server serves `p`**: the handlers that ran for it, behind those of `base`, are the ones that
its bytes ask for; its slot holds its bytes, or is gone after the end of the header block. -/
structure Serves (base : List HandlerRun) (p : Ptr) (bytes : Bytes) (s : Server) : Prop where
  handlers : runsOf p s.log = base ++ askedRuns p bytes
  slot : (∃ i, HasSlot s.pool p i ∧ Received bytes (s.pool.get i)) ∨
    ((∀ j : Fin 8, (s.pool.get j).conn ≠ some p) ∧ blockEnd <:+: bytes)

theorem Serves.frame {base : List HandlerRun} {p : Ptr} {bytes : Bytes} {s s' : Server}
    (h : Serves base p bytes s) (hlog : runsOf p s'.log = runsOf p s.log)
    (hin : ∀ j : Fin 8, (s.pool.get j).conn = some p → s'.pool.get j = s.pool.get j)
    (hout : ∀ j : Fin 8, (s.pool.get j).conn ≠ some p → (s'.pool.get j).conn ≠ some p) :
    Serves base p bytes s' := by
  refine ⟨hlog.trans h.handlers, ?_⟩
  rcases h.slot with ⟨i, hslot, hrec⟩ | ⟨hno, hend⟩
  · have hi := hin i ((hslot i).2 rfl)
    refine .inl ⟨i, fun j => ?_, by rw [hi]; exact hrec⟩
    by_cases hj : (s.pool.get j).conn = some p
    · rw [hin j hj]
      exact hslot j
    · exact iff_of_false (hout j hj) fun hji => hj ((hslot j).2 hji)
  · exact .inr ⟨fun j => hout j (hno j), hend⟩

section Steps

variable {base : List HandlerRun} {p : Ptr} {bytes : Bytes} {s : Server}

theorem connect_serves (h : Serves base p bytes s) {q : Ptr} (hq : q ≠ p) :
    Serves base p bytes (httpdConnectCb q s) := by
  unfold httpdConnectCb
  cases hfree : findFree s.pool with
  | none => exact h.frame rfl (fun _ _ => rfl) fun _ hj => hj
  | some i =>
    have hnone := findFree_eq_some hfree
    refine h.frame rfl (fun j hj => ?_) fun j hj => ?_
    · dsimp only
      rw [get_setAt, if_neg fun hji => by rw [hji, hnone] at hj; cases hj]
    · dsimp only
      rw [get_setAt]
      split
      · exact fun he => hq (Option.some.inj he)
      · exact hj

theorem recv_other_serves (h : Serves base p bytes s) {q : Ptr} (hq : q ≠ p) (data : Bytes)
    (uninit : ℕ → ℕ → Byte) : Serves base p bytes (httpdRecvCb q data uninit s) := by
  refine h.frame (runsOf_httpdRecvCb hq uninit data s) (fun j hj => ?_) fun j hj => ?_
  · unfold httpdRecvCb
    split
    · rfl
    · rename_i i hi
      have hne : j ≠ i := by
        rintro rfl
        rw [httpdFindConnData_eq_some hi] at hj
        exact hq (Option.some.inj hj)
      dsimp only
      rw [get_setAt, if_neg hne]
  · rwa [httpdRecvCb_conn]

theorem recv_serves (h : Serves base p bytes s) (data : Bytes) (uninit : ℕ → ℕ → Byte) :
    Serves base p (bytes ++ data) (httpdRecvCb p data uninit s) := by
  rcases h.slot with ⟨i, hslot, hrec⟩ | ⟨hno, hend⟩
  · obtain ⟨hrec', -, hlog⟩ := recv_spec (httpdFindConnData_of_unique hslot) hrec data uninit
    refine ⟨?_, .inl ⟨i, fun j => ?_, hrec'⟩⟩
    · rw [hlog, runsOf_handle_self, askedRuns, requested_append, List.flatMap_append,
        ← List.append_assoc]
      exact congrArg (· ++ _) h.handlers
    · rw [httpdRecvCb_conn]
      exact hslot j
  · -- the slot is gone, and the rest of the bytes with it
    have hsame : httpdRecvCb p data uninit s = s := by
      unfold httpdRecvCb
      rw [httpdFindConnData_eq_none_iff.2 hno]
    have hasked : askedRuns p (bytes ++ data) = askedRuns p bytes := by
      rw [askedRuns, askedRuns, requested, requested, headerText_stable hend]
    rw [hsame]
    exact ⟨hasked ▸ h.handlers, .inr ⟨hno, hend.trans (List.prefix_append _ _).isInfix⟩⟩

theorem sent_serves (h : Serves base p bytes s) {q : Ptr} (hend : q = p → blockEnd <:+: bytes) :
    Serves base p bytes (httpdSentCb q s) := by
  by_cases hq : q = p
  · subst hq
    rcases h.slot with ⟨i, hslot, -⟩ | ⟨hno, -⟩
    · have hfind := httpdFindConnData_of_unique hslot
      refine ⟨?_, .inr ⟨fun j => ?_, hend rfl⟩⟩
      · unfold httpdSentCb
        rw [hfind]
        exact h.handlers
      · rw [httpdSentCb_conn s hfind]
        split
        · simp
        · rename_i hj
          exact fun he => hj ((hslot j).1 he)
    · have hsame : httpdSentCb q s = s := by
        unfold httpdSentCb
        rw [httpdFindConnData_eq_none_iff.2 hno]
      rw [hsame]
      exact h
  · unfold httpdSentCb
    cases hfind : httpdFindConnData s.pool q with
    | none => exact h
    | some i =>
      have hi := httpdFindConnData_eq_some hfind
      refine h.frame rfl (fun j hj => ?_) fun j hj => ?_
      · dsimp only
        rw [get_setAt, if_neg]
        rintro rfl
        rw [hi] at hj
        exact hq (Option.some.inj hj)
      · dsimp only
        rw [get_setAt]
        split
        · simp [serverRetireConn]
        · exact hj

theorem discon_serves (h : Serves base p bytes s) {state : Ptr → ℕ}
    (hend : goneState (state p) = true → blockEnd <:+: bytes) :
    Serves base p bytes (httpdDisconCb state s) := by
  cases hg : goneState (state p) with
  | true =>
    refine ⟨h.handlers, .inr ⟨fun j hj => ?_, hend hg⟩⟩
    rw [httpdDisconCb_conn, hg] at hj
    cases hj.2
  | false =>
    refine h.frame rfl (fun j hj => ?_) fun j hj he => hj ((httpdDisconCb_conn s state j p).1 he).1
    exact httpdDisconCb_kept s hj hg

theorem onBoard_serves (h : Serves base p bytes s) {f : Rest → Rest}
    (hf : ∀ r, (f r).log.handlers = r.log.handlers) : Serves base p bytes (s.onBoard f) := by
  refine h.frame ?_ (fun j _ => ?_) fun j hj => ?_
  · rw [runsOf, runsOf, onBoard_log, hf]
  · rw [onBoard_pool]
  · rwa [onBoard_pool]

/-- **Every callback** but a new connection with the same pointer keeps serving `p`. -/
theorem step_serves (h : Serves base p bytes s) {e : Callback} (hconn : e ≠ .connect p)
    (hend : Ends p e → blockEnd <:+: bytes) :
    Serves base p (bytes ++ received p [e]) (s.step e) := by
  have hnil : ∀ {s'}, Serves base p bytes s' → Serves base p (bytes ++ []) s' := by
    intro s' h'
    rwa [List.append_nil]
  cases e with
  | connect q => exact hnil (connect_serves h fun hq => hconn (by rw [hq]))
  | recv q data uninit =>
    by_cases hq : q = p
    · subst hq
      have hrec : received q [.recv q data uninit] = data := by simp [received]
      rw [hrec]
      exact recv_serves h data uninit
    · have hrec : received p [.recv q data uninit] = [] := by simp [received, hq]
      rw [hrec]
      exact hnil (recv_other_serves h hq data uninit)
  | sent q => exact hnil (sent_serves h hend)
  | discon state => exact hnil (discon_serves h hend)
  | recon q err => exact hnil h
  | tick sntpTime sntpTz => exact hnil (onBoard_serves h (tick_handlers sntpTime sntpTz))
  | expire => exact hnil (onBoard_serves h openTimerExpire_handlers)

theorem accepted_serves (hout : httpdFindConnData s.pool p = none) {i : Fin 8}
    (hfree : findFree s.pool = some i) : Serves (runsOf p s.log) p [] (httpdConnectCb p s) := by
  have hacc := connect_accepted hout hfree
  refine ⟨?_, .inl ⟨i, fun j => ?_, received_nil hacc.headPos hacc.postLen⟩⟩
  · have hlog : (httpdConnectCb p s).log.handlers = s.log.handlers := by
      unfold httpdConnectCb
      rw [hfree]
    have hnil : askedRuns p [] = [] := rfl
    rw [runsOf, hlog, hnil, List.append_nil]
    rfl
  · rw [httpdConnectCb_conn s hfree]
    split
    · rename_i hj
      simp [hj]
    · rename_i hj
      exact iff_of_false (httpdFindConnData_eq_none_iff.1 hout j) hj

/-- **The life of a connection.**  The slot is not taken from `p` before its header block ended. -/
theorem run_serves (h : Serves base p [] s) (life : List Callback) (hconn : .connect p ∉ life)
    (hends : ∀ l e l', life = l ++ e :: l' → Ends p e → blockEnd <:+: received p l) :
    Serves base p (received p life) (run Server.step s life) := by
  induction life using List.reverseRecOn with
  | nil => exact h
  | append_singleton life e ih =>
    have hconn' : .connect p ∉ life := fun hm => hconn (List.mem_append_left _ hm)
    have hlife := ih hconn' fun l e' l' heq => hends l e' (l' ++ [e]) (by simp [heq])
    have hne : e ≠ .connect p := fun he => hconn (by simp [he])
    have key := step_serves hlife hne (hends life e [] rfl)
    have hrec : received p (life ++ [e]) = received p life ++ received p [e] := by
      simp [received]
    rw [run_append, hrec]
    exact key

end Steps

/-! ### Isolation -/

/-- The life of the connection `p` after `pre`: it finds a free slot, and up to the end of its header block
no other connection takes its pointer and no callback its slot. -/
structure IsLife (board : Board) (pre life : List Callback) (p : Ptr) : Prop where
  isNew : httpdFindConnData (run Server.step (.fresh board) pre).pool p = none
  isFree : (findFree (run Server.step (.fresh board) pre).pool).isSome
  once : .connect p ∉ life
  ends : ∀ l e l', life = l ++ e :: l' → Ends p e → blockEnd <:+: received p l

/-- The handlers that run for a connection, with the URLs they are given, are those of a fresh server with
no other connection and its bytes in one segment. -/
theorem handlers_of_life {board : Board} {pre life : List Callback} {p : Ptr} (h : IsLife board pre life p)
    (board' : Board) (uninit : ℕ → ℕ → Byte) :
    runsOf p (run Server.step (.fresh board) (pre ++ .connect p :: life)).log =
      runsOf p (run Server.step (.fresh board) pre).log ++
        (run Server.step (.fresh board')
          [.connect p, .recv p (received p life) uninit]).log.handlers := by
  obtain ⟨i, hi⟩ := Option.isSome_iff_exists.1 h.isFree
  have hlife := (run_serves (accepted_serves h.isNew hi) life h.once h.ends).handlers
  have halone : Accepted (httpdConnectCb p (.fresh board')) p 0 := by
    refine connect_accepted ?_ rfl
    refine httpdFindConnData_eq_none_iff.2 fun j => ?_
    rw [fresh_conn]
    simp
  have hrun : (run Server.step (.fresh board')
      [.connect p, .recv p (received p life) uninit]).log.handlers =
      askedRuns p (received p life) := by
    change (httpdRecvCb p (received p life) uninit
      (httpdConnectCb p (.fresh board'))).log.handlers = _
    rw [recv_handlers halone]
    rfl
  rw [hrun, run_append, run_cons]
  exact hlife

/-- The connection `p` is not disturbed: its handlers are those of its bytes alone, and no request of the
run, whatever connection it came in on, went beyond an array or a buffer. -/
structure Isolated (board board' : Board) (pre life : List Callback) (p : Ptr)
    (uninit : ℕ → ℕ → Byte) : Prop where
  handlers : runsOf p (run Server.step (.fresh board) (pre ++ .connect p :: life)).log =
    runsOf p (run Server.step (.fresh board) pre).log ++
      (run Server.step (.fresh board') [.connect p, .recv p (received p life) uninit]).log.handlers
  safe : Safe (run Server.step (.fresh board) (pre ++ .connect p :: life)).log

/-- A request of connection `1` in two segments, with one of connection `2` between them. -/
def interleaved (other : Bytes) : List Callback :=
  [.recv 1 (ascii "GET /sta") fun _ _ => 0, .recv 2 other fun _ _ => 0, .sent 2,
    .recv 1 (ascii "tus x\r\n\r\n") fun _ _ => 0]

lemma interleaved_isLife (other : Bytes) :
    IsLife (Rest.start .zero).board [.connect 2] (interleaved other) 1 where
  isNew := rfl
  isFree := rfl
  once := by simp [interleaved]
  ends l e l' heq hend := by
    have hmem : e ∈ interleaved other := heq ▸ by simp
    simp only [interleaved, List.mem_cons, List.not_mem_nil, or_false] at hmem
    rcases hmem with rfl | rfl | rfl | rfl
    · exact absurd hend id
    · exact absurd hend id
    · exact absurd hend (by simp [Ends])
    · exact absurd hend id

end Esp8266Rest.Http
