import Mathlib.Data.Finset.Card
import Mathlib.Data.Fintype.Card
import Esp8266Rest.Http.Head
import Esp8266Rest.Model.Device

/-!
# The connection pool

`live` is the set of the accepted connections that have not ended, kept alongside the server by
`Tracked.step`.  `Occupied` says that the occupied slots are these connections, each in one slot.  Every
callback keeps it but the reconnect callback, which leaves the slot of an ended connection occupied
(`noLeak_iff`).
-/

namespace Esp8266Rest.Http

open Esp8266Rest.Lib.CStr Esp8266Rest.Lib.Runs Esp8266Rest.Model

/-! ### Finding a slot -/

section Find

variable {pool : Pool} {p : Ptr} {i : Fin 8}

lemma httpdFindConnData_eq_some (h : httpdFindConnData pool p = some i) : (pool.get i).conn = some p := by
  simpa using List.find?_some h

lemma httpdFindConnData_eq_none_iff :
    httpdFindConnData pool p = none ↔ ∀ i : Fin 8, (pool.get i).conn ≠ some p := by
  simp [httpdFindConnData]

lemma findFree_eq_some (h : findFree pool = some i) : (pool.get i).conn = none := by
  simpa using List.find?_some h

lemma findFree_eq_none_iff : findFree pool = none ↔ ∀ i : Fin 8, (pool.get i).conn ≠ none := by
  simp [findFree]

theorem httpdFindConnData_of_unique (h : ∀ j : Fin 8, (pool.get j).conn = some p ↔ j = i) :
    httpdFindConnData pool p = some i := by
  cases hf : httpdFindConnData pool p with
  | none => exact absurd ((h i).2 rfl) (httpdFindConnData_eq_none_iff.1 hf i)
  | some j => rw [(h j).1 (httpdFindConnData_eq_some hf)]

end Find

/-! ### The pool after a callback -/

section Callbacks

variable (s : Server)

theorem httpdRecvCb_conn (arg : Ptr) (data : Bytes) (uninit : ℕ → ℕ → Byte) (j : Fin 8) :
    ((httpdRecvCb arg data uninit s).pool.get j).conn = (s.pool.get j).conn := by
  unfold httpdRecvCb
  split
  · rfl
  · rename_i i hi
    dsimp only
    rw [get_setAt]
    split
    · rename_i hj
      rw [recvLoop_conn, hj]
    · rfl

theorem httpdSentCb_conn {arg : Ptr} {i : Fin 8} (h : httpdFindConnData s.pool arg = some i)
    (j : Fin 8) : ((httpdSentCb arg s).pool.get j).conn = if j = i then none else (s.pool.get j).conn := by
  unfold httpdSentCb
  rw [h]
  dsimp only
  rw [get_setAt]
  split <;> rfl

theorem httpdConnectCb_conn {arg : Ptr} {i : Fin 8} (h : findFree s.pool = some i) (j : Fin 8) :
    ((httpdConnectCb arg s).pool.get j).conn = if j = i then some arg else (s.pool.get j).conn := by
  unfold httpdConnectCb
  rw [h]
  dsimp only
  rw [get_setAt]
  split <;> rfl

theorem httpdConnectCb_full {arg : Ptr} (h : findFree s.pool = none) :
    (httpdConnectCb arg s).pool = s.pool := by
  unfold httpdConnectCb
  rw [h]

theorem httpdDisconCb_get (state : Ptr → ℕ) (j : Fin 8) : (httpdDisconCb state s).pool.get j =
    match (s.pool.get j).conn with
    | some q => if goneState (state q) then { s.pool.get j with conn := none } else s.pool.get j
    | none => s.pool.get j := by
  unfold httpdDisconCb
  dsimp only
  rw [get_eq_getElem, Fin.getElem_fin, Vector.getElem_map]
  rfl

/-- A slot keeps its connection if its `espconn` does not count as disconnected, and then nothing of
it changes. -/
theorem httpdDisconCb_kept {state : Ptr → ℕ} {j : Fin 8} {p : Ptr} (h : (s.pool.get j).conn = some p)
    (hg : goneState (state p) = false) : (httpdDisconCb state s).pool.get j = s.pool.get j := by
  rw [httpdDisconCb_get, h]
  simp [hg]

theorem httpdDisconCb_conn (state : Ptr → ℕ) (j : Fin 8) (p : Ptr) :
    ((httpdDisconCb state s).pool.get j).conn = some p ↔
      (s.pool.get j).conn = some p ∧ goneState (state p) = false := by
  rw [httpdDisconCb_get]
  cases hc : (s.pool.get j).conn with
  | none => simp [hc]
  | some q =>
    by_cases hg : goneState (state q) = true
    · simp only [hg, if_true, Option.some.injEq]
      constructor
      · rintro ⟨⟩
      · rintro ⟨rfl, h⟩
        rw [hg] at h
        cases h
    · rw [Bool.not_eq_true] at hg
      simp only [hg, Bool.false_eq_true, if_false, hc, Option.some.injEq]
      constructor
      · rintro rfl
        exact ⟨rfl, hg⟩
      · exact fun h => h.1

end Callbacks

/-! ### Connections that are alive -/

/-- A server and its accepted connections that have not ended. -/
structure Tracked where
  server : Server
  live : Finset Ptr

/-- A connection is alive from the connect callback that accepts it to its sent callback, its
reconnect callback, or a disconnect callback that finds it gone. -/
def Tracked.step (t : Tracked) (e : Callback) : Tracked :=
  { server := t.server.step e
    live := match e with
      | .connect p => if (findFree t.server.pool).isSome then insert p t.live else t.live
      | .sent p => t.live.erase p
      | .discon state => t.live.filter fun p => goneState (state p) = false
      | .recon p _ => t.live.erase p
      | _ => t.live }

/-- The occupied slots are the live connections, each in one slot. -/
structure Occupied (pool : Pool) (live : Finset Ptr) : Prop where
  mem : ∀ p, p ∈ live ↔ ∃ i : Fin 8, (pool.get i).conn = some p
  inj : ∀ (i j : Fin 8) p, (pool.get i).conn = some p → (pool.get j).conn = some p → i = j

/-- **No slot leaks**: the occupied slots are the live connections, and with fewer than `maxConn` of
them the next connection is accepted. -/
structure NoLeak (t : Tracked) : Prop where
  occupied : Occupied t.server.pool t.live
  accepts : t.live.card < maxConn → (findFree t.server.pool).isSome

/-- Eight occupied slots hold eight connections. -/
theorem Occupied.accepts {pool : Pool} {live : Finset Ptr} (h : Occupied pool live)
    (hcard : live.card < maxConn) : (findFree pool).isSome := by
  by_contra hfull
  have hnone : findFree pool = none := by simpa using hfull
  have hocc : ∀ i : Fin 8, ∃ p, (pool.get i).conn = some p := fun i =>
    Option.ne_none_iff_exists'.1 (findFree_eq_none_iff.1 hnone i)
  choose f hf using hocc
  have hinj : Function.Injective f := fun i j hij => h.inj i j (f i) (hf i) (hij ▸ hf j)
  have hsub : Finset.univ.map ⟨f, hinj⟩ ⊆ live := by
    intro p hp
    obtain ⟨i, -, rfl⟩ := Finset.mem_map.1 hp
    exact (h.mem _).2 ⟨i, hf i⟩
  have := Finset.card_le_card hsub
  rw [Finset.card_map, Finset.card_univ, Fintype.card_fin] at this
  exact absurd hcard (by unfold maxConn; omega)

lemma noLeak_iff_occupied {t : Tracked} : NoLeak t ↔ Occupied t.server.pool t.live :=
  ⟨NoLeak.occupied, fun h => ⟨h, h.accepts⟩⟩

theorem Occupied.congr {pool pool' : Pool} {live : Finset Ptr} (h : Occupied pool live)
    (heq : ∀ j : Fin 8, (pool'.get j).conn = (pool.get j).conn) : Occupied pool' live := by
  refine ⟨fun p => ?_, fun i j p => ?_⟩
  · simp only [heq]
    exact h.mem p
  · rw [heq, heq]
    exact h.inj i j p

/-- **A connection that takes a free slot** is one more that is alive. -/
theorem Occupied.insert {pool pool' : Pool} {live : Finset Ptr} {p : Ptr} {i : Fin 8}
    (h : Occupied pool live) (hp : p ∉ live) (hfree : (pool.get i).conn = none)
    (hconn : ∀ j : Fin 8, (pool'.get j).conn = if j = i then some p else (pool.get j).conn) :
    Occupied pool' (insert p live) := by
  have hout : ∀ j : Fin 8, (pool.get j).conn ≠ some p := fun j hj => hp ((h.mem p).2 ⟨j, hj⟩)
  refine ⟨fun q => ?_, fun j k q hj hk => ?_⟩
  · simp only [hconn, Finset.mem_insert, h.mem q]
    constructor
    · rintro (rfl | ⟨j, hj⟩)
      · exact ⟨i, if_pos rfl⟩
      · refine ⟨j, ?_⟩
        rw [if_neg fun hji => by rw [hji, hfree] at hj; cases hj]
        exact hj
    · rintro ⟨j, hj⟩
      by_cases hji : j = i
      · rw [if_pos hji] at hj
        exact .inl (Option.some.inj hj).symm
      · rw [if_neg hji] at hj
        exact .inr ⟨j, hj⟩
  · rw [hconn] at hj hk
    by_cases hji : j = i
    · by_cases hki : k = i
      · rw [hji, hki]
      · rw [if_pos hji] at hj
        rw [if_neg hki, ← hj] at hk
        exact absurd hk (hout k)
    · by_cases hki : k = i
      · rw [if_pos hki] at hk
        rw [if_neg hji, ← hk] at hj
        exact absurd hj (hout j)
      · rw [if_neg hji] at hj
        rw [if_neg hki] at hk
        exact h.inj j k q hj hk

/-- **A connection whose slot is freed** is not alive any more. -/
theorem Occupied.erase {pool pool' : Pool} {live : Finset Ptr} {p : Ptr} {i : Fin 8}
    (h : Occupied pool live) (hi : (pool.get i).conn = some p)
    (hconn : ∀ j : Fin 8, (pool'.get j).conn = if j = i then none else (pool.get j).conn) :
    Occupied pool' (live.erase p) := by
  have hold : ∀ (j : Fin 8) (q : Ptr), (pool'.get j).conn = some q →
      j ≠ i ∧ (pool.get j).conn = some q := by
    intro j q hj
    rw [hconn] at hj
    by_cases hji : j = i
    · rw [if_pos hji] at hj
      cases hj
    · exact ⟨hji, by rwa [if_neg hji] at hj⟩
  refine ⟨fun q => ?_, fun j k q hj hk => h.inj j k q (hold j q hj).2 (hold k q hk).2⟩
  rw [Finset.mem_erase, h.mem q]
  constructor
  · rintro ⟨hqp, j, hj⟩
    refine ⟨j, ?_⟩
    rw [hconn, if_neg fun hji => by rw [hji, hi] at hj; exact hqp (Option.some.inj hj).symm]
    exact hj
  · rintro ⟨j, hj⟩
    obtain ⟨hji, hj⟩ := hold j q hj
    refine ⟨?_, j, hj⟩
    rintro rfl
    exact hji (h.inj j i q hj hi)

/-! ### What each callback does to the live connections -/

section Steps

variable {t : Tracked} (h : Occupied t.server.pool t.live)
include h

theorem connect_occupied {p : Ptr} (hp : p ∉ t.live) :
    Occupied (t.step (.connect p)).server.pool (t.step (.connect p)).live := by
  unfold Tracked.step Server.step
  dsimp only
  cases hfree : findFree t.server.pool with
  | none =>
    rw [httpdConnectCb_full _ hfree]
    exact h
  | some i =>
    rw [Option.isSome_some, if_pos rfl]
    exact h.insert hp (findFree_eq_some hfree) (httpdConnectCb_conn t.server hfree)

theorem sent_occupied (p : Ptr) :
    Occupied (t.step (.sent p)).server.pool (t.step (.sent p)).live := by
  unfold Tracked.step Server.step
  dsimp only
  cases hfind : httpdFindConnData t.server.pool p with
  | none =>
    have hp : p ∉ t.live := fun hp => by
      obtain ⟨i, hi⟩ := (h.mem p).1 hp
      exact httpdFindConnData_eq_none_iff.1 hfind i hi
    have hsame : httpdSentCb p t.server = t.server := by
      unfold httpdSentCb
      rw [hfind]
    rw [hsame, Finset.erase_eq_of_notMem hp]
    exact h
  | some i =>
    exact h.erase (httpdFindConnData_eq_some hfind) (httpdSentCb_conn t.server hfind)

theorem discon_occupied (state : Ptr → ℕ) :
    Occupied (t.step (.discon state)).server.pool (t.step (.discon state)).live := by
  unfold Tracked.step Server.step
  dsimp only
  refine ⟨fun p => ?_, fun i j p hi hj => ?_⟩
  · simp only [httpdDisconCb_conn, Finset.mem_filter, h.mem p, exists_and_right]
  · rw [httpdDisconCb_conn] at hi hj
    exact h.inj i j p hi.1 hj.1

/-- **The reconnect callback** leaves the slot of the connection occupied. -/
theorem recon_occupied_iff (p : Ptr) (err : ℤ) :
    Occupied (t.step (.recon p err)).server.pool (t.step (.recon p err)).live ↔ p ∉ t.live := by
  change Occupied t.server.pool (t.live.erase p) ↔ p ∉ t.live
  constructor
  · intro h' hp
    have : p ∈ t.live.erase p := (h'.mem p).2 ((h.mem p).1 hp)
    exact Finset.notMem_erase p t.live this
  · intro hp
    rw [Finset.erase_eq_of_notMem hp]
    exact h

end Steps

/-! ### Runs -/

/-- A connection that is alive does not connect again. -/
def ConnectsFresh (t : Tracked) : Callback → Prop
  | .connect p => p ∉ t.live
  | _ => True

/-- No live connection gets the reconnect callback. -/
def NoRecon (t : Tracked) : Callback → Prop
  | .recon p _ => p ∉ t.live
  | _ => True

theorem step_occupied_iff {t : Tracked} (h : Occupied t.server.pool t.live) {e : Callback}
    (hv : ConnectsFresh t e) :
    Occupied (t.step e).server.pool (t.step e).live ↔ NoRecon t e := by
  cases e with
  | connect p => exact iff_of_true (connect_occupied h hv) trivial
  | recv p data uninit =>
    exact iff_of_true (h.congr (httpdRecvCb_conn t.server p data uninit)) trivial
  | sent p => exact iff_of_true (sent_occupied h p) trivial
  | discon state => exact iff_of_true (discon_occupied h state) trivial
  | recon p err => exact recon_occupied_iff h p err
  | tick sntpTime sntpTz =>
    refine iff_of_true ?_ trivial
    unfold Tracked.step Server.step
    dsimp only
    rw [onBoard_pool]
    exact h
  | expire =>
    refine iff_of_true ?_ trivial
    unfold Tracked.step Server.step
    dsimp only
    rw [onBoard_pool]
    exact h

/-- The start: a fresh server without connections. -/
def Tracked.fresh (board : Board) : Tracked := ⟨.fresh board, ∅⟩

lemma fresh_conn (board : Board) (i : Fin 8) : ((Server.fresh board).pool.get i).conn = none := by
  simp [Server.fresh, get_eq_getElem, ServerConnData.zero]

theorem fresh_occupied (board : Board) :
    Occupied (Tracked.fresh board).server.pool (Tracked.fresh board).live := by
  refine ⟨fun p => ?_, fun i j p hi => ?_⟩
  · refine iff_of_false (Finset.notMem_empty p) ?_
    rintro ⟨i, hi⟩
    change ((Server.fresh board).pool.get i).conn = some p at hi
    rw [fresh_conn] at hi
    cases hi
  · change ((Server.fresh board).pool.get i).conn = some p at hi
    rw [fresh_conn] at hi
    cases hi

/-- **No slot leaks** throughout a run exactly if no live connection gets the reconnect callback. -/
theorem noLeak_iff (board : Board) {es : List Callback}
    (hes : Along Tracked.step ConnectsFresh (.fresh board) es) :
    Throughout Tracked.step NoLeak (.fresh board) es ↔
      Along Tracked.step NoRecon (.fresh board) es := by
  refine throughout_iff_along Tracked.step (V := ConnectsFresh) (I := NoLeak) ?_ ?_ ?_ ?_ hes
  · intro t e hi hv hok
    exact noLeak_iff_occupied.2 ((step_occupied_iff hi.occupied hv).2 hok)
  · intro t e hi hv
    rw [noLeak_iff_occupied]
    exact step_occupied_iff hi.occupied hv
  · exact noLeak_iff_occupied.2 (fresh_occupied board)
  · exact noLeak_iff_occupied.2 (fresh_occupied board)

theorem live_connect_fresh (board : Board) (p : Ptr) :
    ((Tracked.fresh board).step (.connect p)).live = {p} := by
  have haccept : (findFree (Tracked.fresh board).server.pool).isSome := by
    refine (fresh_occupied board).accepts ?_
    change (∅ : Finset Ptr).card < maxConn
    decide
  change (if (findFree (Tracked.fresh board).server.pool).isSome then insert p ∅ else ∅) = {p}
  rw [if_pos haccept]
  rfl

/-- Two connections, of which one is answered. -/
theorem noLeak_two : Throughout Tracked.step NoLeak (.fresh (Rest.start .zero).board)
    [.connect 1, .connect 2, .sent 1] := by
  have hfresh : Along Tracked.step ConnectsFresh (.fresh (Rest.start .zero).board)
      [.connect 1, .connect 2, .sent 1] := by
    refine ⟨Finset.notMem_empty 1, ?_, trivial, trivial⟩
    change 2 ∉ ((Tracked.fresh _).step (.connect 1)).live
    rw [live_connect_fresh]
    decide
  exact (noLeak_iff _ hfresh).2 ⟨trivial, trivial, trivial, trivial⟩

/-- **A leaked slot**: the reconnect callback ends a connection and leaves its slot occupied. -/
theorem not_noLeak_recon : ¬ Throughout Tracked.step NoLeak (.fresh (Rest.start .zero).board)
    [.connect 1, .recon 1 (-11)] := by
  intro h
  have hend := (run_of_throughout Tracked.step h).occupied
  rw [run_cons, run_cons, run_nil] at hend
  have hfirst := connect_occupied (fresh_occupied (Rest.start .zero).board) (Finset.notMem_empty 1)
  rw [recon_occupied_iff hfirst, live_connect_fresh] at hend
  exact hend (Finset.mem_singleton_self 1)

end Esp8266Rest.Http
