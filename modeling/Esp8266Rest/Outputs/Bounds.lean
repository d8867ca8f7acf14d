import Esp8266Rest.Outputs.Door

/-!
# Indices and fields from a URL

`staysSafe_iff`: no array is indexed out of bounds and no buffer overrun throughout a run exactly if every
request of it is proper.  The timer carries an index from an `open` request to a later expiry; it is
the one of the request.  An overrun is counted with the indices because it can change one: the buffer of
the value may lie right before that of the index on the stack of `doSetPin`.
-/

namespace Esp8266Rest.Outputs

open Esp8266Rest.Lib.CStr Esp8266Rest.Lib.Runs Esp8266Rest.Model Esp8266Rest.Url

/-- All accesses so far were in bounds. -/
def InBounds (r : Rest) : Prop := ∀ a ∈ r.log.accesses, a.Ok

/-- A request has an index of the array it is used for. -/
def Indexes : Event → Prop
  | .request conn => IndexOk (command conn.url) conn.url
  | _ => True

/-- The invariant: an armed timer carries the number of a port. -/
structure BoundsInv (r : Rest) : Prop where
  inBounds : InBounds r
  port : r.board.openTimer.armed = true → IsPort r.board.openTimer.arg

section Steps

variable {r : Rest}

theorem portPinSet_inBounds_iff {n : Int32} {v : UInt8} (h : InBounds r) :
    InBounds (portPinSet n v r) ↔ IsPort n := by
  unfold InBounds at h ⊢
  rw [portPinSet_accesses, List.forall_mem_append, portAccesses_ok_iff]
  exact and_iff_right h

theorem request_inBounds_iff (h : InBounds r) (conn : Conn) :
    InBounds (step r (.request conn)) ↔ Indexes (.request conn) := by
  obtain ⟨as, hacc, hok⟩ := (request_effect conn { r with sendBuff := [] }).accesses
  unfold InBounds at h ⊢
  rw [step, hacc, List.forall_mem_append, hok]
  exact and_iff_right h

theorem request_boundsInv (hi : BoundsInv r) {conn : Conn} (hok : Indexes (.request conn)) :
    BoundsInv (step r (.request conn)) := by
  refine ⟨(request_inBounds_iff hi.inBounds conn).2 hok, ?_⟩
  rw [step, request_openTimer]
  split
  · rename_i h
    have hidx : IndexOk (command conn.url) conn.url := hok
    rw [h, indexOk_of_some (n := numOfPorts) rfl] at hidx
    exact fun _ => hidx
  · exact hi.port

theorem tick_boundsInv (hi : BoundsInv r) (t tz : Int32) : BoundsInv (step r (.tick t tz)) := by
  rw [step_tick]
  refine oneSecLoop_induct (P := BoundsInv) (fun p v r' _ h => ⟨?_, ?_⟩) ⟨hi.inBounds, hi.port⟩
  · exact (portPinSet_inBounds_iff h.inBounds).2 (isPort_iff.2 ⟨p, slot?_ofNat p⟩)
  · rw [portPinSet_openTimer]
    exact h.port

theorem expire_boundsInv (hi : BoundsInv r) : BoundsInv (step r .expire) := by
  cases ha : r.board.openTimer.armed with
  | false =>
    rw [step, openTimerExpire_idle ha]
    exact hi
  | true =>
    have hfired : InBounds (fired r) := hi.inBounds
    rw [step, openTimerExpire_armed ha]
    constructor
    · exact (portPinSet_inBounds_iff hfired).2 (hi.port ha)
    · rw [portPinSet_openTimer]
      rintro ⟨⟩

theorem step_boundsInv (hi : BoundsInv r) {e : Event} (hok : Indexes e) : BoundsInv (step r e) := by
  rcases e with conn | ⟨t, tz⟩ | _
  · exact request_boundsInv hi hok
  · exact tick_boundsInv hi t tz
  · exact expire_boundsInv hi

theorem step_inBounds_iff (hi : BoundsInv r) (e : Event) : InBounds (step r e) ↔ Indexes e := by
  rcases e with conn | ⟨t, tz⟩ | _
  · exact request_inBounds_iff hi.inBounds conn
  · exact iff_of_true (tick_boundsInv hi t tz).inBounds trivial
  · exact iff_of_true (expire_boundsInv hi).inBounds trivial

end Steps

lemma start_inBounds (f : FlashData) : InBounds (Rest.start f) := by
  intro a ha
  cases ha

/-! ### Proper requests -/

/-- **A request stays within its arrays and buffers** exactly if it is proper. -/
theorem step_safeFrom_iff {r : Rest} {conn : Conn} :
    SafeFrom r.log (step r (.request conn)).log ↔ Proper conn.url :=
  (request_effect conn { r with sendBuff := [] }).safeFrom_iff

/-- The requests of an event are proper. -/
def IsProper : Event → Prop
  | .request conn => Proper conn.url
  | _ => True

instance : DecidablePred IsProper
  | .request conn => inferInstanceAs (Decidable (Proper conn.url))
  | .tick _ _ | .expire => .isTrue trivial

/-- What an event copies. -/
def copiesOf : Event → List Copy
  | .request conn => requestCopies conn.url
  | _ => []

lemma isProper_iff {e : Event} : IsProper e ↔ Indexes e ∧ ∀ c ∈ copiesOf e, c.Fits := by
  rcases e with conn | ⟨t, tz⟩ | _
  · exact ⟨fun h => ⟨h.index, fieldsFit_iff.2 h.fits⟩, fun h => ⟨h.1, fieldsFit_iff.1 h.2⟩⟩
  · exact iff_of_true trivial ⟨trivial, nofun⟩
  · exact iff_of_true trivial ⟨trivial, nofun⟩

lemma IsProper.indexes {e : Event} (h : IsProper e) : Indexes e := (isProper_iff.1 h).1

/-- The invariant, with the copies. -/
structure SafeInv (r : Rest) : Prop where
  safe : Safe r.log
  port : r.board.openTimer.armed = true → IsPort r.board.openTimer.arg

lemma SafeInv.bounds {r : Rest} (h : SafeInv r) : BoundsInv r := ⟨h.safe.accesses, h.port⟩

section Safe

variable {r : Rest} {e : Event}

theorem step_copies (r : Rest) (e : Event) : (step r e).log.copies = r.log.copies ++ copiesOf e := by
  rcases e with conn | ⟨t, tz⟩ | _
  · exact (request_effect conn { r with sendBuff := [] }).copies
  · have hnone : copiesOf (.tick t tz) = [] := rfl
    rw [step_tick, hnone, List.append_nil]
    refine oneSecLoop_induct (P := fun r' => r'.log.copies = r.log.copies) (fun p v r' _ h => ?_) rfl
    rw [portPinSet_log]
    exact h
  · have hnone : copiesOf .expire = [] := rfl
    rw [hnone, List.append_nil]
    cases ha : r.board.openTimer.armed with
    | false => rw [step, openTimerExpire_idle ha]
    | true =>
      rw [step, openTimerExpire_armed ha, portPinSet_log]
      rfl

theorem step_accesses_grow (r : Rest) (e : Event) : r.log.accesses <+: (step r e).log.accesses := by
  rcases e with conn | ⟨t, tz⟩ | _
  · obtain ⟨as, hacc, -⟩ := (request_effect conn { r with sendBuff := [] }).accesses
    exact ⟨as, hacc.symm⟩
  · rw [step_tick]
    refine oneSecLoop_induct (P := fun r' => r.log.accesses <+: r'.log.accesses)
      (fun p v r' _ h' => ?_) (List.prefix_refl _)
    rw [portPinSet_accesses]
    exact h'.trans (List.prefix_append _ _)
  · cases ha : r.board.openTimer.armed with
    | false => rw [step, openTimerExpire_idle ha]
    | true =>
      rw [step, openTimerExpire_armed ha, portPinSet_accesses]
      exact List.prefix_append _ _

/-- **A step from a safe state** is safe exactly if its request is proper. -/
theorem step_safe_iff (hi : SafeInv r) (e : Event) : Safe (step r e).log ↔ IsProper e := by
  have hin : (∀ a ∈ (step r e).log.accesses, a.Ok) ↔ Indexes e := step_inBounds_iff hi.bounds e
  rw [isProper_iff, ← hin]
  constructor
  · rintro ⟨ha, hc⟩
    rw [step_copies] at hc
    exact ⟨ha, (List.forall_mem_append.1 hc).2⟩
  · rintro ⟨ha, hc⟩
    refine ⟨ha, ?_⟩
    rw [step_copies]
    exact List.forall_mem_append.2 ⟨hi.safe.copies, hc⟩

lemma step_safeInv (hi : SafeInv r) (hok : IsProper e) : SafeInv (step r e) :=
  ⟨(step_safe_iff hi e).2 hok, (step_boundsInv hi.bounds hok.indexes).port⟩

theorem safe_of_step (h : Safe (step r e).log) : Safe r.log := by
  refine ⟨fun a ha => h.accesses a ((step_accesses_grow r e).subset ha), fun c hc => h.copies c ?_⟩
  rw [step_copies]
  exact List.mem_append_left _ hc

end Safe

/-- The rule for runs. -/
theorem throughout_safe_iff {r : Rest} (hr : SafeInv r) (es : List Event) :
    Throughout step (fun r => Safe r.log) r es ↔ ∀ e ∈ es, IsProper e := by
  rw [← along_event_iff step (s := r)]
  exact throughout_iff_along step (V := fun _ _ => True) (I := SafeInv)
    (fun _ _ hi _ hok => step_safeInv hi hok) (fun _ e hi _ => step_safe_iff hi e) hr hr.safe
    ((along_event_iff step).2 fun _ _ => trivial)

theorem run_safe_iff {r : Rest} (hr : SafeInv r) (es : List Event) :
    Safe (run step r es).log ↔ ∀ e ∈ es, IsProper e := by
  rw [← throughout_safe_iff hr]
  exact ⟨throughout_of_run step (P := fun r => Safe r.log) (fun _ _ => safe_of_step), run_of_throughout step⟩

/-- **Arrays are indexed in bounds and buffers not overrun** throughout a run exactly if every request of
it is proper. -/
theorem staysSafe_iff {r : Rest} (hr : Safe r.log) (hidle : r.board.openTimer.armed = false)
    (es : List Event) :
    Throughout step (fun r => Safe r.log) r es ↔ ∀ e ∈ es, IsProper e :=
  throughout_safe_iff ⟨hr, fun ha => by simp [hidle] at ha⟩ es

/-- The last port and the last event are in bounds. -/
theorem staysSafe_last : Throughout step (fun r => Safe r.log) (.start .zero)
    [.request (.get "/open/7"), .request (.get "/event/9/1/7"), .expire] :=
  (staysSafe_iff safe_empty rfl _).2 (by decide)

/-- **Event `10` of ten** is written behind the table. -/
theorem not_inBounds_event_ten :
    ¬ Throughout step InBounds (.start .zero) [.request (.get "/event/10/1/7")] := by
  intro h
  have hend := run_of_throughout step h
  rw [run_cons, run_nil, request_inBounds_iff (start_inBounds .zero)] at hend
  have hname : command (ascii "/event/10/1/7") = ascii "event" := by decide
  have hok : IndexOk (command (ascii "/event/10/1/7")) (ascii "/event/10/1/7") := hend
  rw [hname, indexOk_of_some (n := maxTimedPowerEvents) rfl] at hok
  exact absurd hok (by decide)

end Esp8266Rest.Outputs
