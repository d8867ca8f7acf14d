import Esp8266Rest.Outputs.Ticks

/-!
# The door opener

`open` drives a port and arms the one timer that all ports share, whose expiry lowers the port it was
armed for last.  `closing_iff` says when every port that was opened still has its close pending.
-/

namespace Esp8266Rest.Outputs

open Esp8266Rest.Lib.CStr Esp8266Rest.Lib.Runs Esp8266Rest.Model Esp8266Rest.Url

/-! ### The expiry of the timer -/

/-- The timer has fired. -/
def fired (r : Rest) : Rest :=
  { r with board := { r.board with openTimer := { r.board.openTimer with armed := false } } }

theorem openTimerExpire_armed {r : Rest} (h : r.board.openTimer.armed = true) :
    openTimerExpire r = portPinSet r.board.openTimer.arg 0 (fired r) := by
  rw [openTimerExpire, if_pos h]
  rfl

lemma openTimerExpire_idle {r : Rest} (h : r.board.openTimer.armed = false) :
    openTimerExpire r = r := by
  simp [openTimerExpire, h]

/-! ### Doors -/

/-- An `open` request for a port, or an expiry of the timer. -/
def IsDoorEvent : Event → Prop
  | .request conn => command conn.url = ascii "open" ∧ IsPort (openPort conn.url)
  | .tick _ _ => False
  | .expire => True

/-- **Every open door is about to close**: a port that was last driven high has the timer armed for
it. -/
def Closing (r : Rest) : Prop := ∀ n, lastSet r n = some 1 → r.board.openTimer = ⟨n, true⟩

/-- No other port waits for its close when a port is opened. -/
def OpensAlone (r : Rest) : Event → Prop
  | .request conn => r.board.openTimer.armed = true → r.board.openTimer.arg = openPort conn.url
  | _ => True

/-- No port was driven yet and the timer is not armed. -/
structure Shut (r : Rest) : Prop where
  pinSets : r.log.pinSets = []
  idle : r.board.openTimer.armed = false

/-- The invariant: the doors that are open are the one the timer is armed for. -/
structure DoorInv (r : Rest) : Prop where
  closing : Closing r
  pending : r.board.openTimer.armed = true → lastSet r r.board.openTimer.arg = some 1

lemma Shut.doorInv {r : Rest} (h : Shut r) : DoorInv r where
  closing n hn := by simp [lastSet, h.pinSets] at hn
  pending ha := by simp [h.idle] at ha

section Steps

variable {r : Rest}

/-! ### An `open` request -/

lemma open_openTimer {conn : Conn} (h : command conn.url = ascii "open") :
    (step r (.request conn)).board.openTimer = ⟨openPort conn.url, true⟩ := by
  rw [step, request_openTimer, if_pos h]

theorem open_lastSet {conn : Conn} (h : command conn.url = ascii "open") (n : Int32) :
    lastSet (step r (.request conn)) n = if n = openPort conn.url then some 1 else lastSet r n := by
  refine lastSet_of_pinSets ?_ n
  rw [step, request_open _ h, doOpen_pinSets]
  rfl

theorem open_closing_iff (hi : DoorInv r) {conn : Conn} (h : command conn.url = ascii "open") :
    Closing (step r (.request conn)) ↔ OpensAlone r (.request conn) := by
  unfold Closing OpensAlone
  simp only [open_openTimer h, open_lastSet h, OsTimer.mk.injEq, and_true]
  constructor
  · intro hc harmed
    by_contra hne
    have hlast := hi.pending harmed
    exact hne (hc r.board.openTimer.arg (by rw [if_neg hne, hlast])).symm
  · intro ho n hn
    by_contra hne
    rw [if_neg fun e => hne e.symm] at hn
    have htimer := hi.closing n hn
    rw [htimer] at ho
    exact hne (ho rfl).symm

lemma open_pending {conn : Conn} (h : command conn.url = ascii "open") :
    lastSet (step r (.request conn)) (step r (.request conn)).board.openTimer.arg = some 1 := by
  rw [open_openTimer h, open_lastSet h, if_pos rfl]

/-! ### An expiry -/

theorem expire_doorInv (hi : DoorInv r) : DoorInv (step r .expire) := by
  cases ha : r.board.openTimer.armed with
  | false =>
    rw [step, openTimerExpire_idle ha]
    exact hi
  | true =>
    rw [step, openTimerExpire_armed ha]
    constructor
    · intro n hn
      rw [lastSet_of_pinSets (portPinSet_pinSets _ _ _)] at hn
      by_cases hne : n = r.board.openTimer.arg
      · simp [hne] at hn
      · rw [if_neg hne] at hn
        have htimer := hi.closing n hn
        exact absurd (congrArg OsTimer.arg htimer).symm hne
    · rw [portPinSet_openTimer]
      rintro ⟨⟩

theorem expire_idle (r : Rest) : (step r .expire).board.openTimer.armed = false := by
  cases ha : r.board.openTimer.armed with
  | false => rw [step, openTimerExpire_idle ha, ha]
  | true =>
    rw [step, openTimerExpire_armed ha, portPinSet_openTimer]
    rfl

end Steps

/-! ### Runs -/

/-- **Every opened port has its close pending** throughout a run of opens and expiries exactly if
each open finds no other port waiting for its close. -/
theorem closing_iff {r : Rest} (hr : Shut r) {es : List Event} (hes : ∀ e ∈ es, IsDoorEvent e) :
    Throughout step Closing r es ↔ Along step OpensAlone r es := by
  refine throughout_iff_along step (V := fun _ e => IsDoorEvent e) (I := DoorInv) ?_ ?_ hr.doorInv
    hr.doorInv.closing ((along_event_iff step).2 hes)
  · rintro r (conn | ⟨t, tz⟩ | _) hi hv hok
    · exact ⟨(open_closing_iff hi hv.1).2 hok, fun _ => open_pending hv.1⟩
    · exact absurd hv id
    · exact expire_doorInv hi
  · rintro r (conn | ⟨t, tz⟩ | _) hi hv
    · exact open_closing_iff hi hv.1
    · exact absurd hv id
    · exact iff_of_true (expire_doorInv hi).closing trivial

lemma start_shut (f : FlashData) : Shut (Rest.start f) := ⟨rfl, rfl⟩

/-- Two doors, the second opened after the first is closed. -/
theorem closing_in_turn :
    Throughout step Closing (.start .zero) [.request (.get "/open"), .expire, .request (.get "/open/5")] := by
  refine (closing_iff (start_shut _) ?_).2 ?_
  · simp only [List.forall_mem_cons, List.not_mem_nil, false_implies, implies_true, and_true]
    exact ⟨⟨by decide, by decide⟩, trivial, by decide, by decide⟩
  · refine ⟨fun ha => ?_, trivial, fun ha => ?_, trivial⟩
    · cases ha
    · rw [expire_idle] at ha
      cases ha

/-- **A lost close**: with port `5` opened before port `6` is closed, nothing will close port `6`. -/
theorem not_closing_overlapping :
    ¬ Throughout step Closing (.start .zero) [.request (.get "/open/6"), .request (.get "/open/5")] := by
  intro h
  have h6 : command (ascii "/open/6") = ascii "open" := by decide
  have h5 : command (ascii "/open/5") = ascii "open" := by decide
  have hc : Closing (run step (.start .zero) [.request (.get "/open/6"), .request (.get "/open/5")]) :=
    run_of_throughout step h
  have hlast : lastSet (run step (.start .zero)
      [.request (.get "/open/6"), .request (.get "/open/5")]) 6 = some 1 := by
    rw [run_cons, run_cons, run_nil, open_lastSet h5, open_lastSet h6]
    decide
  have htimer := hc 6 hlast
  rw [run_cons, run_cons, run_nil, open_openTimer h5] at htimer
  exact absurd htimer (by decide)

end Esp8266Rest.Outputs
