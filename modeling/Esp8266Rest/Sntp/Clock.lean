import Esp8266Rest.Sntp.Message
import Esp8266Rest.Sntp.Client

/-!
# The clock

`sntp_time` stands still until the first response is accepted, and counts the expiries of `ntp_timer` from
then on.  Nothing else in a run moves it: not a request, not a retry, not a datagram that is no response,
not a second `sntp_init`.
-/

namespace Esp8266Rest.Sntp

open Esp8266Rest.Lib.CStr Esp8266Rest.Lib.Runs Esp8266Rest.Lib.Timeouts Esp8266Rest.Model

variable {s : Sntp}

/-- The time in a datagram that is accepted. -/
def response? (e : SntpEvent) : Option Int32 :=
  match e.call with
  | .recv p _ =>
    match sntpCheck p with
    | .ok ts => some (unixTime ts)
    | .error _ => none
  | _ => none

/-- `ntp_timer` expires. -/
def isTick (e : SntpEvent) : Bool := e.call = .ntpTimer

/-! ### One call -/

/-- The clock and its timer. -/
def clock (s : Sntp) : Int32 × Bool := (s.sntpTime, s.ntpTimer)

lemma clock_sntpRetry (stack : Stack) (s : Sntp) : clock (sntpRetry stack s) = clock s := by
  rw [sntpRetry_eq]
  rfl

theorem clock_sntpSendRequest (stack : Stack) (addr : UInt32) (s : Sntp) :
    clock (sntpSendRequest stack addr s) = clock s := by
  unfold sntpSendRequest
  split <;> rfl

theorem clock_sntpRequest (stack : Stack) (s : Sntp) : clock (sntpRequest stack s) = clock s := by
  unfold sntpRequest
  cases stack.dns with
  | ok addr => exact clock_sntpSendRequest stack addr (s.act .lookup)
  | inProgress => rfl
  | other => rfl

theorem clock_sntpDnsFound (stack : Stack) (ipaddr : Option UInt32) (s : Sntp) :
    clock (sntpDnsFound stack ipaddr s) = clock s := by
  cases ipaddr with
  | none => exact clock_sntpRetry stack s
  | some addr => exact clock_sntpSendRequest stack addr s

theorem clock_sntpInit (tz : Int32) (stack : Stack) (s : Sntp) : clock (sntpInit tz stack s) = clock s := by
  rcases Bool.eq_false_or_eq_true s.sntpPcb with hpcb | hpcb
  · rw [sntpInit_of_pcb hpcb]
    rfl
  · rw [sntpInit_of_not_pcb hpcb]
    split
    · exact clock_sntpRequest stack _
    · rfl

theorem clock_run (stack : Stack) (handler : SntpHandler) (s : Sntp) :
    clock (handler.run stack s) = clock s := by
  cases handler with
  | sntpRequest => exact clock_sntpRequest stack s
  | sntpRetry => exact clock_sntpRetry stack s

/-- **What a call does to the clock** that is no accepted response. -/
theorem clock_step {e : SntpEvent} (h : response? e = none) :
    clock (s.step e) = (if isTick e && s.ntpTimer then s.sntpTime + 1 else s.sntpTime, s.ntpTimer) := by
  have hother : isTick e = false → (if isTick e && s.ntpTimer then s.sntpTime + 1 else s.sntpTime, s.ntpTimer) =
      clock s := by
    intro htick
    rw [htick]
    rfl
  obtain ⟨time, call⟩ := e
  cases call with
  | ntpTimer =>
    unfold Sntp.step Sntp.call clock isTick
    cases s.ntpTimer <;> rfl
  | init tz stack =>
    rw [hother rfl]
    exact clock_sntpInit tz stack { s with now := time }
  | timeout stack =>
    rw [hother rfl]
    apply Sntp.step_cases (P := fun s' => clock s' = clock s)
    case timeout =>
      intro _ t timeouts _ _
      exact clock_run _ t.handler { s with now := time, timeouts }
    all_goals first | rfl | (intros; contradiction)
  | dnsFound ipaddr stack =>
    rw [hother rfl]
    apply Sntp.step_cases (P := fun s' => clock s' = clock s)
    case dnsFound =>
      intro _ _ _ _
      exact clock_sntpDnsFound _ _ { s with now := time, lookups := s.lookups - 1 }
    all_goals first | rfl | (intros; contradiction)
  | recv p stack =>
    rw [hother rfl]
    apply Sntp.step_cases (P := fun s' => clock s' = clock s)
    case recv =>
      intro q _ hq _
      obtain ⟨rfl, rfl⟩ := SntpCall.recv.inj hq
      unfold sntpRecv
      cases hcheck : sntpCheck p with
      | error err => cases err <;> exact clock_sntpRetry stack (stopped { s with now := time })
      | ok ts =>
        unfold response? at h
        simp only [hcheck] at h
        nomatch h
    all_goals first | rfl | (intros; contradiction)

theorem clock_response {e : SntpEvent} {t : Int32} (hpcb : s.sntpPcb = true) (h : response? e = some t) :
    clock (s.step e) = (t, true) := by
  obtain ⟨time, call⟩ := e
  cases call with
  | recv p stack =>
    have hstep : s.step ⟨time, .recv p stack⟩ = sntpRecv stack p { s with now := time } := if_pos hpcb
    unfold response? at h
    rw [hstep]
    unfold sntpRecv
    cases hcheck : sntpCheck p with
    | error err =>
      simp only [hcheck] at h
      nomatch h
    | ok ts =>
      simp only [hcheck] at h
      obtain rfl := Option.some.inj h
      rfl
  | init tz stack => nomatch h
  | timeout stack => nomatch h
  | dnsFound ipaddr stack => nomatch h
  | ntpTimer => nomatch h

/-! ### Runs -/

/-- How often `ntp_timer` expires. -/
def ticks (es : List SntpEvent) : ℕ := es.countP isTick

theorem clock_of_armed (harmed : s.ntpTimer = true) {es : List SntpEvent} (h : ∀ e ∈ es, response? e = none) :
    (run Sntp.step s es).sntpTime = s.sntpTime + Int32.ofNat (ticks es) := by
  induction es generalizing s with
  | nil => exact (Int32.add_zero s.sntpTime).symm
  | cons e es ih =>
    have hstep := clock_step (s := s) (h e List.mem_cons_self)
    rw [harmed, Bool.and_true] at hstep
    have htime : (s.step e).sntpTime = if isTick e then s.sntpTime + 1 else s.sntpTime := congrArg Prod.fst hstep
    have hon : (s.step e).ntpTimer = true := congrArg Prod.snd hstep
    rw [run_cons, ih hon fun f hf => h f (List.mem_cons_of_mem e hf), htime]
    unfold ticks
    rw [List.countP_cons]
    split
    · rw [Int32.ofNat_add, Int32.add_comm (Int32.ofNat _), ← Int32.add_assoc]
      rfl
    · rfl

theorem clock_of_unanswered {es : List SntpEvent} (h : ∀ e ∈ es, response? e = none) :
    clock (run Sntp.step .start es) = (0, false) := by
  suffices key : ∀ s : Sntp, clock s = (0, false) → clock (run Sntp.step s es) = (0, false) from key .start rfl
  induction es with
  | nil => exact fun s hs => hs
  | cons e es ih =>
    intro s hs
    refine ih (fun f hf => h f (List.mem_cons_of_mem e hf)) (s.step e) ?_
    have hoff : s.ntpTimer = false := congrArg Prod.snd hs
    rw [clock_step (h e List.mem_cons_self), hoff, Bool.and_false]
    exact congrArg₂ Prod.mk (congrArg Prod.fst hs) rfl

theorem response_of_accepted (time : ℕ) (stack : Stack) {m : SntpMsg} {t : ℕ} (hm : m.Accepted)
    (ht : m.receiveTimestamp.1 = stampOf t) : response? ⟨time, .recv m.bytes stack⟩ = some (Int32.ofNat t) := by
  have hcheck : sntpCheck m.bytes = .ok m.receiveTime := sntpCheck_ok_iff.2 ⟨m, rfl, hm, rfl⟩
  unfold response?
  simp only [hcheck]
  rw [unixTime_stampOf ht]

/-- **The clock law**: in every run the clock stands at `0` until a response is accepted, and after one with
the second `t` it shows `t` and the ticks since then, whatever else happened in between. -/
theorem clock_law (es : List SntpEvent) :
    ((∀ e ∈ es, response? e = none) → (run Sntp.step .start es).sntpTime = 0) ∧
    ∀ (pre : List SntpEvent) (time : ℕ) (m : SntpMsg) (stack : Stack) (t : ℕ) (post : List SntpEvent),
      es = pre ++ ⟨time, .recv m.bytes stack⟩ :: post →
      (run Sntp.step .start pre).sntpPcb = true → m.Accepted → m.receiveTimestamp.1 = stampOf t →
      (∀ e ∈ post, response? e = none) →
      (run Sntp.step .start es).sntpTime = Int32.ofNat (t + ticks post) := by
  refine ⟨fun h => congrArg Prod.fst (clock_of_unanswered h), ?_⟩
  intro pre time m stack t post hes hpcb hm ht hpost
  have hset := clock_response (s := run Sntp.step .start pre) hpcb (response_of_accepted time stack hm ht)
  have htime : ((run Sntp.step .start pre).step ⟨time, .recv m.bytes stack⟩).sntpTime = Int32.ofNat t :=
    congrArg Prod.fst hset
  have hon : ((run Sntp.step .start pre).step ⟨time, .recv m.bytes stack⟩).ntpTimer = true :=
    congrArg Prod.snd hset
  rw [hes, run_append, run_cons, clock_of_armed hon hpost, htime, Int32.ofNat_add]

/-- A response, and one tick later. -/
theorem clock_law_tick :
    (run Sntp.step .start [⟨0, .init 3 .willing⟩, ⟨20, .recv (SntpMsg.bytes
      { liVnMode := 0x24, stratum := 1, poll := 0, precision := 0, rootDelay := 0, rootDispersion := 0,
        referenceIdentifier := 0, referenceTimestamp := (0, 0), originateTimestamp := (0, 0),
        receiveTimestamp := (stampOf 1700000000, 0), transmitTimestamp := (0, 0) }) .nameless⟩,
      ⟨1020, .ntpTimer⟩]).sntpTime = Int32.ofNat (1700000000 + 1) := by
  refine (clock_law _).2 [⟨0, .init 3 .willing⟩] 20 _ _ 1700000000 [⟨1020, .ntpTimer⟩] rfl rfl ?_ rfl ?_
  · decide
  · intro e he
    obtain rfl := List.mem_singleton.1 he
    rfl

end Esp8266Rest.Sntp
