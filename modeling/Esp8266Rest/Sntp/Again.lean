import Esp8266Rest.Sntp.Client

/-!
# `sntp_init` once more

`network_check_ip` calls `sntp_init` each time it finds the station connected.  Once the client has its
socket, that only sets the time zone: a run without the later calls does the same in all else
(`inits_do_not_matter`).
-/

namespace Esp8266Rest.Sntp

open Esp8266Rest.Lib.CStr Esp8266Rest.Lib.Runs Esp8266Rest.Lib.Timeouts Esp8266Rest.Model

variable {s s' : Sntp}

/-- A call of `sntp_init`. -/
def isInit (e : SntpEvent) : Bool :=
  match e.call with
  | .init _ _ => true
  | _ => false

/-- All but the time zone and the time of the last call. -/
def core (s : Sntp) : Sntp := { s with now := 0, sntpTz := 0 }

/-- The zone of the last `sntp_init`. -/
def lastZone (tz : Int32) (es : List SntpEvent) : Int32 :=
  es.foldl (fun tz e => match e.call with
    | .init tz' _ => tz'
    | _ => tz) tz

/-! ### The zone is not looked at -/

section Zone

variable (z : Int32) (s : Sntp)

theorem sntpRetry_zone (stack : Stack) :
    sntpRetry stack { s with sntpTz := z } = { sntpRetry stack s with sntpTz := z } := by
  rw [sntpRetry_eq, sntpRetry_eq]
  rfl

theorem sntpSendRequest_zone (stack : Stack) (addr : UInt32) :
    sntpSendRequest stack addr { s with sntpTz := z } =
      { sntpSendRequest stack addr s with sntpTz := z } := by
  unfold sntpSendRequest
  split <;> rfl

theorem sntpRequest_zone (stack : Stack) :
    sntpRequest stack { s with sntpTz := z } = { sntpRequest stack s with sntpTz := z } := by
  unfold sntpRequest
  cases stack.dns with
  | ok addr => exact sntpSendRequest_zone z (s.act .lookup) stack addr
  | inProgress => rfl
  | other => rfl

theorem sntpDnsFound_zone (stack : Stack) (ipaddr : Option UInt32) :
    sntpDnsFound stack ipaddr { s with sntpTz := z } =
      { sntpDnsFound stack ipaddr s with sntpTz := z } := by
  cases ipaddr with
  | none => exact sntpRetry_zone z s stack
  | some addr => exact sntpSendRequest_zone z s stack addr

theorem sntpRecv_zone (stack : Stack) (p : Bytes) :
    sntpRecv stack p { s with sntpTz := z } = { sntpRecv stack p s with sntpTz := z } := by
  unfold sntpRecv
  cases sntpCheck p with
  | error err =>
    cases err <;> exact sntpRetry_zone z (sysUntimeout .sntpRequest (sysUntimeout .sntpRetry s)) stack
  | ok ts => rfl

theorem run_zone (stack : Stack) (handler : SntpHandler) :
    handler.run stack { s with sntpTz := z } = { handler.run stack s with sntpTz := z } := by
  cases handler with
  | sntpRequest => exact sntpRequest_zone z s stack
  | sntpRetry => exact sntpRetry_zone z s stack

/-- **No call but `sntp_init` looks at the zone**, nor at the time of the call before. -/
theorem step_zone {e : SntpEvent} (h : isInit e = false) (now : ℕ) :
    ({ s with now, sntpTz := z } : Sntp).step e = { s.step e with sntpTz := z } := by
  obtain ⟨time, call⟩ := e
  cases call with
  | init tz stack => nomatch h
  | timeout stack =>
    unfold Sntp.step Sntp.call
    dsimp only
    split
    · rfl
    · rename_i t timeouts hts
      exact run_zone z { s with now := time, timeouts } stack t.handler
  | dnsFound ipaddr stack =>
    unfold Sntp.step Sntp.call
    dsimp only
    split
    · rfl
    · exact sntpDnsFound_zone z { s with now := time, lookups := s.lookups - 1 } stack ipaddr
  | recv p stack =>
    unfold Sntp.step Sntp.call
    dsimp only
    split
    · exact sntpRecv_zone z { s with now := time } stack p
    · rfl
  | ntpTimer =>
    unfold Sntp.step Sntp.call
    dsimp only
    split <;> rfl

end Zone

/-! ### Runs -/

lemma sntpTz_step {e : SntpEvent} (h : isInit e = false) (s : Sntp) : (s.step e).sntpTz = s.sntpTz := by
  have hzone : s.step e = { s.step e with sntpTz := s.sntpTz } := step_zone s.sntpTz s h s.now
  rw [hzone]

theorem sntpTz_init (tz : Int32) (stack : Stack) (s : Sntp) : (sntpInit tz stack s).sntpTz = tz := by
  rcases Bool.eq_false_or_eq_true s.sntpPcb with hpcb | hpcb
  · rw [sntpInit_of_pcb hpcb]
  · rw [sntpInit_of_not_pcb hpcb]
    split
    · exact congrArg Sntp.sntpTz (sntpRequest_zone tz { s with sntpRetryTimeout, sntpPcb := true } stack)
    · rfl

theorem step_of_init (hpcb : s.sntpPcb = true) {e : SntpEvent} (h : isInit e = true) :
    core (s.step e) = core s ∧ (s.step e).sntpTz = lastZone s.sntpTz [e] := by
  obtain ⟨time, call⟩ := e
  cases call with
  | init tz stack =>
    have hnow : ({ s with now := time } : Sntp).sntpPcb = true := hpcb
    have hstep : s.step ⟨time, .init tz stack⟩ = { s with now := time, sntpTz := tz } :=
      sntpInit_of_pcb hnow tz stack
    rw [hstep]
    exact ⟨rfl, rfl⟩
  | timeout stack => nomatch h
  | dnsFound ipaddr stack => nomatch h
  | recv p stack => nomatch h
  | ntpTimer => nomatch h

theorem core_step (h : core s = core s') {e : SntpEvent} (hinit : isInit e = false) :
    core (s.step e) = core (s'.step e) := by
  have hs : s' = { s with now := s'.now, sntpTz := s'.sntpTz } := by
    cases s
    cases s'
    simp only [core, Sntp.mk.injEq, true_and] at h
    obtain ⟨rfl, rfl, rfl, rfl, rfl, rfl, rfl⟩ := h
    rfl
  rw [hs, step_zone s'.sntpTz s hinit s'.now]
  rfl

theorem core_run (h₀ : BacksOff s) (hpcb : s.sntpPcb = true) (h : core s = core s') (fs : List SntpEvent) :
    core (run Sntp.step s fs) = core (run Sntp.step s' (fs.filter fun e => !isInit e)) ∧
      (run Sntp.step s fs).sntpTz = lastZone s.sntpTz fs := by
  induction fs generalizing s s' with
  | nil => exact ⟨h, rfl⟩
  | cons e fs ih =>
    have hrest := backsOff_step h₀ e
    have hopen := pcb_step h₀ hpcb e
    cases hinit : isInit e with
    | true =>
      obtain ⟨hcore, hzone⟩ := step_of_init hpcb hinit
      obtain ⟨hsame, htz⟩ := ih hrest hopen (hcore.trans h)
      rw [List.filter_cons_of_neg (by simp [hinit]), run_cons]
      refine ⟨hsame, htz.trans ?_⟩
      rw [hzone]
      rfl
    | false =>
      obtain ⟨hsame, htz⟩ := ih hrest hopen (core_step h hinit)
      have hkeep : lastZone s.sntpTz (e :: fs) = lastZone s.sntpTz fs := by
        obtain ⟨time, call⟩ := e
        cases call with
        | init tz stack => nomatch hinit
        | timeout stack => rfl
        | dnsFound ipaddr stack => rfl
        | recv p stack => rfl
        | ntpTimer => rfl
      rw [List.filter_cons_of_pos (by simp [hinit]), run_cons, run_cons]
      refine ⟨hsame, htz.trans ?_⟩
      rw [hkeep, sntpTz_step hinit]

/-- **`sntp_init` once more does nothing but set the zone**: from the socket on, a run does the same without
the later calls, up to the zone, and the zone is that of the last call. -/
theorem inits_do_not_matter (es fs : List SntpEvent) (hpcb : (run Sntp.step .start es).sntpPcb = true) :
    core (run Sntp.step .start (es ++ fs)) =
        core (run Sntp.step .start (es ++ fs.filter fun e => !isInit e)) ∧
      (run Sntp.step .start (es ++ fs)).sntpTz = lastZone (run Sntp.step .start es).sntpTz fs := by
  rw [run_append, run_append]
  exact core_run (backsOff_run es) hpcb rfl fs

/-- Two checks of the network, ten minutes apart. -/
theorem inits_do_not_matter_twice :
    core (run Sntp.step .start ([⟨0, .init 3 .willing⟩] ++ [⟨600000, .init 2 .willing⟩])) =
        core (run Sntp.step .start ([⟨0, .init 3 .willing⟩] ++
          [⟨600000, .init 2 .willing⟩].filter fun e => !isInit e)) ∧
      (run Sntp.step .start
        ([⟨0, .init 3 .willing⟩] ++ [⟨600000, .init 2 .willing⟩])).sntpTz =
        lastZone (run Sntp.step .start [⟨0, .init 3 .willing⟩]).sntpTz
          [⟨600000, .init 2 .willing⟩] :=
  inits_do_not_matter _ _ rfl

end Esp8266Rest.Sntp
