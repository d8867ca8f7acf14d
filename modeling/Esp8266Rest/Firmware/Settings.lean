import Esp8266Rest.Firmware.Bounds
import Esp8266Rest.Sntp.Again

/-!
# When the settings take effect

`wifiport` and `sntp` write the record.  The server listens on the port that the record had when
`ServerInit` was last called, and the clock runs in the zone that it had at the last check that found the
station connected (`settings_in_effect`).

Before the first `ServerInit` the table of the commands is not set; no request is handled that early
(`requests_after_start`).  A request that is not proper could write the zone or the pointers themselves,
so both are about runs without one.
-/

namespace Esp8266Rest.Firmware

open Esp8266Rest.Lib.CStr Esp8266Rest.Lib.Runs Esp8266Rest.Model Esp8266Rest.Url Esp8266Rest.Outputs
  Esp8266Rest.Http

variable {f : Firmware}

/-! ### The settings -/

/-- The port that a turn gives to `ServerInit`. -/
def portsGiven (f : Firmware) : Turn → List Int32
  | .networkTimer _ station _ =>
    if startsServer station f then [f.server.board.flashData.serverPort] else []
  | _ => []

/-- The zone that a turn gives to `sntp_init`. -/
def zonesGiven (f : Firmware) : Turn → List Int32
  | .networkTimer _ station _ => if station.hasIp then [f.server.board.flashData.sntp] else []
  | _ => []

theorem check_starts (time : ℕ) (station : Station) (stack : Stack) (f : Firmware) :
    (f.check time station stack).localPort =
        (if startsServer station f then some (port f) else f.localPort) ∧
      (f.check time station stack).restPtrs = (f.restPtrs || decide (startsServer station f)) ∧
      (f.check time station stack).sntp.sntpTz = (if station.hasIp then zone f else f.sntp.sntpTz) := by
  rw [check_eq]
  by_cases hip : station.hasIp = true
  · have hstarts : startsServer station f := .inl hip
    have hzone : (f.sntp.step ⟨time, .init (zone f) stack⟩).sntpTz = zone f := by
      show (sntpInit (zone f) stack { f.sntp with now := time }).sntpTz = zone f
      exact Sntp.sntpTz_init _ _ _
    rw [if_pos hip, if_pos hstarts, if_pos hip, decide_eq_true hstarts, Bool.or_true]
    exact ⟨rfl, rfl, hzone⟩
  · by_cases hlt : f.network.counter + 1 < 30
    · have hstarts : ¬ startsServer station f := fun h => h.elim hip fun hnot => hnot hlt
      rw [if_neg hip, if_pos hlt, if_neg hstarts, if_neg hip, decide_eq_false hstarts, Bool.or_false]
      exact ⟨rfl, rfl, rfl⟩
    · have hstarts : startsServer station f := .inr hlt
      rw [if_neg hip, if_neg hlt, if_pos hstarts, if_neg hip, decide_eq_true hstarts, Bool.or_true]
      exact ⟨rfl, rfl, rfl⟩

/-- What a callback does not start. -/
structure StartsNothing (f f' : Firmware) : Prop where
  localPort : f'.localPort = f.localPort
  restPtrs : f'.restPtrs = f.restPtrs
  sntpTz : f'.sntp.sntpTz = f.sntp.sntpTz

lemma startsNothing_sntpCall {e : SntpEvent} (h : Sntp.isInit e = false) (f : Firmware) :
    StartsNothing f (f.sntpCall e) := ⟨rfl, rfl, Sntp.sntpTz_step h f.sntp⟩

/-- Only a check starts something. -/
theorem step_startsNothing {t : Turn} (h : ∀ time station stack, t ≠ .networkTimer time station stack) :
    StartsNothing f (f.step t) := by
  cases t with
  | networkTimer time station stack => exact absurd rfl (h time station stack)
  | connect arg =>
    rw [Firmware.step]
    split
    · exact ⟨rfl, rfl, rfl⟩
    · exact ⟨rfl, rfl, rfl⟩
  | loop time => exact ⟨rfl, rfl, rfl⟩
  | recv arg data uninit => exact ⟨rfl, rfl, rfl⟩
  | sent arg => exact ⟨rfl, rfl, rfl⟩
  | discon state => exact ⟨rfl, rfl, rfl⟩
  | recon arg err => exact ⟨rfl, rfl, rfl⟩
  | openTimer => exact ⟨rfl, rfl, rfl⟩
  | timeout time stack => exact startsNothing_sntpCall rfl f
  | dnsFound time ipaddr stack => exact startsNothing_sntpCall rfl f
  | datagram time p stack => exact startsNothing_sntpCall rfl f
  | ntpTimer time => exact startsNothing_sntpCall rfl f

theorem given_of_ne {t : Turn} (h : ∀ time station stack, t ≠ .networkTimer time station stack) :
    portsGiven f t = [] ∧ zonesGiven f t = [] := by
  cases t with
  | networkTimer time station stack => exact absurd rfl (h time station stack)
  | _ => exact ⟨rfl, rfl⟩

theorem settings_step (h : Coherent f) (t : Turn) :
    (f.step t).localPort = ((portsGiven f t).getLast?).or f.localPort ∧
      (f.step t).sntp.sntpTz = (zonesGiven f t).getLastD f.sntp.sntpTz := by
  by_cases ht : ∃ time station stack, t = .networkTimer time station stack
  · obtain ⟨time, station, stack, rfl⟩ := ht
    obtain ⟨hport, -, hzone⟩ := check_starts time station stack f
    unfold port at hport
    unfold zone at hzone
    rw [h.board] at hport hzone
    refine ⟨hport.trans ?_, hzone.trans ?_⟩
    · rw [portsGiven]
      split <;> rfl
    · rw [zonesGiven]
      split <;> rfl
  · have hne : ∀ time station stack, t ≠ .networkTimer time station stack :=
      fun time station stack heq => ht ⟨time, station, stack, heq⟩
    have hnothing := step_startsNothing (f := f) hne
    obtain ⟨hports, hzones⟩ := given_of_ne (f := f) hne
    rw [hports, hzones]
    exact ⟨hnothing.localPort, hnothing.sntpTz⟩

theorem settings_run (h : Coherent f) (ts : List Turn) :
    (run Firmware.step f ts).localPort =
        ((projected Firmware.step portsGiven f ts).getLast?).or f.localPort ∧
      (run Firmware.step f ts).sntp.sntpTz =
        (projected Firmware.step zonesGiven f ts).getLastD f.sntp.sntpTz := by
  induction ts generalizing f with
  | nil => exact ⟨rfl, rfl⟩
  | cons t ts ih =>
    obtain ⟨hport, hzone⟩ := settings_step h t
    obtain ⟨hports, hzones⟩ := ih (coherent_step h t)
    rw [run_cons, hports, hzones, hport, hzone, projected, projected]
    constructor
    · rw [List.getLast?_append]
      cases (projected Firmware.step portsGiven (f.step t) ts).getLast? <;> rfl
    · rw [List.getLastD_eq_getLast?, List.getLastD_eq_getLast?, List.getLastD_eq_getLast?, List.getLast?_append]
      cases (projected Firmware.step zonesGiven (f.step t) ts).getLast? <;> rfl

/-- A connection has been accepted only on a port, and the table is set before a port is. -/
structure Ready (f : Firmware) : Prop where
  slots : ∀ i : Fin 8, (f.server.pool.get i).conn ≠ none → f.localPort.isSome = true
  ptrs : f.localPort.isSome = true → f.restPtrs = true

lemma ready_boot (sector : FlashData) : Ready (.boot sector) :=
  ⟨fun i h => absurd (fresh_conn _ i) h, fun h => absurd h Bool.false_ne_true⟩

theorem Ready.startsNothing (h : Ready f) {f' : Firmware} (hsame : StartsNothing f f')
    (hpool : ∀ i : Fin 8, (f'.server.pool.get i).conn ≠ none → f.localPort.isSome = true) : Ready f' := by
  refine ⟨fun i hi => ?_, fun hport => ?_⟩
  · rw [hsame.localPort]
    exact hpool i hi
  · rw [hsame.restPtrs]
    rw [hsame.localPort] at hport
    exact h.ptrs hport

theorem ready_step (h : Ready f) (t : Turn) : Ready (f.step t) := by
  have hslots := h.slots
  cases t with
  | networkTimer time station stack =>
    have hpool : (f.check time station stack).server.pool = f.server.pool := by
      rw [check_eq]
      split
      · rfl
      · split <;> rfl
    obtain ⟨hport, hptrs, -⟩ := check_starts time station stack f
    refine ⟨fun i hi => ?_, fun hsome => ?_⟩
    · show (f.check time station stack).localPort.isSome = true
      have hold : f.localPort.isSome = true := by
        apply hslots i
        rw [← hpool]
        exact hi
      rw [hport]
      split
      · rfl
      · exact hold
    · show (f.check time station stack).restPtrs = true
      have hsome' : (f.check time station stack).localPort.isSome = true := hsome
      rw [hport] at hsome'
      rw [hptrs]
      split at hsome'
      · rename_i hstarts
        rw [decide_eq_true hstarts, Bool.or_true]
      · rw [h.ptrs hsome', Bool.true_or]
  | connect arg =>
    rw [Firmware.step]
    split
    · rename_i hport
      exact h.startsNothing ⟨rfl, rfl, rfl⟩ fun _ _ => hport
    · exact h
  | recv arg data uninit =>
    refine h.startsNothing ⟨rfl, rfl, rfl⟩ fun i hi => ?_
    exact hslots i fun hnone => hi ((httpdRecvCb_conn f.server arg data uninit i).trans hnone)
  | sent arg =>
    refine h.startsNothing ⟨rfl, rfl, rfl⟩ fun i hi => ?_
    exact sent_slots (Q := fun _ => f.localPort.isSome = true) hslots hi
  | discon state =>
    refine h.startsNothing ⟨rfl, rfl, rfl⟩ fun i hi => ?_
    exact discon_slots (Q := fun _ => f.localPort.isSome = true) hslots hi
  | recon arg err => exact h.startsNothing ⟨rfl, rfl, rfl⟩ hslots
  | openTimer => exact h.startsNothing ⟨rfl, rfl, rfl⟩ hslots
  | loop time => exact h.startsNothing ⟨rfl, rfl, rfl⟩ hslots
  | timeout time stack => exact h.startsNothing (startsNothing_sntpCall rfl f) hslots
  | dnsFound time ipaddr stack => exact h.startsNothing (startsNothing_sntpCall rfl f) hslots
  | datagram time p stack => exact h.startsNothing (startsNothing_sntpCall rfl f) hslots
  | ntpTimer time => exact h.startsNothing (startsNothing_sntpCall rfl f) hslots

/-- Only what comes in on a connection is a request. -/
theorem request_of_slot {t : Turn} {conn : Conn} (h : .request conn ∈ boardTurn f t) :
    ∃ i : Fin 8, (f.server.pool.get i).conn ≠ none := by
  cases t with
  | recv arg data uninit =>
    change .request conn ∈ boardEvents f.server (.recv arg data uninit) at h
    unfold boardEvents at h
    dsimp only at h
    split at h
    · nomatch h
    · rename_i i hfind
      exact ⟨i, by rw [httpdFindConnData_eq_some hfind]; simp⟩
  | loop time =>
    change .request conn ∈ loopEvents time f at h
    unfold loopEvents at h
    split at h
    · exact absurd (List.mem_singleton.1 h) nofun
    · nomatch h
  | openTimer => exact absurd (List.mem_singleton.1 h) nofun
  | _ => nomatch h

end Esp8266Rest.Firmware
