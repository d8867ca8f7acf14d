import Esp8266Rest.Lib.Backoff
import Esp8266Rest.Lib.Runs
import Esp8266Rest.Model.Sntp

/-!
# The retries

`sntp_retry` waits longer each time: three seconds, then six, twelve and twenty-four, and there it stays,
below `SNTP_RETRY_TIMEOUT_MAX`.  The next response that is accepted starts over.  `backsOff_run` says so of
the acts of a run of the client, in any order of timeouts, lookups and datagrams.
-/

namespace Esp8266Rest.Sntp

open Esp8266Rest.Lib.Backoff Esp8266Rest.Lib.CStr Esp8266Rest.Lib.Runs Esp8266Rest.Lib.Timeouts
open Esp8266Rest.Model

variable {s : Sntp}

/-- The retries since the last accepted response, counted act by act. -/
def countRetries (k : ℕ) (a : ℕ × SntpAct) : ℕ :=
  match a.2 with
  | .retry _ => k + 1
  | .process _ => 0
  | _ => k

def retries (acts : List (ℕ × SntpAct)) : ℕ := run countRetries 0 acts

/-- How long a retry waits that has `k` before it. -/
def retryWait (k : ℕ) : ℕ := 3000 * 2 ^ min k 3

lemma retryWait_eq_grow (k : ℕ) : retryWait k = (grow 30000)^[k] 3000 :=
  (grow_iterate (by decide) (by decide) k).symm

lemma retryWait_succ (k : ℕ) : retryWait (k + 1) = grow 30000 (retryWait k) := by
  rw [retryWait_eq_grow, retryWait_eq_grow, Function.iterate_succ_apply']

theorem retryWait_bounds (k : ℕ) : 3000 ≤ retryWait k ∧ retryWait k ≤ 24000 := by
  have hlo : 2 ^ 0 ≤ 2 ^ min k 3 := Nat.pow_le_pow_right (by omega) (Nat.zero_le _)
  have hhi : 2 ^ min k 3 ≤ 2 ^ 3 := Nat.pow_le_pow_right (by omega) (Nat.min_le_right k 3)
  unfold retryWait
  omega

/-- A retry waits as long as those before it say. -/
def Waited (k : ℕ) (a : ℕ × SntpAct) : Prop := ∀ ms, a.2 = .retry ms → ms.toNat = retryWait k

/-- Every retry waited as long as those before it say, and so will the next one; without a socket there is
nothing to do. -/
structure BacksOff (s : Sntp) : Prop where
  idle : s.sntpPcb = false → s.acts = [] ∧ s.timeouts = [] ∧ s.lookups = 0
  next : s.sntpPcb = true → s.sntpRetryTimeout.toNat = retryWait (retries s.acts)
  waited : Along countRetries Waited 0 s.acts

lemma backsOff_start : BacksOff .start :=
  ⟨fun _ => ⟨rfl, rfl, rfl⟩, fun h => absurd h Bool.false_ne_true, trivial⟩

/-! ### One call -/

theorem sntpRetry_eq (stack : Stack) (s : Sntp) : sntpRetry stack s =
    { sysTimeout stack s.sntpRetryTimeout .sntpRequest (s.act (.retry s.sntpRetryTimeout)) with
      sntpRetryTimeout := growWord sntpRetryTimeoutMax s.sntpRetryTimeout } := by
  unfold growWord
  by_cases h : s.sntpRetryTimeout <<< 1 ≤ sntpRetryTimeoutMax ∧
      s.sntpRetryTimeout <<< 1 > s.sntpRetryTimeout
  · rw [if_pos h]
    exact if_pos h
  · rw [if_neg h]
    exact if_neg h

lemma sntpInit_of_pcb (h : s.sntpPcb = true) (tz : Int32) (stack : Stack) :
    sntpInit tz stack s = { s with sntpTz := tz } := if_pos h

theorem sntpInit_of_not_pcb (h : s.sntpPcb = false) (tz : Int32) (stack : Stack) :
    sntpInit tz stack s =
      if stack.udpNew then sntpRequest stack { s with sntpTz := tz, sntpRetryTimeout, sntpPcb := true }
      else { s with sntpTz := tz, sntpRetryTimeout } := by
  refine (if_neg ?_).trans rfl
  rw [Bool.not_eq_true]
  exact h

lemma retries_concat (acts : List (ℕ × SntpAct)) (a : ℕ × SntpAct) :
    retries (acts ++ [a]) = countRetries (retries acts) a := run_append countRetries 0 acts [a]

theorem waited_concat {acts : List (ℕ × SntpAct)} {a : ℕ × SntpAct} :
    Along countRetries Waited 0 (acts ++ [a]) ↔
      Along countRetries Waited 0 acts ∧ Waited (retries acts) a := by
  rw [along_append]
  exact and_congr_right fun _ => ⟨fun h => h.1, fun h => ⟨h, trivial⟩⟩

theorem BacksOff.of_pcb {acts : List (ℕ × SntpAct)} (hpcb : s.sntpPcb = true) (hacts : s.acts = acts)
    (hnext : s.sntpRetryTimeout.toNat = retryWait (retries acts))
    (hwaited : Along countRetries Waited 0 acts) : BacksOff s := by
  subst hacts
  refine ⟨fun hnot => ?_, fun _ => hnext, hwaited⟩
  exact absurd (hpcb.symm.trans hnot) Bool.noConfusion

theorem BacksOff.acted {s' : Sntp} {a : ℕ × SntpAct} (h : BacksOff s) (hpcb : s'.sntpPcb = true)
    (hacts : s'.acts = s.acts ++ [a])
    (hnext : s'.sntpRetryTimeout.toNat = retryWait (countRetries (retries s.acts) a))
    (hwaited : Waited (retries s.acts) a) : BacksOff s' := by
  refine .of_pcb hpcb hacts ?_ (waited_concat.2 ⟨h.waited, hwaited⟩)
  rw [retries_concat]
  exact hnext

section Calls

variable (h : BacksOff s) (hpcb : s.sntpPcb = true)
include h hpcb

/-- Only the socket, the wait and the acts count. -/
theorem BacksOff.congr {s' : Sntp} (hpcb' : s'.sntpPcb = true)
    (hms : s'.sntpRetryTimeout = s.sntpRetryTimeout) (hacts : s'.acts = s.acts) : BacksOff s' := by
  refine .of_pcb hpcb' hacts ?_ h.waited
  rw [hms]
  exact h.next hpcb

theorem BacksOff.act {a : SntpAct} (hcount : ∀ k, countRetries k (s.now, a) = k)
    (hretry : ∀ ms, a ≠ .retry ms) : BacksOff (s.act a) := by
  refine h.acted hpcb rfl ?_ fun ms hms => absurd hms (hretry ms)
  rw [hcount]
  exact h.next hpcb

theorem backsOff_sntpRetry (stack : Stack) : BacksOff (sntpRetry stack s) := by
  have hnext := h.next hpcb
  rw [sntpRetry_eq]
  refine h.acted hpcb rfl ?_ fun ms hms => ?_
  · have hgrow := growWord_toNat sntpRetryTimeoutMax s.sntpRetryTimeout
    rw [hnext] at hgrow
    exact hgrow.trans (retryWait_succ _).symm
  · rw [← hnext]
    exact congrArg UInt32.toNat (SntpAct.retry.inj hms).symm

theorem backsOff_sntpSendRequest (stack : Stack) (addr : UInt32) :
    BacksOff (sntpSendRequest stack addr s) := by
  unfold sntpSendRequest
  split
  · exact (h.act hpcb (fun _ => rfl) (fun _ => SntpAct.noConfusion)).congr hpcb hpcb rfl rfl
  · exact h.congr hpcb hpcb rfl rfl

theorem backsOff_sntpDnsFound (stack : Stack) (ipaddr : Option UInt32) :
    BacksOff (sntpDnsFound stack ipaddr s) := by
  cases ipaddr with
  | none => exact backsOff_sntpRetry h hpcb stack
  | some addr => exact backsOff_sntpSendRequest h hpcb stack addr

theorem backsOff_sntpRequest (stack : Stack) : BacksOff (sntpRequest stack s) := by
  have hlookup : BacksOff (s.act .lookup) := h.act hpcb (fun _ => rfl) (fun _ => SntpAct.noConfusion)
  unfold sntpRequest
  cases stack.dns with
  | ok addr => exact backsOff_sntpSendRequest hlookup hpcb stack addr
  | inProgress => exact hlookup.congr hpcb hpcb rfl rfl
  | other => exact hlookup.congr hpcb hpcb rfl rfl

theorem backsOff_sntpRecv (stack : Stack) (p : Bytes) : BacksOff (sntpRecv stack p s) := by
  have hcancel : BacksOff (sysUntimeout .sntpRequest (sysUntimeout .sntpRetry s)) := h.congr hpcb hpcb rfl rfl
  unfold sntpRecv
  cases sntpCheck p with
  | error err => cases err <;> exact backsOff_sntpRetry hcancel hpcb stack
  | ok ts =>
    exact hcancel.acted hpcb rfl rfl fun ms hms => absurd hms SntpAct.noConfusion

end Calls

theorem backsOff_sntpInit (h : BacksOff s) (tz : Int32) (stack : Stack) : BacksOff (sntpInit tz stack s) := by
  cases hpcb : s.sntpPcb with
  | true =>
    rw [sntpInit_of_pcb hpcb]
    exact h.congr hpcb hpcb rfl rfl
  | false =>
    have hidle := h.idle hpcb
    have hfirst : (3000 : UInt32).toNat = retryWait (retries s.acts) := by
      rw [hidle.1]
      rfl
    have hopen : BacksOff { s with sntpTz := tz, sntpRetryTimeout, sntpPcb := true } :=
      .of_pcb rfl rfl hfirst h.waited
    rw [sntpInit_of_not_pcb hpcb]
    split
    · exact backsOff_sntpRequest hopen rfl stack
    · exact ⟨fun _ => hidle, fun hyes => absurd (hpcb.symm.trans hyes) Bool.noConfusion, h.waited⟩

/-! ### Runs -/

lemma BacksOff.pcb_of_timeouts (h : BacksOff s) (ht : s.timeouts ≠ []) : s.sntpPcb = true := by
  by_contra hnot
  exact ht (h.idle (Bool.eq_false_of_not_eq_true hnot)).2.1

lemma BacksOff.pcb_of_lookups (h : BacksOff s) (hl : s.lookups ≠ 0) : s.sntpPcb = true := by
  by_contra hnot
  exact hl (h.idle (Bool.eq_false_of_not_eq_true hnot)).2.2

/-- **What one call keeps.** -/
theorem backsOff_step (h : BacksOff s) (e : SntpEvent) : BacksOff (s.step e) := by
  have hnow : BacksOff { s with now := e.time } := ⟨h.idle, h.next, h.waited⟩
  apply Sntp.step_cases
  case still => exact hnow
  case init =>
    intro tz stack _
    exact backsOff_sntpInit hnow tz stack
  case timeout =>
    intro stack t timeouts _ hts
    have hpcb : s.sntpPcb = true := h.pcb_of_timeouts (by simp [hts])
    have htail : BacksOff { s with now := e.time, timeouts } := hnow.congr hpcb hpcb rfl rfl
    cases t.handler with
    | sntpRequest => exact backsOff_sntpRequest htail hpcb stack
    | sntpRetry => exact backsOff_sntpRetry htail hpcb stack
  case dnsFound =>
    intro ipaddr stack _ hlookups
    have hpcb : s.sntpPcb = true := h.pcb_of_lookups hlookups
    have hrest : BacksOff { s with now := e.time, lookups := s.lookups - 1 } :=
      hnow.congr hpcb hpcb rfl rfl
    exact backsOff_sntpDnsFound hrest hpcb stack ipaddr
  case recv =>
    intro p stack _ hpcb
    exact backsOff_sntpRecv hnow hpcb stack p
  case ntpTimer =>
    intro _ _
    exact ⟨h.idle, h.next, h.waited⟩

lemma backsOff_run (es : List SntpEvent) : BacksOff (run Sntp.step .start es) :=
  run_of_step (P := BacksOff) Sntp.step (fun _ e h => backsOff_step h e) backsOff_start es

/-- **The retries back off**: in every run, a retry with `k` others since the last accepted response waits
`3000 * 2 ^ min k 3` milliseconds, so never more than twenty-four seconds, and so will the next one. -/
theorem retries_back_off (es : List SntpEvent) :
    let s := run Sntp.step .start es
    (∀ pre post t ms, s.acts = pre ++ (t, .retry ms) :: post →
      ms.toNat = 3000 * 2 ^ min (retries pre) 3 ∧ ms.toNat ≤ 24000) ∧
    (s.sntpPcb = true → s.sntpRetryTimeout.toNat = 3000 * 2 ^ min (retries s.acts) 3) := by
  intro s
  have h : BacksOff s := backsOff_run es
  refine ⟨fun pre post t ms hacts => ?_, h.next⟩
  have hwaited := h.waited
  rw [hacts, along_append] at hwaited
  have hms : ms.toNat = retryWait (retries pre) := hwaited.2.1 ms rfl
  refine ⟨hms, ?_⟩
  rw [hms]
  exact (retryWait_bounds _).2

end Esp8266Rest.Sntp
