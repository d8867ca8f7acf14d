import Esp8266Rest.Lib.Streaks
import Esp8266Rest.Model.Network

/-!
# The network watchdog counts failures

`network_check_ip` falls back when its `counter` reaches `30`.  A check without an IP counts it up and the
fallback resets it, but a successful check does not: the counter holds the failures since the last
fallback, whatever lies between them (`step_watched`).  `givesUpInTime_iff` says for which outcomes this
is a count of failures in a row.
-/

namespace Esp8266Rest.Watchdog

open Esp8266Rest.Lib.Runs Esp8266Rest.Lib.Streaks Esp8266Rest.Model

/-- The check found no IP. -/
def failed (c : Check) : Bool := !c.gotIp

/-- `network_timer` runs, and `network_check_ip` is its function. -/
structure Armed (n : Network) : Prop where
  func : n.networkTimer.func = some .networkCheckIp
  armed : n.networkTimer.armed ≠ none

/-! ### One check -/

section Check

variable (n : Network) {s : Station}

theorem check_success (h : s.hasIp = true) : ∃ calls : List NetworkCall,
    n.step (.check s) =
      { board := { n.board with ipStation := ipText s.addr }, counter := n.counter,
        networkTimer := ⟨n.networkTimer.func, some (10 * 60 * 1000)⟩, calls,
        checks := n.checks ++ [⟨true, calls⟩] } ∧ (⟨true, calls⟩ : Check).fellBack = false := by
  refine ⟨[.serverInit n.board.flashData.serverPort, .initmDNS s.addr, .sntpInit n.board.flashData.sntp,
    .osTimerArm (10 * 60 * 1000)], ?_, rfl⟩
  simp only [Network.step, networkCheckIp, h, if_true]
  rfl

theorem check_retry (h : s.hasIp = false) (hlt : n.counter + 1 < 30) :
    n.step (.check s) =
      { board := n.board, counter := n.counter + 1,
        networkTimer := ⟨some .networkCheckIp, some 1000⟩, calls := [.osTimerArm 1000],
        checks := n.checks ++ [⟨false, [.osTimerArm 1000]⟩] } := by
  have hcount : ∀ m : Network, m.osTimerDisarm.counter = m.counter := fun _ => rfl
  simp only [Network.step, networkCheckIp, h, hcount, if_pos hlt]
  rfl

theorem check_fallback (h : s.hasIp = false) (hlt : ¬ n.counter + 1 < 30) : ∃ calls : List NetworkCall,
    n.step (.check s) =
      { board := n.board, counter := 0,
        networkTimer := ⟨n.networkTimer.func, some (2 * 60 * 1000)⟩, calls,
        checks := n.checks ++ [⟨false, calls⟩] } ∧ (⟨false, calls⟩ : Check).fellBack = true := by
  have hcount : ∀ m : Network, m.osTimerDisarm.counter = m.counter := fun _ => rfl
  refine ⟨[.wifiStationDisconnect, .serverInit n.board.flashData.serverPort,
    .osTimerArm (2 * 60 * 1000), .wifiStationConnect], ?_, rfl⟩
  simp only [Network.step, networkCheckIp, h, hcount, if_neg hlt]
  rfl

end Check

/-! ### The counter -/

/-- The outcome of an event, if it is a check. -/
def outcome : NetworkEvent → Option Bool
  | .check s => some s.hasIp
  | .other _ => none

def outcomes (es : List NetworkEvent) : List Bool := es.filterMap outcome

/-- The state after checks with these outcomes. -/
structure Watched (os : List Bool) (n : Network) : Prop where
  outcomes : n.checks.map Check.gotIp = os
  counter : n.counter.toInt = (failures failed n.checks % 30 : ℕ)
  all : CountsAll failed Check.fellBack 30 n.checks
  armed : Armed n

theorem boot_watched (b : Board) : Watched [] (.boot b) where
  outcomes := rfl
  counter := rfl
  all := by
    intro pre c hpre
    have hnil : (Network.boot b).checks = [] := rfl
    rw [hnil, List.prefix_nil] at hpre
    exact absurd hpre (by simp)
  armed := ⟨rfl, nofun⟩

theorem toInt_succ {n : Network} {k : ℕ} (h : n.counter.toInt = (k % 30 : ℕ)) :
    (n.counter + 1).toInt = (k % 30 + 1 : ℕ) := by
  have hone : (1 : Int32).toInt = 1 := by decide
  rw [Int32.toInt_add, h, hone, Int.bmod_eq_of_le (by omega) (by omega)]
  omega

/-- **A check** keeps the count of the failures since the last fallback. -/
theorem check_watched {os : List Bool} {n : Network} (h : Watched os n) (s : Station) :
    Watched (os ++ [s.hasIp]) (n.step (.check s)) := by
  have houtcomes : ∀ c : Check, c.gotIp = s.hasIp →
      (n.checks ++ [c]).map Check.gotIp = os ++ [s.hasIp] := by
    intro c hc
    rw [List.map_append, h.outcomes, List.map_singleton, hc]
  cases hs : s.hasIp with
  | true =>
    rw [← hs]
    obtain ⟨calls, hstep, hback⟩ := check_success n hs
    rw [hstep]
    refine ⟨houtcomes _ hs.symm, ?_, countsAll_concat h.all ?_, h.armed.func, nofun⟩
    · rw [failures_concat]
      exact h.counter
    · simp [hback, failed]
  | false =>
    have hsucc := toInt_succ h.counter
    have h30 : (30 : Int32).toInt = 30 := by decide
    have hlt : n.counter + 1 < 30 ↔ ¬ failures failed n.checks % 30 + 1 = 30 := by
      rw [Int32.lt_iff_toInt_lt, hsucc, h30]
      omega
    have hfail : ∀ calls : List NetworkCall, failures failed (n.checks ++ [⟨false, calls⟩]) =
        failures failed n.checks + 1 := fun calls => failures_concat _
    rw [← hs]
    by_cases hfull : failures failed n.checks % 30 + 1 = 30
    · obtain ⟨calls, hstep, hback⟩ := check_fallback n hs (mt hlt.1 (not_not.2 hfull))
      rw [hstep]
      refine ⟨houtcomes _ hs.symm, ?_, countsAll_concat h.all ?_, h.armed.func, nofun⟩
      · rw [hfail, succ_mod _ (by decide), if_pos hfull]
        rfl
      · rw [hfail, hback, Nat.dvd_iff_mod_eq_zero, succ_mod _ (by decide), if_pos hfull]
        simp [failed]
    · rw [check_retry n hs (hlt.2 hfull)]
      refine ⟨houtcomes _ hs.symm, ?_, countsAll_concat h.all ?_, rfl, nofun⟩
      · rw [hfail, succ_mod _ (by decide), if_neg hfull]
        exact hsucc
      · rw [hfail, Nat.dvd_iff_mod_eq_zero, succ_mod _ (by decide), if_neg hfull]
        simp [Check.fellBack]

theorem step_watched {os : List Bool} {n : Network} (h : Watched os n) (e : NetworkEvent) :
    Watched (os ++ (outcome e).toList) (n.step e) := by
  rcases e with s | f
  · exact check_watched h s
  · rw [outcome, Option.toList_none, List.append_nil]
    exact ⟨h.outcomes, h.counter, h.all, h.armed.func, h.armed.armed⟩

theorem run_watched {os : List Bool} {n : Network} (h : Watched os n) (es : List NetworkEvent) :
    Watched (os ++ outcomes es) (run Network.step n es) := by
  induction es generalizing os n with
  | nil => simpa [outcomes] using h
  | cons e es ih =>
    have key := ih (step_watched h e)
    rw [run_cons]
    have hcons : os ++ outcomes (e :: es) = os ++ (outcome e).toList ++ outcomes es := by
      unfold outcomes
      rw [List.filterMap_cons, List.append_assoc]
      cases outcome e <;> rfl
    rw [hcons]
    exact key

/-! ### Giving up -/

/-- The fallback is taken where `30` failed checks in a row are complete, counted since the latest of
boot, the last success and the last fallback, and the timer runs. -/
structure GivesUpInTime (n : Network) : Prop where
  runs : CountsRuns failed Check.fellBack 30 n.checks
  armed : Armed n

theorem Watched.inTime_iff {os : List Bool} {n : Network} (h : Watched os n) :
    GivesUpInTime n ↔ FullRuns (fun o => !o) 30 os := by
  rw [← h.outcomes, fullRuns_map]
  refine Iff.trans ?_ (countsRuns_iff (by decide) h.all)
  exact ⟨fun hg => hg.runs, fun hr => ⟨hr, h.armed⟩⟩

/-- **The watchdog gives up in time** throughout a run exactly if, whenever the number of failed checks
reaches a multiple of `30`, the last `30` checks all failed. -/
theorem givesUpInTime_iff (b : Board) (es : List NetworkEvent) :
    Throughout Network.step GivesUpInTime (.boot b) es ↔ FullRuns (fun o => !o) 30 (outcomes es) := by
  have hwatched : ∀ es, Watched (outcomes es) (run Network.step (.boot b) es) :=
    fun es => run_watched (boot_watched b) es
  constructor
  · intro h
    exact (hwatched es).inTime_iff.1 (run_of_throughout _ h)
  · intro h
    refine (throughout_iff _).2 fun pre hpre => (hwatched pre).inTime_iff.2 ?_
    exact h.of_prefix (hpre.filterMap outcome)

def noIp : Station := ⟨.connecting, 0⟩

/-- **A success between failures**: the fallback comes after one failed check. -/
theorem not_givesUpInTime_interrupted : ¬ Throughout Network.step GivesUpInTime
    (.boot (Rest.start .zero).board)
    (List.replicate 29 (.check noIp) ++ [.check ⟨.gotIp, 1⟩, .check noIp]) := by
  intro h
  have hend := run_of_throughout _ h
  rw [(run_watched (boot_watched _) _).inTime_iff] at hend
  have hlast := hend (List.replicate 29 false ++ [true]) false (List.prefix_refl _) rfl
  exact absurd (hlast (by decide)) (by decide)

end Esp8266Rest.Watchdog
