import Esp8266Rest.Lib.Pacer
import Esp8266Rest.Model.UserMain
import Mathlib.Data.List.Chain

/-!
# The pace of the ticks

`loop` calls `OneSecLoop` when its clock, which wraps every 71 minutes, has gone on by more than five
seconds since the call before.  `paced_run` ties the 32 bits in `stime` to the real time of that call,
over runs of any length: the ticks keep their pace as long as `loop` runs often enough.
-/

namespace Esp8266Rest.Clock

open Esp8266Rest.Lib.Pacer Esp8266Rest.Lib.Runs Esp8266Rest.Model

/-! ### Runs of the main loop -/

/-- The real time at which `loop` runs. -/
def time? : Task → Option ℕ
  | .loop time => some time
  | _ => none

/-- The real times at which `loop` runs. -/
def times (ts : List Task) : List ℕ := ts.filterMap time?

/-- The real time at which a task calls `OneSecLoop`, if it does. -/
def callsOf (m : MainLoop) : Task → List ℕ
  | .loop time => if (loop time m).2 then [time] else []
  | _ => []

/-- The real times at which `OneSecLoop` is called. -/
def calls (m : MainLoop) (ts : List Task) : List ℕ := projected MainLoop.step callsOf m ts

/-- The real time of the last call; boot is at `0`. -/
def lastCall (cs : List ℕ) : ℕ := cs.getLastD 0

@[simp] theorem lastCall_concat (cs : List ℕ) (t : ℕ) : lastCall (cs ++ [t]) = t :=
  List.getLastD_concat

/-- What may lie between two runs of `loop`. -/
def Gap (t u : ℕ) : Prop := t ≤ u ∧ u - t < 2 ^ 32 - 5000000

instance (t u : ℕ) : Decidable (Gap t u) := by unfold Gap; infer_instance

/-! ### One run of `loop` -/

lemma systemGetTime_toNat (t : ℕ) : (systemGetTime t).toNat = t % 2 ^ 32 := UInt32.toNat_ofNat'

/-- **What one run of `loop` does**: it calls `OneSecLoop` when its clock has gone on by more than five
seconds, and else nothing. -/
theorem loop_cases (t : ℕ) (m : MainLoop) :
    5000000 < elapsed (2 ^ 32) m.stime.toNat (t % 2 ^ 32) ∧
      loop t m = ({ rest := oneSecLoop m.rest, stime := systemGetTime t, gSec := m.gSec + 1 }, true) ∨
    ¬ 5000000 < elapsed (2 ^ 32) m.stime.toNat (t % 2 ^ 32) ∧ loop t m = (m, false) := by
  have hsub : (systemGetTime t - m.stime).toNat = elapsed (2 ^ 32) m.stime.toNat (t % 2 ^ 32) := by
    rw [UInt32.toNat_sub, systemGetTime_toNat, elapsed]
  have hiff : systemGetTime t - m.stime > 5000000 ↔
      5000000 < elapsed (2 ^ 32) m.stime.toNat (t % 2 ^ 32) := by
    rw [← hsub]
    exact UInt32.lt_iff_toNat_lt
  by_cases h : systemGetTime t - m.stime > 5000000
  · exact .inl ⟨hiff.1 h, by simp only [loop, if_pos h]⟩
  · exact .inr ⟨fun h' => h (hiff.2 h'), by simp only [loop, if_neg h]⟩

/-! ### The invariant -/

/-- After calls at `cs` and a run of `loop` at `now`, the globals are what they should be. -/
structure Paced (m : MainLoop) (cs : List ℕ) (now : ℕ) : Prop where
  onPace : OnPace 5000000 (lastCall cs) now
  stime : m.stime.toNat = lastCall cs % 2 ^ 32
  gSec : m.gSec = Int32.ofNat cs.length

lemma paced_start (r : Rest) : Paced (.start r) [] 0 := ⟨.self 5000000 0, rfl, rfl⟩

section Step

variable {m : MainLoop} {cs : List ℕ} {now t : ℕ}

lemma Paced.of_rest (h : Paced m cs now) (r : Rest) : Paced { m with rest := r } cs now :=
  ⟨h.onPace, h.stime, h.gSec⟩

theorem Paced.loop (h : Paced m cs now) (hgap : Gap now t) :
    ((loop t m).2 = true ↔ 5000000 < t - lastCall cs) ∧
      Paced (loop t m).1 (cs ++ callsOf m (.loop t)) t := by
  obtain ⟨hle, hlt⟩ := hgap
  have hlt' : t < now + (2 ^ 32 - 5000000) := by omega
  have htrue : elapsed (2 ^ 32) m.stime.toNat (t % 2 ^ 32) = t - lastCall cs := by
    rw [h.stime]
    exact h.onPace.elapsed_eq hle hlt'
  rcases loop_cases t m with ⟨hdue, heq⟩ | ⟨hdue, heq⟩
  · have hof : callsOf m (.loop t) = [t] := by simp [callsOf, heq]
    rw [htrue] at hdue
    rw [hof, heq]
    refine ⟨by simpa using hdue, ?_, ?_, ?_⟩
    · rw [lastCall_concat]
      exact .self 5000000 t
    · rw [lastCall_concat]
      exact systemGetTime_toNat t
    · show m.gSec + 1 = Int32.ofNat (cs ++ [t]).length
      rw [h.gSec, List.length_append, Int32.ofNat_add]
      rfl
  · have hof : callsOf m (.loop t) = [] := by simp [callsOf, heq]
    have hpace : OnPace 5000000 (lastCall cs) t := by
      rw [h.stime] at hdue
      exact h.onPace.wait hle hlt' hdue
    rw [htrue] at hdue
    rw [hof, heq, List.append_nil]
    exact ⟨by simpa using hdue, hpace, h.stime, h.gSec⟩

end Step

/-- **A run of the main loop**, with whatever the other tasks do in between. -/
theorem paced_run {m : MainLoop} {cs : List ℕ} {now : ℕ} (h : Paced m cs now) (ts : List Task)
    (hts : (now :: times ts).IsChain Gap) :
    Paced (run MainLoop.step m ts) (cs ++ calls m ts) ((times ts).getLastD now) := by
  induction ts generalizing m cs now with
  | nil =>
    have hcalls : calls m [] = [] := rfl
    rw [hcalls, List.append_nil]
    exact h
  | cons a ts ih =>
    have hcalls : cs ++ calls m (a :: ts) = cs ++ callsOf m a ++ calls (m.step a) ts :=
      (List.append_assoc cs _ _).symm
    rw [run_cons, hcalls]
    cases a with
    | loop t =>
      have htimes : times (.loop t :: ts) = t :: times ts := rfl
      rw [htimes, List.getLastD_cons]
      rw [htimes, List.isChain_cons_cons] at hts
      exact ih (h.loop hts.1).2 hts.2
    | clock sntpTime sntpTz =>
      rw [show cs ++ callsOf m (.clock sntpTime sntpTz) = cs from List.append_nil cs]
      exact ih (h.of_rest _) hts
    | request conn =>
      rw [show cs ++ callsOf m (.request conn) = cs from List.append_nil cs]
      exact ih (h.of_rest _) hts
    | expire =>
      rw [show cs ++ callsOf m .expire = cs from List.append_nil cs]
      exact ih (h.of_rest _) hts

lemma times_append (ts us : List Task) : times (ts ++ us) = times ts ++ times us :=
  List.filterMap_append

theorem isChain_concat {ts : List Task} {t : ℕ} : (0 :: times (ts ++ [.loop t])).IsChain Gap ↔
    (0 :: times ts).IsChain Gap ∧ Gap ((times ts).getLastD 0) t := by
  rw [times_append, ← List.cons_append, List.isChain_append, List.getLast?_cons,
    List.getLastD_eq_getLast?]
  simp [times, time?]

/-! ### The ticks of a run -/

/-- What the runs of the main loop keep up: `OneSecLoop` is called at a run of `loop` exactly if more than
five seconds have passed since it was called last, and `gSec` counts the calls. -/
def KeepsPace (m : MainLoop) (ts : List Task) : Prop :=
  (∀ pre t, pre ++ [.loop t] <+: ts →
    ((loop t (run MainLoop.step m pre)).2 = true ↔ 5000000 < t - lastCall (calls m pre))) ∧
  ∀ pre, pre <+: ts → (calls m pre).length < 2 ^ 31 →
    (run MainLoop.step m pre).gSec.toInt = (calls m pre).length

/-- **The ticks keep their pace**, also when the clock wraps, in every run of the main loop and the
other tasks in which `loop` never waits for `2 ^ 32` microseconds less five seconds. -/
theorem loop_keepsPace (r : Rest) (ts : List Task) (hts : (0 :: times ts).IsChain Gap) :
    KeepsPace (.start r) ts := by
  have key : ∀ pre, (0 :: times pre).IsChain Gap →
      Paced (run MainLoop.step (.start r) pre) (calls (.start r) pre) ((times pre).getLastD 0) := by
    intro pre hpre
    exact paced_run (paced_start r) pre hpre
  have hbefore : ∀ pre, pre <+: ts → (0 :: times pre).IsChain Gap := by
    intro pre hpre
    obtain ⟨rest, rfl⟩ := hpre
    rw [times_append, ← List.cons_append] at hts
    exact hts.left_of_append
  refine ⟨fun pre t hpre => ?_, fun pre hpre hlen => ?_⟩
  · obtain ⟨hchain, hgap⟩ := isChain_concat.1 (hbefore _ hpre)
    exact ((key pre hchain).loop hgap).1
  · rw [(key pre (hbefore pre hpre)).gSec]
    exact Int32.toInt_ofNat_of_lt hlen

/-- Two calls, the clock wraps in between. -/
theorem loop_keepsPace_wrap :
    KeepsPace (.start (.start .zero)) [.loop 4000000000, .expire, .loop 4300000000, .loop 4304000000] :=
  loop_keepsPace _ _ (by decide)

end Esp8266Rest.Clock
