import Mathlib.Data.List.Nodup
import Esp8266Rest.Outputs.Order
import Esp8266Rest.Outputs.Schedule
import Esp8266Rest.Outputs.Record

/-!
# A tick touches only what it must

The output loop goes over the ports once and calls `PortPinSet` for those whose entry differs from the
scratch copy (`foldl_outputStep_pinSets`); a port that it does not call it for keeps its latch
(`foldl_outputStep_latch`).  The scratch copy of a port without an active event is its entry, and that of
the new entries is these entries again (`scratch_oneSecLoop`), so a second tick has nothing to do.
-/

namespace Esp8266Rest.Outputs

open Esp8266Rest.Lib.CStr Esp8266Rest.Model Esp8266Rest.Url

/-! ### The scratch copy -/

/-- No active event drives the port. -/
def Untargeted (evs : List PowerEvent) (p : Fin 8) : Prop := ∀ e ∈ evs, ¬ Targets e p

theorem foldl_eventStep_of_untargeted {evs : List PowerEvent} {curr : Time} {p : Fin 8}
    (h : Untargeted evs p) (tmp : Vector UInt8 8) :
    (evs.foldl (eventStep curr) tmp).get p = tmp.get p := by
  induction evs generalizing tmp with
  | nil => rfl
  | cons e evs ih =>
    obtain ⟨he, hevs⟩ := List.forall_mem_cons.1 h
    rw [List.foldl_cons, ih hevs, eventStep_of_not_targets he]

theorem foldl_eventStep_idem {evs : List PowerEvent} {curr : Time} {tmp : Vector UInt8 8}
    (h : ∀ p : Fin 8, tmp.get p = 0 ∨ tmp.get p = 1) :
    evs.foldl (eventStep curr) (evs.foldl (eventStep curr) tmp) = evs.foldl (eventStep curr) tmp := by
  have hle : ∀ p : Fin 8, (evs.foldl (eventStep curr) tmp).get p = 0 ∨
      (evs.foldl (eventStep curr) tmp).get p = 1 := fun p => foldl_eventStep_le tmp (h p)
  refine scratch_eq (fun p => foldl_eventStep_le _ (hle p)) hle fun p => ?_
  rw [foldl_eventStep_eq_one, foldl_eventStep_eq_one]
  tauto

/-! ### The output loop -/

/-- The call that brings port `p` to its value in the scratch copy. -/
def portCall (tmp : Vector UInt8 8) (p : Fin 8) : Int32 × UInt8 := (Int32.ofNat p, tmp.get p)

section Loop

variable {tmp : Vector UInt8 8}

lemma outputStep_of_eq {r : Rest} {i : Fin 8} (h : r.board.portsVal.get i = tmp.get i) :
    outputStep tmp r i = r := by
  rw [outputStep_eq, if_neg (not_not.2 h)]

theorem outputStep_of_ne (htmp : ∀ p : Fin 8, tmp.get p = 0 ∨ tmp.get p = 1) {r : Rest} {i : Fin 8}
    (h : r.board.portsVal.get i ≠ tmp.get i) :
    outputStep tmp r i = portPinSet (Int32.ofNat i) (tmp.get i) r := by
  rw [outputStep_eq, if_pos h, shown_of_le (htmp i)]

theorem foldl_outputStep_of_eq {r : Rest} (h : ∀ p : Fin 8, r.board.portsVal.get p = tmp.get p)
    (is : List (Fin 8)) : is.foldl (outputStep tmp) r = r := by
  induction is with
  | nil => rfl
  | cons i is ih => rw [List.foldl_cons, outputStep_of_eq (h i), ih]

/-- **The calls of the loop**: one for each port that has to change, with its new value. -/
theorem foldl_outputStep_pinSets (htmp : ∀ p : Fin 8, tmp.get p = 0 ∨ tmp.get p = 1)
    {is : List (Fin 8)} (hnodup : is.Nodup) (r : Rest) :
    (is.foldl (outputStep tmp) r).log.pinSets = r.log.pinSets ++
      (is.filter fun p => r.board.portsVal.get p ≠ tmp.get p).map (portCall tmp) := by
  induction is generalizing r with
  | nil => simp
  | cons i is ih =>
    obtain ⟨hi, hnodup⟩ := List.nodup_cons.1 hnodup
    rw [List.foldl_cons, ih hnodup]
    -- the other ports still have the entries they had
    have hrest : (is.filter fun p => (outputStep tmp r i).board.portsVal.get p ≠ tmp.get p) =
        is.filter fun p => r.board.portsVal.get p ≠ tmp.get p := by
      refine List.filter_congr fun p hp => ?_
      have hne : p ≠ i := fun e => hi (e ▸ hp)
      rw [outputStep_portsVal (htmp p), if_neg hne]
    rw [hrest]
    by_cases h : r.board.portsVal.get i = tmp.get i
    · rw [outputStep_of_eq h, List.filter_cons_of_neg (by simpa using h)]
    · rw [outputStep_of_ne htmp h, portPinSet_pinSets, List.filter_cons_of_pos (by simpa using h),
        List.map_cons, List.append_assoc]
      rfl

theorem foldl_outputStep_latch (htmp : ∀ p : Fin 8, tmp.get p = 0 ∨ tmp.get p = 1) {p : Fin 8}
    {r : Rest} (h : r.board.portsVal.get p = tmp.get p) (is : List (Fin 8)) :
    (is.foldl (outputStep tmp) r).board.latch p = r.board.latch p := by
  induction is generalizing r with
  | nil => rfl
  | cons i is ih =>
    have hval : (outputStep tmp r i).board.portsVal.get p = tmp.get p := by
      rw [outputStep_portsVal (htmp p)]
      split
      · rfl
      · exact h
    rw [List.foldl_cons, ih hval]
    by_cases hi : r.board.portsVal.get i = tmp.get i
    · rw [outputStep_of_eq hi]
    · have hne : p ≠ i := fun e => hi (e ▸ h)
      rw [outputStep_of_ne htmp hi, portPinSet_latch (slot?_ofNat i), if_neg hne]

end Loop

/-! ### The tick -/

/-- The calls of `PortPinSet` in a tick. -/
def tickCalls (b : Board) : List (Int32 × UInt8) :=
  ((List.finRange 8).filter fun p => b.portsVal.get p ≠ (scratch b).get p).map (portCall (scratch b))

theorem tickCalls_nodup (b : Board) : ((tickCalls b).map Prod.fst).Nodup := by
  unfold tickCalls
  rw [List.map_map]
  exact List.Nodup.map (fun p q => (ofNat_inj p q).1) ((List.nodup_finRange 8).filter _)

theorem oneSecLoop_data (r : Rest) : (oneSecLoop r).board.flashData = r.board.flashData ∧
    (oneSecLoop r).board.flash = r.board.flash := by
  obtain ⟨_, _, _, hframe⟩ := oneSecLoop_frame r
  rw [hframe]
  exact ⟨rfl, rfl⟩

section Tick

variable {r : Rest} (h : IsBool r.board)
include h

lemma scratch_isBool (p : Fin 8) : (scratch r.board).get p = 0 ∨ (scratch r.board).get p = 1 :=
  foldl_eventStep_le _ (h p)

lemma oneSecLoop_pinSets : (oneSecLoop r).log.pinSets = r.log.pinSets ++ tickCalls r.board := by
  rw [oneSecLoop_eq, foldl_outputStep_pinSets (scratch_isBool h) (List.nodup_finRange 8)]
  rfl

/-- A call changes the entry of its port. -/
theorem mem_tickCalls {c : Int32 × UInt8} (hc : c ∈ tickCalls r.board) :
    ∃ p : Fin 8, c.1 = Int32.ofNat p ∧
      (oneSecLoop r).board.portsVal.get p ≠ r.board.portsVal.get p := by
  obtain ⟨p, hp, rfl⟩ := List.mem_map.1 hc
  have hne : r.board.portsVal.get p ≠ (scratch r.board).get p := by
    simpa using (List.mem_filter.1 hp).2
  refine ⟨p, rfl, ?_⟩
  rw [oneSecLoop_portsVal (h p)]
  exact hne.symm

theorem oneSecLoop_untargeted {p : Fin 8} (hp : Untargeted (events r.board) p) :
    (oneSecLoop r).board.portsVal.get p = r.board.portsVal.get p ∧
    (oneSecLoop r).board.latch p = r.board.latch p := by
  have hs : (scratch r.board).get p = r.board.portsVal.get p := foldl_eventStep_of_untargeted hp _
  refine ⟨(oneSecLoop_portsVal (h p)).trans hs, ?_⟩
  rw [oneSecLoop_eq, foldl_outputStep_latch (scratch_isBool h) hs.symm]

/-- **The new entries are a fixed point**, as long as the clock shows the same minute. -/
theorem scratch_oneSecLoop {t tz : Int32} (htime : localTime t tz = r.board.curr) :
    scratch ((oneSecLoop r).setClock t tz).board = (oneSecLoop r).board.portsVal := by
  have hval : (oneSecLoop r).board.portsVal = scratch r.board :=
    Vector.ext fun i hi => oneSecLoop_portsVal (p := ⟨i, hi⟩) (h _)
  have hdata := (oneSecLoop_data r).1
  generalize oneSecLoop r = r' at hval hdata
  have hscratch : scratch (r'.setClock t tz).board =
      r'.board.flashData.powerEvents.toList.foldl (eventStep (localTime t tz)) r'.board.portsVal := rfl
  rw [hscratch, htime, hdata, hval]
  exact foldl_eventStep_idem h

/-- A tick behind a tick of the same minute only reads the clock. -/
theorem oneSecLoop_again {t tz : Int32} (htime : localTime t tz = r.board.curr) :
    oneSecLoop ((oneSecLoop r).setClock t tz) = (oneSecLoop r).setClock t tz := by
  have hclock := scratch_oneSecLoop h htime
  generalize oneSecLoop r = r' at hclock ⊢
  have hval : ∀ p : Fin 8, (r'.setClock t tz).board.portsVal.get p = r'.board.portsVal.get p :=
    fun _ => rfl
  rw [oneSecLoop_eq, hclock, foldl_outputStep_of_eq hval]

end Tick

/-- A tick from `r` to `r'` with these `calls` of `PortPinSet`. -/
structure TouchesOnly (calls : List (Int32 × UInt8)) (r r' : Rest) : Prop where
  pinSets : r'.log.pinSets = r.log.pinSets ++ calls
  once : (calls.map Prod.fst).Nodup
  changes : ∀ c ∈ calls, ∃ p : Fin 8, c.1 = Int32.ofNat p ∧
    r'.board.portsVal.get p ≠ r.board.portsVal.get p
  untargeted : ∀ p : Fin 8, Untargeted (events r.board) p → Int32.ofNat p ∉ calls.map Prod.fst ∧
    r'.board.portsVal.get p = r.board.portsVal.get p ∧ r'.board.latch p = r.board.latch p
  flashData : r'.board.flashData = r.board.flashData
  flash : r'.board.flash = r.board.flash

theorem oneSecLoop_touchesOnly {r : Rest} (h : IsBool r.board) :
    TouchesOnly (tickCalls r.board) r (oneSecLoop r) where
  pinSets := oneSecLoop_pinSets h
  once := tickCalls_nodup r.board
  changes _ hc := mem_tickCalls h hc
  untargeted p hp := by
    obtain ⟨hval, hlatch⟩ := oneSecLoop_untargeted h hp
    refine ⟨fun hmem => ?_, hval, hlatch⟩
    obtain ⟨c, hc, hcp⟩ := List.mem_map.1 hmem
    obtain ⟨q, hq, hne⟩ := mem_tickCalls h hc
    obtain rfl := (ofNat_inj p q).1 (hcp.symm.trans hq)
    exact hne hval
  flashData := (oneSecLoop_data r).1
  flash := (oneSecLoop_data r).2

theorem step_tick_setClock (r : Rest) (t tz : Int32) :
    (step r (.tick t tz)).setClock t tz = step r (.tick t tz) := by
  obtain ⟨_, _, _, hframe⟩ := oneSecLoop_frame (r.setClock t tz)
  rw [step_tick]
  generalize oneSecLoop (r.setClock t tz) = r' at hframe
  unfold Rest.setClock at hframe ⊢
  rw [hframe]
  exact Rest.ext hframe.symm rfl rfl

/-- **A tick touches only what it must**, a second one at the same time nothing at all, and one later in
the same minute nothing but the clock. -/
theorem tick_touchesOnly (r : Rest) (h : IsBool r.board) (t tz : Int32) :
    (∃ calls, TouchesOnly calls r (step r (.tick t tz))) ∧
    step (step r (.tick t tz)) (.tick t tz) = step r (.tick t tz) ∧
    ∀ t' tz', localTime t' tz' = localTime t tz →
      step (step r (.tick t tz)) (.tick t' tz') = (step r (.tick t tz)).setClock t' tz' := by
  have hclock : IsBool (r.setClock t tz).board := h
  have hcalls := oneSecLoop_touchesOnly hclock
  have hagain : ∀ t' tz', localTime t' tz' = localTime t tz →
      step (step r (.tick t tz)) (.tick t' tz') = (step r (.tick t tz)).setClock t' tz' := by
    intro t' tz' htime
    rw [step_tick, step_tick]
    exact oneSecLoop_again hclock htime
  refine ⟨⟨tickCalls (r.setClock t tz).board, ?_⟩, ?_, hagain⟩
  · rw [step_tick]
    exact ⟨hcalls.pinSets, hcalls.once, hcalls.changes, hcalls.untargeted, hcalls.flashData, hcalls.flash⟩
  · rw [hagain t tz rfl, step_tick_setClock]

/-- One event drives port `0`; the others are as they were. -/
theorem tick_touchesOnly_morning :
    (∃ calls, TouchesOnly calls morningOnly (step morningOnly (.tick 30600 0))) ∧
    step (step morningOnly (.tick 30600 0)) (.tick 30600 0) = step morningOnly (.tick 30600 0) ∧
    ∀ t' tz', localTime t' tz' = localTime 30600 0 →
      step (step morningOnly (.tick 30600 0)) (.tick t' tz') =
        (step morningOnly (.tick 30600 0)).setClock t' tz' :=
  tick_touchesOnly morningOnly (fun p => .inl (morningOnly_allOff.portsVal p)) 30600 0

end Esp8266Rest.Outputs
