import Esp8266Rest.Model.Device
import Esp8266Rest.Outputs.Ticks

/-!
# The order of the event table

Two events on one port meet in the scratch copy of a tick, where the second one sees what the first one
wrote.  From zeros and ones the scratch copy is a one wherever *some* event asks for it
(`foldl_eventStep_eq_one`), so it does not depend on the order of the events, and nothing behind it looks
at the table: a tick on a permuted table is the tick on the table (`oneSecLoop_setEvents`).
-/

namespace Esp8266Rest.Outputs

open Esp8266Rest.Model

/-- The device with another event table. -/
def setEvents (es : Vector PowerEvent 10) (r : Rest) : Rest :=
  r.mapFlashData fun f => { f with powerEvents := es }

section SetEvents

variable (es : Vector PowerEvent 10)

lemma setEvents_portsVal (r : Rest) : (setEvents es r).board.portsVal = r.board.portsVal := rfl

lemma setEvents_log (r : Rest) : (setEvents es r).log = r.log := rfl

theorem portPinSet_setEvents (n : Int32) (v : UInt8) (r : Rest) :
    portPinSet n v (setEvents es r) = setEvents es (portPinSet n v r) := by
  unfold portPinSet
  by_cases h : readAt portPinNumber n = 16
  · simp only [h, if_true]
    rfl
  · by_cases hv : v = 0
    · simp only [h, hv, if_true, if_false]
      rfl
    · simp only [h, hv, if_false]
      rfl

theorem foldl_outputStep_setEvents (tmp : Vector UInt8 8) (is : List (Fin 8)) (r : Rest) :
    is.foldl (outputStep tmp) (setEvents es r) = setEvents es (is.foldl (outputStep tmp) r) := by
  induction is generalizing r with
  | nil => rfl
  | cons i is ih =>
    have hstep : outputStep tmp (setEvents es r) i = setEvents es (outputStep tmp r i) := by
      rw [outputStep_eq, outputStep_eq]
      change (if r.board.portsVal.get i ≠ tmp.get i then _ else _) = _
      split
      · exact portPinSet_setEvents es _ _ r
      · rfl
    rw [List.foldl_cons, hstep, ih]
    rfl

end SetEvents

theorem scratch_eq {tmp tmp' : Vector UInt8 8} (h : ∀ p : Fin 8, tmp.get p = 0 ∨ tmp.get p = 1)
    (h' : ∀ p : Fin 8, tmp'.get p = 0 ∨ tmp'.get p = 1)
    (hone : ∀ p : Fin 8, tmp.get p = 1 ↔ tmp'.get p = 1) : tmp = tmp' := by
  refine Vector.ext fun i hi => ?_
  have hp := hone ⟨i, hi⟩
  change tmp.get ⟨i, hi⟩ = tmp'.get ⟨i, hi⟩
  rcases h ⟨i, hi⟩ with h0 | h1
  · rcases h' ⟨i, hi⟩ with h0' | h1'
    · rw [h0, h0']
    · rw [hp.2 h1', h1']
  · rw [h1, hp.1 h1]

section Permuted

variable {r : Rest} (hbool : ∀ p : Fin 8, r.board.portsVal.get p = 0 ∨ r.board.portsVal.get p = 1)
  {es : Vector PowerEvent 10} (hperm : es.toList.Perm r.board.flashData.powerEvents.toList)
include hbool hperm

theorem scratch_setEvents : scratch (setEvents es r).board = scratch r.board := by
  refine scratch_eq (fun p => foldl_eventStep_le _ (hbool p)) (fun p => foldl_eventStep_le _ (hbool p))
    fun p => ?_
  unfold scratch
  rw [foldl_eventStep_eq_one, foldl_eventStep_eq_one]
  refine or_congr_right (exists_congr fun e => and_congr_left fun _ => ?_)
  exact hperm.mem_iff

/-- **A tick on a permuted table** is the tick on the table. -/
theorem oneSecLoop_setEvents : oneSecLoop (setEvents es r) = setEvents es (oneSecLoop r) := by
  rw [oneSecLoop_eq, oneSecLoop_eq, scratch_setEvents hbool hperm, foldl_outputStep_setEvents]

end Permuted

/-- **The order of the events does not matter**: a tick leaves the same `portsVal` and makes the same
calls of `PortPinSet`. -/
theorem oneSecLoop_perm {r : Rest}
    (hbool : ∀ p : Fin 8, r.board.portsVal.get p = 0 ∨ r.board.portsVal.get p = 1)
    {es : Vector PowerEvent 10} (hperm : es.toList.Perm r.board.flashData.powerEvents.toList) :
    (oneSecLoop (setEvents es r)).board.portsVal = (oneSecLoop r).board.portsVal ∧
      (oneSecLoop (setEvents es r)).log.pinSets = (oneSecLoop r).log.pinSets := by
  rw [oneSecLoop_setEvents hbool hperm, setEvents_portsVal, setEvents_log]
  exact ⟨rfl, rfl⟩

/-- Ten events, the first two of them on port `0`. -/
def twoEvents (e f : PowerEvent) : Vector PowerEvent 10 :=
  #v[e, f, .zero, .zero, .zero, .zero, .zero, .zero, .zero, .zero]

/-- The two events of one port exchanged, one of them with the clock in its window. -/
theorem oneSecLoop_perm_two :
    let e : PowerEvent := { PowerEvent.zero with startTime := ⟨0, 0⟩, endTime := ⟨9, 0⟩, active := 1 }
    let f : PowerEvent := { PowerEvent.zero with startTime := ⟨9, 0⟩, endTime := ⟨10, 0⟩, active := 1 }
    let r : Rest := setEvents (twoEvents e f) (.start .zero)
    (oneSecLoop (setEvents (twoEvents f e) r)).board.portsVal = (oneSecLoop r).board.portsVal ∧
      (oneSecLoop (setEvents (twoEvents f e) r)).log.pinSets = (oneSecLoop r).log.pinSets := by
  intro e f r
  have hperm : (twoEvents f e).toList.Perm r.board.flashData.powerEvents.toList := .swap _ _ _
  exact oneSecLoop_perm (fun p => .inl (by revert p; decide)) hperm

end Esp8266Rest.Outputs
