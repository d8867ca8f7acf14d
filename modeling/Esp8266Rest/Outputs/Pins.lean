import Esp8266Rest.Url.Effects

/-!
# The outputs

`PortPinSet` drives one latch and writes the port's entry of `portsVal`.  `portPinSet_latch` and
`portPinSet_portsVal` say so for an index of the arrays; all that follows about outputs uses only
these two.  The three commands that drive a port are `setpin`, `flipinput` and `open`, and what they
do to the board is a call of `PortPinSet` (`doSetPin_board`, `doFlipinput_board`, `doOpen_board`).
-/

namespace Esp8266Rest.Outputs

open Esp8266Rest.Lib.CStr Esp8266Rest.Model Esp8266Rest.Url

/-! ### Ports by their number -/

theorem isPort_iff {n : Int32} : IsPort n ↔ ∃ p : Fin 8, slot? 8 n = some p := by
  constructor
  · intro h
    exact ⟨_, dif_pos h⟩
  · rintro ⟨p, hp⟩
    have := slot?_eq_some_iff.1 hp
    unfold IsPort numOfPorts
    omega

lemma slot?_ofNat (p : Fin 8) : slot? 8 (Int32.ofNat p) = some p := by
  revert p; decide

lemma ofNat_inj : ∀ p q : Fin 8, Int32.ofNat p = Int32.ofNat q ↔ p = q := by decide

lemma eq_ofNat_of_slot {n : Int32} {p : Fin 8} (h : slot? 8 n = some p) : n = Int32.ofNat p := by
  rw [slot?_eq_some_iff] at h
  exact Int32.toInt_inj.1 (h.trans (slot?_eq_some_iff.1 (slot?_ofNat p)).symm)

section Slot

variable {α : Type*} {k : ℕ} {n : Int32} {p : Fin k}

lemma readAt_of_slot [OfNat α 0] (h : slot? k n = some p) (a : Vector α k) : readAt a n = a.get p := by
  simp [readAt, h]

lemma modifyAt_of_slot (h : slot? k n = some p) (a : Vector α k) (f : α → α) :
    modifyAt a n f = setAt a p (f (a.get p)) := by
  simp [modifyAt, h]

theorem get_modifyAt (a : Vector α k) (n : Int32) (f : α → α) (p : Fin k) :
    (modifyAt a n f).get p = if slot? k n = some p then f (a.get p) else a.get p := by
  cases hn : slot? k n with
  | none => simp [modifyAt, hn]
  | some q =>
    rw [modifyAt_of_slot hn, get_setAt]
    by_cases hq : p = q
    · subst hq
      rw [if_pos rfl, if_pos rfl]
    · rw [if_neg hq, if_neg fun h => hq (Option.some.inj h).symm]

end Slot

/-! ### The masks of the output register -/

section Masks

variable (g m k : UInt32)

theorem or_and_distrib : (g ||| m) &&& k = (g &&& k) ||| (m &&& k) := by
  apply UInt32.toBitVec_inj.1
  ext i
  simp [Bool.and_or_distrib_right]

lemma gpioOutputSet_set : gpioOutputSet m 0 g = g ||| m := by simp [gpioOutputSet]

lemma gpioOutputSet_clear : gpioOutputSet 0 m g = g &&& ~~~m := by simp [gpioOutputSet]

theorem gpioOutputSet_set_self : gpioOutputSet m 0 g &&& m = m := by
  rw [gpioOutputSet_set]
  apply UInt32.toBitVec_inj.1
  ext i
  simp +contextual

lemma gpioOutputSet_clear_self : gpioOutputSet 0 m g &&& m = 0 := by
  rw [gpioOutputSet_clear, UInt32.and_assoc, UInt32.not_and_self, UInt32.and_zero]

lemma gpioOutputSet_set_other (h : m &&& k = 0) : gpioOutputSet m 0 g &&& k = g &&& k := by
  rw [gpioOutputSet_set, or_and_distrib, h, UInt32.or_zero]

lemma gpioOutputSet_clear_other (h : ~~~m &&& k = k) : gpioOutputSet 0 m g &&& k = g &&& k := by
  rw [gpioOutputSet_clear, UInt32.and_assoc, h]

theorem gpio16OutputSet_bit (v : UInt8) : gpio16OutputSet v g &&& 1 = (v &&& 1).toUInt32 := by
  unfold gpio16OutputSet
  rw [or_and_distrib, UInt32.and_assoc]
  apply UInt32.toBitVec_inj.1
  ext i
  simp

end Masks

lemma portsBits_ne_zero : ∀ p : Fin 8, portsBits.get p ≠ 0 := by decide

/-- No two ports share a bit. -/
theorem portsBits_disjoint : ∀ p q : Fin 8, p ≠ q →
    portsBits.get p &&& portsBits.get q = 0 ∧ ~~~(portsBits.get p) &&& portsBits.get q = portsBits.get q := by decide

lemma portPinNumber_eq_sixteen : ∀ p : Fin 8, portPinNumber.get p = 16 ↔ (p : ℕ) = 6 := by decide

/-! ### `PortPinSet` on a port -/

theorem shown_eq (v : UInt8) : shown v = 0 ∨ shown v = 1 := by
  unfold shown
  split
  · exact .inl rfl
  · exact .inr rfl

/-- The level that `PortPinSet(p, v)` drives: the driver of pin `16` looks at the lowest bit only. -/
def driven (p : Fin 8) (v : UInt8) : Bool :=
  if portPinNumber.get p = 16 then v &&& 1 ≠ 0 else v ≠ 0

theorem portPinSet_portsVal_eq (n : Int32) (v : UInt8) (r : Rest) :
    (portPinSet n v r).board.portsVal = modifyAt r.board.portsVal n fun _ => shown v := by
  rw [portPinSet_board]
  dsimp only
  split
  · rfl
  · split <;> rfl

section PortPinSet

variable {n : Int32} {p : Fin 8} (h : slot? 8 n = some p) (v : UInt8) (r : Rest)
include h

theorem portPinSet_portsVal :
    (portPinSet n v r).board.portsVal = setAt r.board.portsVal p (shown v) := by
  rw [portPinSet_portsVal_eq]
  exact modifyAt_of_slot h _ _

/-- **`PortPinSet` drives the port it is given, and no other.** -/
theorem portPinSet_latch (q : Fin 8) : (portPinSet n v r).board.latch q =
    if q = p then driven p v else r.board.latch q := by
  have hpin : readAt portPinNumber n = portPinNumber.get p := readAt_of_slot h _
  have hbits : readAt portsBits n = portsBits.get p := readAt_of_slot h _
  rw [portPinSet_board]
  simp only [hpin, hbits, Board.latch, driven]
  by_cases hqp : q = p
  · subst hqp
    by_cases hq : portPinNumber.get q = 16
    · simp [hq, gpio16OutputSet_bit, ← UInt32.toNat_inj, ← UInt8.toNat_inj]
    · by_cases hv : v = 0
      · simp [hq, hv, gpioOutputSet_clear_self]
      · simpa [hq, hv, gpioOutputSet_set_self] using portsBits_ne_zero q
  · rw [if_neg hqp]
    by_cases hp : portPinNumber.get p = 16
    · -- the other ports are in the other register
      have hq : portPinNumber.get q ≠ 16 := by
        intro hq
        rw [portPinNumber_eq_sixteen] at hp hq
        exact hqp (Fin.ext (hq.trans hp.symm))
      simp [hp, hq]
    · obtain ⟨hset, hclear⟩ := portsBits_disjoint p q fun e => hqp e.symm
      by_cases hv : v = 0
      · simp only [hp, hv, if_false, if_true, gpioOutputSet_clear_other _ _ _ hclear]
      · simp only [hp, hv, if_false, gpioOutputSet_set_other _ _ _ hset]

end PortPinSet

/-- A number without a port drives nothing: there is no bit to set or to clear. -/
theorem portPinSet_none {n : Int32} (h : slot? 8 n = none) (v : UInt8) (r : Rest) :
    (portPinSet n v r).board = r.board := by
  have hpin : readAt portPinNumber n = 0 := by simp [readAt, h]
  have hbits : readAt portsBits n = 0 := by simp [readAt, h]
  have hval : modifyAt r.board.portsVal n (fun _ => shown v) = r.board.portsVal := by
    simp [modifyAt, h]
  rw [portPinSet_board, hval, hpin, hbits]
  by_cases hv : v = 0 <;> simp [hv, gpioOutputSet]

theorem portPinSet_frame (n : Int32) (v : UInt8) (r : Rest) : ∃ portsVal gpioOut rtcGpioOut,
    (portPinSet n v r).board = { r.board with portsVal, gpioOut, rtcGpioOut } := by
  rw [portPinSet_board]
  dsimp only
  split
  · exact ⟨_, _, _, rfl⟩
  · split <;> exact ⟨_, _, _, rfl⟩

theorem portPinSet_openTimer (n : Int32) (v : UInt8) (r : Rest) :
    (portPinSet n v r).board.openTimer = r.board.openTimer := by
  obtain ⟨_, _, _, h⟩ := portPinSet_frame n v r
  rw [h]

@[simp] theorem portPinSet_pinSets (n : Int32) (v : UInt8) (r : Rest) :
    (portPinSet n v r).log.pinSets = r.log.pinSets ++ [(n, v)] := by
  rw [portPinSet_log]

@[simp] theorem portPinSet_accesses (n : Int32) (v : UInt8) (r : Rest) :
    (portPinSet n v r).log.accesses = r.log.accesses ++ portAccesses n := by
  rw [portPinSet_log]

/-! ### The last value of a port -/

/-- The value of the last call of `PortPinSet` for port `n`. -/
def lastSet (r : Rest) (n : Int32) : Option UInt8 := r.log.pinSets.reverse.lookup n

theorem lastSet_of_pinSets {r r' : Rest} {m : Int32} {v : UInt8}
    (h : r'.log.pinSets = r.log.pinSets ++ [(m, v)]) (n : Int32) :
    lastSet r' n = if n = m then some v else lastSet r n := by
  unfold lastSet
  rw [h, List.reverse_concat, List.lookup_cons]
  by_cases hn : n = m
  · simp [hn]
  · rw [beq_false_of_ne hn, if_neg hn]

end Esp8266Rest.Outputs
