import Esp8266Rest.Outputs.Shadow

/-!
# `flipinput` is an involution

On a board whose `portsVal` is in step, `flipinput` on a port is `toggle`: one bit of one of the two
output registers and one entry of `portsVal` are inverted (`portPinSet_flipped`).  Toggles of any ports
commute and each is its own inverse, so two flips of a port cancel over whatever other flips lie between
them (`run_flips`).
-/

namespace Esp8266Rest.Outputs

open Esp8266Rest.Lib.CStr Esp8266Rest.Lib.Runs Esp8266Rest.Model Esp8266Rest.Url

/-! ### The masks -/

section Masks

variable {g m : UInt32}

lemma ext_bits : g = m ↔ ∀ i (hi : i < 32), g.toBitVec[i] = m.toBitVec[i] := by
  rw [← UInt32.toBitVec_inj]
  exact ⟨fun h i hi => by rw [h], fun h => BitVec.eq_of_getElem_eq h⟩

theorem and_not_eq_xor (h : g &&& m = m) : g &&& ~~~m = g ^^^ m := by
  rw [ext_bits] at h ⊢
  intro i hi
  have hbit := h i hi
  simp only [UInt32.toBitVec_and, UInt32.toBitVec_not, UInt32.toBitVec_xor, BitVec.getElem_and,
    BitVec.getElem_not, BitVec.getElem_xor] at hbit ⊢
  revert hbit
  cases g.toBitVec[i] <;> cases m.toBitVec[i] <;> decide

theorem or_and_eq_xor (h : g &&& m = 0) : g ||| m = g ^^^ m ∧ g &&& ~~~m = g := by
  rw [ext_bits] at h
  simp only [UInt32.toBitVec_and, UInt32.toBitVec_zero, BitVec.getElem_and, BitVec.getElem_zero] at h
  rw [ext_bits, ext_bits]
  simp only [UInt32.toBitVec_and, UInt32.toBitVec_or, UInt32.toBitVec_not, UInt32.toBitVec_xor,
    BitVec.getElem_and, BitVec.getElem_or, BitVec.getElem_not, BitVec.getElem_xor]
  refine ⟨fun i hi => ?_, fun i hi => ?_⟩
  · have hbit := h i hi
    revert hbit
    cases g.toBitVec[i] <;> cases m.toBitVec[i] <;> decide
  · have hbit := h i hi
    revert hbit
    cases g.toBitVec[i] <;> cases m.toBitVec[i] <;> decide

theorem and_of_twoPow {k : ℕ} (hk : m.toBitVec = BitVec.twoPow 32 k) : g &&& m = 0 ∨ g &&& m = m := by
  simp only [← UInt32.toBitVec_inj, UInt32.toBitVec_and, hk, BitVec.and_twoPow]
  split
  · exact .inr rfl
  · exact .inl rfl

end Masks

lemma portsBits_twoPow : ∀ p : Fin 8, (portsBits.get p).toBitVec =
    BitVec.twoPow 32 (portPinNumber.get p).toInt.toNat := by decide

theorem gpioOutputSet_toggle (g : UInt32) (p : Fin 8) :
    (if g &&& portsBits.get p ≠ 0 then gpioOutputSet 0 (portsBits.get p) g
      else gpioOutputSet (portsBits.get p) 0 g) = g ^^^ portsBits.get p := by
  by_cases h : g &&& portsBits.get p = 0
  · rw [if_neg (not_not.2 h), gpioOutputSet_set, (or_and_eq_xor h).1]
  · have hbit := (and_of_twoPow (portsBits_twoPow p)).resolve_left h
    rw [if_pos h, gpioOutputSet_clear, and_not_eq_xor hbit]

theorem gpio16OutputSet_toggle (g : UInt32) :
    gpio16OutputSet (if g &&& 1 ≠ 0 then 0 else 1) g = g ^^^ 1 := by
  have hmask : (0xfffffffe : UInt32) = ~~~1 := by decide
  unfold gpio16OutputSet
  rw [hmask]
  by_cases h : g &&& 1 = 0
  · obtain ⟨hor, hclear⟩ := or_and_eq_xor h
    rw [if_neg (not_not.2 h), hclear, ← hor]
    rfl
  · have hbit := (and_of_twoPow (k := 0) (by decide)).resolve_left h
    rw [if_pos h, ← and_not_eq_xor hbit]
    exact UInt32.or_zero

/-! ### Toggling -/

/-- The board with port `p` inverted, in its register and in `portsVal`. -/
def toggle (p : Fin 8) (b : Board) : Board :=
  let portsVal := setAt b.portsVal p (b.portsVal.get p ^^^ 1)
  if portPinNumber.get p = 16 then { b with portsVal, rtcGpioOut := b.rtcGpioOut ^^^ 1 }
  else { b with portsVal, gpioOut := b.gpioOut ^^^ portsBits.get p }

theorem setAt_comm {α : Type*} {n : ℕ} (a : Vector α n) {i j : Fin n} (h : i ≠ j) (x y : α) :
    setAt (setAt a i x) j y = setAt (setAt a j y) i x := by
  refine Vector.ext fun k hk => ?_
  change (setAt (setAt a i x) j y).get ⟨k, hk⟩ = (setAt (setAt a j y) i x).get ⟨k, hk⟩
  simp only [get_setAt]
  grind

theorem toggle_toggle (p : Fin 8) (b : Board) : toggle p (toggle p b) = b := by
  have hvalue : ∀ x : UInt8, x ^^^ 1 ^^^ 1 = x := fun x => by
    rw [UInt8.xor_assoc, UInt8.xor_self, UInt8.xor_zero]
  have hword : ∀ x y : UInt32, x ^^^ y ^^^ y = x := fun x y => by
    rw [UInt32.xor_assoc, UInt32.xor_self, UInt32.xor_zero]
  have hsame : setAt b.portsVal p (b.portsVal.get p) = b.portsVal :=
    Vector.ext fun k hk => by simp [setAt, get_eq_getElem]
  unfold toggle
  by_cases h : portPinNumber.get p = 16
  · simp [h, hvalue, hword, hsame]
  · simp [h, hvalue, hword, hsame]

theorem toggle_comm (p q : Fin 8) (b : Board) : toggle p (toggle q b) = toggle q (toggle p b) := by
  by_cases hpq : p = q
  · rw [hpq]
  · have hx := UInt32.xor_comm (portsBits.get p) (portsBits.get q)
    have hval := setAt_comm b.portsVal hpq (b.portsVal.get p ^^^ 1) (b.portsVal.get q ^^^ 1)
    unfold toggle
    by_cases hp : portPinNumber.get p = 16 <;> by_cases hq : portPinNumber.get q = 16 <;>
      simp [hp, hq, hval, get_setAt, hpq, Ne.symm hpq, UInt32.xor_assoc, hx]

/-! ### A flip -/

/-- What `flipinput` drives on a board in step is the opposite of the latch. -/
theorem flipped_eq {n : Int32} {p : Fin 8} (hn : slot? 8 n = some p) {b : Board} (h : InStep b) :
    flipped n b = if b.latch p then 0 else 1 := by
  have hval := h p
  unfold flipped
  rw [readAt_of_slot hn, readAt_of_slot hn, readAt_of_slot hn, hval]
  by_cases hp : portPinNumber.get p = 16
  · rw [if_pos hp]
    cases b.latch p <;> rfl
  · rw [if_neg hp]
    simp only [Board.latch, if_neg hp, decide_eq_true_eq]

/-- **A flip of a port** inverts its bit of the register and its entry. -/
theorem portPinSet_flipped {n : Int32} {p : Fin 8} (hn : slot? 8 n = some p) {r : Rest}
    (h : InStep r.board) : (portPinSet n (flipped n r.board) r).board = toggle p r.board := by
  have hval : modifyAt r.board.portsVal n (fun _ => shown (flipped n r.board)) =
      setAt r.board.portsVal p (r.board.portsVal.get p ^^^ 1) := by
    rw [modifyAt_of_slot hn, flipped_eq hn h, h p]
    cases r.board.latch p <;> rfl
  rw [portPinSet_board, hval, readAt_of_slot hn, readAt_of_slot hn]
  unfold toggle
  by_cases hp : portPinNumber.get p = 16
  · have hv := flipped_eq hn h
    simp only [Board.latch, if_pos hp, decide_eq_true_eq] at hv
    simp only [if_pos hp, hv, gpio16OutputSet_toggle]
  · have hv := flipped_eq hn h
    simp only [Board.latch, if_neg hp, decide_eq_true_eq] at hv
    have htoggle := gpioOutputSet_toggle r.board.gpioOut p
    simp only [if_neg hp, hv, ← htoggle]
    by_cases hb : r.board.gpioOut &&& portsBits.get p = 0
    · simp [hb]
    · simp [hb]

theorem toggle_portsVal (p q : Fin 8) (b : Board) : (toggle p b).portsVal.get q =
    if q = p then b.portsVal.get p ^^^ 1 else b.portsVal.get q := by
  unfold toggle
  dsimp only
  split <;> exact get_setAt _ _ _ _

/-- The request flips port `p`. -/
structure Flips (conn : Conn) (p : Fin 8) : Prop where
  command : command conn.url = ascii "flipinput"
  port : slot? 8 (number (ascii "flipinput") conn.url) = some p

theorem flips_url : ∀ p : Fin 8, ∀ conn : Conn, conn.url = ascii "/flipinput/" ++ decimal (p : ℕ) →
    Flips conn p := by
  have h : ∀ p : Fin 8, Url.command (ascii "/flipinput/" ++ decimal (p : ℕ)) = ascii "flipinput" ∧
      slot? 8 (number (ascii "flipinput") (ascii "/flipinput/" ++ decimal (p : ℕ))) = some p := by
    decide
  intro p conn hurl
  refine ⟨?_, ?_⟩
  · rw [hurl, (h p).1]
  · rw [hurl, (h p).2]

section Flip

variable {r : Rest} (h : InStep r.board) {conn : Conn} {p : Fin 8} (hflip : Flips conn p)
include h hflip

theorem step_flip : (step r (.request conn)).board = toggle p r.board := by
  have hstart : InStep (dispatched conn (ascii "flipinput") { r with sendBuff := [] }).board := h
  rw [step, request_flipinput _ hflip.command, doFlipinput_board]
  exact portPinSet_flipped hflip.port hstart

theorem flip_inStep : InStep (step r (.request conn)).board := by
  have hstart : InStep (dispatched conn (ascii "flipinput") { r with sendBuff := [] }).board := h
  rw [step, request_flipinput _ hflip.command, doFlipinput_board]
  exact (portPinSet_inStep_iff hflip.port hstart).2 (agrees_of_le (flipped_le _ _))

theorem flip_latch (q : Fin 8) : (step r (.request conn)).board.latch q =
    if q = p then !r.board.latch p else r.board.latch q := by
  have hstart : InStep (dispatched conn (ascii "flipinput") { r with sendBuff := [] }).board := h
  have hdriven : driven p (if r.board.latch p then 0 else 1) = !r.board.latch p := by
    unfold driven
    cases r.board.latch p <;> simp
  rw [step, request_flipinput _ hflip.command, doFlipinput_board, portPinSet_latch hflip.port,
    flipped_eq hflip.port hstart]
  split
  · exact hdriven
  · rfl

theorem flip_other {q : Fin 8} (hq : q ≠ p) :
    (step r (.request conn)).board.portsVal.get q = r.board.portsVal.get q ∧
    (step r (.request conn)).board.latch q = r.board.latch q := by
  rw [flip_latch h hflip, if_neg hq, step_flip h hflip, toggle_portsVal, if_neg hq]
  exact ⟨rfl, rfl⟩

end Flip

/-! ### Several flips -/

/-- A flip of a port other than `p`. -/
def FlipsOther (p : Fin 8) (e : Event) : Prop := ∃ conn q, e = .request conn ∧ q ≠ p ∧ Flips conn q

theorem run_flips_other {p : Fin 8} {es : List Event} (hes : ∀ e ∈ es, FlipsOther p e) {r : Rest}
    (h : InStep r.board) : InStep (run step r es).board ∧
      (run step r es).board.portsVal.get p = r.board.portsVal.get p ∧
      (run step r es).board.latch p = r.board.latch p := by
  induction es generalizing r with
  | nil => exact ⟨h, rfl, rfl⟩
  | cons e es ih =>
    obtain ⟨⟨conn, q, rfl, hq, hflip⟩, htail⟩ := List.forall_mem_cons.1 hes
    obtain ⟨hin, hval, hlatch⟩ := ih htail (flip_inStep h hflip)
    obtain ⟨hval', hlatch'⟩ := flip_other h hflip hq.symm
    exact ⟨hin, hval.trans hval', hlatch.trans hlatch'⟩

/-- A toggled port stays toggled over the flips of others. -/
theorem run_flips_toggle {p : Fin 8} {es : List Event} (hes : ∀ e ∈ es, FlipsOther p e) {r r' : Rest}
    (h : InStep r.board) (h' : InStep r'.board) (htoggle : r'.board = toggle p r.board) :
    (run step r' es).board = toggle p (run step r es).board := by
  induction es generalizing r r' with
  | nil => exact htoggle
  | cons e es ih =>
    obtain ⟨⟨conn, q, rfl, -, hflip⟩, htail⟩ := List.forall_mem_cons.1 hes
    refine ih htail (flip_inStep h hflip) (flip_inStep h' hflip) ?_
    rw [step_flip h' hflip, step_flip h hflip, htoggle, toggle_comm]

/-- **Two flips of a port cancel** over the flips of other ports between them. -/
theorem run_flips {r : Rest} (h : InStep r.board) {p : Fin 8} {conn conn' : Conn}
    (hflip : Flips conn p) (hflip' : Flips conn' p) {es : List Event}
    (hes : ∀ e ∈ es, FlipsOther p e) :
    (run step r (.request conn :: es ++ [.request conn'])).board = (run step r es).board := by
  have hstart := flip_inStep h hflip
  have hin := (run_flips_other hes hstart).1
  rw [List.cons_append, run_cons, run_append, run_cons, run_nil, step_flip hin hflip',
    run_flips_toggle hes h hstart (step_flip h hflip), toggle_toggle]

/-- The board with one port flipped, and `portsVal` in step. -/
structure FlipsOnly (p : Fin 8) (b b' : Board) : Prop where
  portsVal : b'.portsVal.get p = if b.portsVal.get p = 0 then 1 else 0
  latch : b'.latch p = !b.latch p
  others : ∀ q, q ≠ p → b'.portsVal.get q = b.portsVal.get q ∧ b'.latch q = b.latch q
  inStep : InStep b'

/-- **`flipinput` inverts one output**, and a second flip of it, with flips of other ports in between,
takes the first one back. -/
theorem flip_inverts {r : Rest} (h : InStep r.board) {p : Fin 8} {conn : Conn}
    (hflip : Flips conn p) : FlipsOnly p r.board (step r (.request conn)).board ∧
      ∀ conn' es, Flips conn' p → (∀ e ∈ es, FlipsOther p e) →
        (run step r (.request conn :: es ++ [.request conn'])).board = (run step r es).board ∧
        (run step r es).board.portsVal.get p = r.board.portsVal.get p ∧
        (run step r es).board.latch p = r.board.latch p := by
  refine ⟨⟨?_, ?_, fun q hq => flip_other h hflip hq, flip_inStep h hflip⟩, fun conn' es hflip' hes => ?_⟩
  · rw [step_flip h hflip, toggle_portsVal, if_pos rfl, h p]
    cases r.board.latch p <;> rfl
  · rw [flip_latch h hflip, if_pos rfl]
  · exact ⟨run_flips h hflip hflip' hes, (run_flips_other hes h).2⟩

/-- Port `6`, the one on pin `16`, at power-on. -/
theorem flip_inverts_six :
    FlipsOnly ⟨6, by decide⟩ (Rest.start .zero).board
      (step (.start .zero) (.request (.get "/flipinput/6"))).board ∧
    ∀ conn' es, Flips conn' ⟨6, by decide⟩ → (∀ e ∈ es, FlipsOther ⟨6, by decide⟩ e) →
      (run step (.start .zero) (.request (.get "/flipinput/6") :: es ++ [.request conn'])).board =
        (run step (.start .zero) es).board ∧
      (run step (.start .zero) es).board.portsVal.get ⟨6, by decide⟩ =
        (Rest.start .zero).board.portsVal.get ⟨6, by decide⟩ ∧
      (run step (.start .zero) es).board.latch ⟨6, by decide⟩ =
        (Rest.start .zero).board.latch ⟨6, by decide⟩ :=
  flip_inverts (start_allLow .zero).pinInv.inStep (flips_url ⟨6, by decide⟩ _ rfl)

end Esp8266Rest.Outputs
