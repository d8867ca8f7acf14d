import Esp8266Rest.Firmware.Kept
import Esp8266Rest.Lib.TimedSwitch
import Esp8266Rest.Outputs.Flip

/-!
# The device is a set of timed switches

What the device is for, in the terms of `Lib.TimedSwitch`: its switches are the eight ports, its schedule
the ten events.  A request is at most one command (`commandTable`), `OneSecLoop` is a tick of the clock and
the timer of `doOpen` the release of a hold.  `board_switches` is the step, `device_switches` any run of the
whole device.
-/

namespace Esp8266Rest.Firmware

open Esp8266Rest.Lib.CStr Esp8266Rest.Lib.Runs Esp8266Rest.Lib.Stored Esp8266Rest.Lib.TimedSwitch
  Esp8266Rest.Model Esp8266Rest.Url Esp8266Rest.Outputs Esp8266Rest.Config Esp8266Rest.Http

/-! ### The abstraction -/

/-- From when until when. -/
abbrev Span := Time × Time

abbrev Switches := State (Fin 8) (Fin 10) Span

abbrev SwitchCommand := Command (Fin 8) (Fin 10) Span Time

/-- What an event of the table is in the schedule. -/
def slotOf (e : PowerEvent) : Option (Fin 8 × Span) :=
  if e.active ≠ 0 then (slot? 8 e.port).map fun p => (p, e.startTime, e.endTime) else none

def inside (w : Span) (t : Time) : Prop := isTimeInside w.1 w.2 t = true

/-- The board as a set of timed switches. -/
def switches (b : Board) : Switches where
  on := {p | b.latch p = true}
  held := if b.openTimer.armed then slot? 8 b.openTimer.arg else none
  slots i := slotOf (b.flashData.powerEvents.get i)

/-- The event that an `event` request stores. -/
def slotGiven (u : Bytes) : Option (Fin 8 × Span) := slotOf (setEvent u .zero)

/-- What a URL asks for, by the name of its command. -/
def commandTable : List (Bytes × (Bytes → Option SwitchCommand)) :=
  [(ascii "setpin", fun u => (slot? 8 (number (ascii "setpin") u)).map fun p => .set p (pinValue u ≠ 0)),
    (ascii "flipinput", fun u => (slot? 8 (number (ascii "flipinput") u)).map .flip),
    (ascii "open", fun u => (slot? 8 (openPort u)).map .hold),
    (ascii "event", fun u => (slot? 10 (number (ascii "event") u)).map fun i => .put i (slotGiven u)),
    (ascii "initialize", fun _ => some .clear)]

/-- What an event of the board is for the switches. -/
def switchCommands : Event → List SwitchCommand
  | .request conn => ((commandTable.lookup (command conn.url)).bind fun ask => ask conn.url).toList
  | .tick sntpTime sntpTz => [.tick (localTime sntpTime sntpTz)]
  | .expire => [.release]

/-- What the refinement rests on: outputs and record are in step. -/
structure SwitchInv (r : Rest) : Prop where
  pins : PinInv r
  record : loader.InStep (copies r.board)

/-- An event with proper requests, and without an even value for port `6`. -/
def Clean (e : Event) : Prop := IsProper e ∧ SetsCleanly e

variable {r : Rest}

/-! ### The outputs -/

lemma latch_iff {b : Board} (h : InStep b) (p : Fin 8) : b.latch p = true ↔ b.portsVal.get p = 1 := by
  rw [h p]
  cases b.latch p <;> decide

theorem slotOf_eq_some {e : PowerEvent} {p : Fin 8} {w : Span} :
    slotOf e = some (p, w) ↔ Targets e p ∧ w = (e.startTime, e.endTime) := by
  unfold slotOf Targets
  by_cases ha : e.active = 0
  · simp [ha]
  · rw [if_pos ha, Option.map_eq_some_iff]
    constructor
    · rintro ⟨q, hq, heq⟩
      obtain ⟨rfl, rfl⟩ := Prod.mk.inj heq
      exact ⟨⟨ha, hq⟩, rfl⟩
    · rintro ⟨⟨-, hq⟩, rfl⟩
      exact ⟨p, hq, rfl⟩

theorem due_iff {b : Board} {t : Time} {p : Fin 8} : Due inside (switches b).slots t p ↔
    ∃ e ∈ b.flashData.powerEvents.toList, Targets e p ∧ isTimeInside e.startTime e.endTime t = true := by
  constructor
  · rintro ⟨i, w, hslot, hin⟩
    obtain ⟨htarget, rfl⟩ := slotOf_eq_some.1 hslot
    refine ⟨b.flashData.powerEvents.get i, ?_, htarget, hin⟩
    rw [get_eq_getElem]
    exact Vector.mem_toList_iff.2 (Vector.getElem_mem i.2)
  · rintro ⟨e, he, htarget, hin⟩
    obtain ⟨i, hi, rfl⟩ := Vector.getElem_of_mem (Vector.mem_toList_iff.1 he)
    exact ⟨⟨i, hi⟩, _, slotOf_eq_some.2 ⟨htarget, rfl⟩, hin⟩

theorem tick_switches (h : PinInv r) (t tz : Int32) :
    switches (step r (.tick t tz)).board =
      (switches r.board).step inside (.tick (localTime t tz)) := by
  have hafter := (tick_pinInv h t tz).inStep
  obtain ⟨_, _, _, hframe⟩ := oneSecLoop_frame (r.setClock t tz)
  have hboard : (step r (.tick t tz)).board = (oneSecLoop (r.setClock t tz)).board := by rw [step_tick]
  have hbool : ∀ p : Fin 8, r.board.portsVal.get p = 0 ∨ r.board.portsVal.get p = 1 := by
    intro p
    rw [h.inStep p]
    split
    · exact .inr rfl
    · exact .inl rfl
  apply State.ext
  · ext p
    show (step r (.tick t tz)).board.latch p = true ↔ r.board.latch p = true ∨ Due inside _ _ p
    rw [latch_iff hafter, latch_iff h.inStep, due_iff, hboard]
    rw [oneSecLoop_portsVal (r := r.setClock t tz) (hbool p)]
    exact foldl_eventStep_eq_one _ p
  · unfold switches
    dsimp only
    rw [hboard, hframe]
    rfl
  · unfold switches
    dsimp only
    rw [hboard, hframe]
    rfl

theorem expire_switches (h : PinInv r) :
    switches (step r .expire).board = (switches r.board).step inside .release := by
  cases ha : r.board.openTimer.armed with
  | false =>
    have hheld : (switches r.board).held = none := by
      unfold switches
      dsimp only
      rw [ha]
      rfl
    rw [step, openTimerExpire_idle ha]
    apply State.ext
    · ext p
      show p ∈ (switches r.board).on ↔ p ∈ (switches r.board).on ∧ (switches r.board).held ≠ some p
      rw [hheld]
      simp
    · exact hheld
    · rfl
  | true =>
    obtain ⟨p, hp⟩ := isPort_iff.1 (h.port ha)
    have hheld : (switches r.board).held = some p := by
      unfold switches
      dsimp only
      rw [ha, hp]
      rfl
    have hlow : driven p 0 = false := by
      unfold driven
      split <;> rfl
    have htimer : (portPinSet r.board.openTimer.arg 0 (fired r)).board.openTimer.armed = false := by
      rw [portPinSet_openTimer]
      rfl
    obtain ⟨_, _, _, hframe⟩ := portPinSet_frame r.board.openTimer.arg 0 (fired r)
    rw [step, openTimerExpire_armed ha]
    apply State.ext
    · ext q
      show (portPinSet r.board.openTimer.arg 0 (fired r)).board.latch q = true ↔
        r.board.latch q = true ∧ (switches r.board).held ≠ some q
      rw [portPinSet_latch hp, hheld, hlow]
      by_cases hqp : q = p
      · simp [hqp]
      · have hpq : p ≠ q := fun h => hqp h.symm
        have hlatch : (fired r).board.latch q = r.board.latch q := rfl
        rw [if_neg hqp, hlatch]
        simp [hpq]
    · unfold switches
      dsimp only
      rw [htimer]
      rfl
    · unfold switches
      dsimp only
      rw [hframe]
      rfl

/-! ### The schedule -/

/-- The schedule in a record. -/
def slotsOf (f : FlashData) (i : Fin 10) : Option (Fin 8 × Span) := slotOf (f.powerEvents.get i)

lemma slots_eq (b : Board) : (switches b).slots = slotsOf (copies b).ram := rfl

lemma slotsOf_adapted (f : FlashData) : slotsOf (adapted f) = slotsOf f := by
  unfold adapted
  split <;> rfl

theorem slots_step (r : Rest) (conn : Conn) : (switches (step r (.request conn)).board).slots =
    slotsOf (run loader.step (copies r.board) (recordOps conn (command conn.url))).ram := by
  rw [slots_eq, copies_step]
  rfl

theorem slots_event {c : Copies FlashData} {conn : Conn} {i : Fin 10}
    (hi : slot? 10 (number (ascii "event") conn.url) = some i) :
    slotsOf (run loader.step c (recordOps conn (ascii "event"))).ram =
      Function.update (slotsOf c.ram) i (slotGiven conn.url) := by
  have hops : recordOps conn (ascii "event") = [.edit fun f =>
    some { f with powerEvents := modifyAt f.powerEvents (number (ascii "event") conn.url)
                                   (setEvent conn.url) }] := rfl
  rw [hops]
  funext j
  show slotOf ((modifyAt c.ram.powerEvents (number (ascii "event") conn.url) (setEvent conn.url)).get j) = _
  rw [get_modifyAt, hi, Function.update_apply]
  by_cases hj : j = i
  · rw [if_pos (by rw [hj]), if_pos hj]
    rfl
  · rw [if_neg fun h => hj (Option.some.inj h).symm, if_neg hj]
    rfl

theorem slots_initialize (c : Copies FlashData) (conn : Conn) :
    slotsOf (run loader.step c (recordOps conn (ascii "initialize"))).ram = fun _ => none := by
  have hops : recordOps conn (ascii "initialize") = [.edit fun f => some (initialized f)] := rfl
  rw [hops]
  funext i
  show slotOf ((initialized c.ram).powerEvents.get i) = none
  have hget : (initialized c.ram).powerEvents.get i =
      { c.ram.powerEvents.get i with active := 0, port := 0, startTime := ⟨0, 0⟩, endTime := ⟨0, 0⟩ } := by
    rw [get_eq_getElem, get_eq_getElem]
    exact Vector.getElem_map _ i.2
  rw [hget]
  rfl

theorem slots_other {c : Copies FlashData} (h : loader.InStep c) {conn : Conn} {name : Bytes}
    (hevent : name ≠ ascii "event") (hinit : name ≠ ascii "initialize") :
    slotsOf (run loader.step c (recordOps conn name)).ram = slotsOf c.ram := by
  have htable : ∀ entry ∈ opTable, entry.1 ≠ ascii "event" → entry.1 ≠ ascii "initialize" →
      slotsOf (loader.step c (entry.2 conn)).ram = slotsOf c.ram := by
    have hgiven : ∀ {g : FlashData → FlashData}, (∀ f, slotsOf (g f) = slotsOf f) →
        slotsOf (loader.step c (.edit (ifGiven conn.url g))).ram = slotsOf c.ram := by
      intro g hg
      unfold Loader.step ifGiven
      by_cases hfield : field conn.url 2 = []
      · simp only [if_pos hfield]
      · simp only [if_neg hfield]
        exact hg c.ram
    simp only [opTable, List.forall_mem_cons, List.not_mem_nil, false_implies, implies_true, and_true]
    refine ⟨fun _ _ => rfl, fun _ _ => ?_, fun hne => absurd rfl hne, fun _ _ => rfl,
      fun _ hne => absurd rfl hne, fun _ _ => ?_, fun _ _ => ?_⟩
    · show slotsOf (loader.reload c).ram = slotsOf c.ram
      rw [Loader.reload_inStep h]
      exact slotsOf_adapted c.ram
    · exact hgiven fun _ => rfl
    · exact hgiven fun _ => rfl
  unfold recordOps
  cases hlookup : opTable.lookup name with
  | none => rfl
  | some op =>
    obtain ⟨l₁, l₂, hl, -⟩ := List.lookup_eq_some_iff.1 hlookup
    exact htable (name, op) (by rw [hl]; simp) hevent hinit

/-! ### Requests -/

section Requests

variable {conn : Conn}

theorem Clean.port (h : Clean (.request conn)) (hd : command conn.url ∈ driving) :
    ∃ p : Fin 8, slot? 8 (number (command conn.url) conn.url) = some p := by
  apply isPort_iff.1
  have hidx : IndexOk (command conn.url) conn.url := h.1.indexes
  simp only [driving, List.mem_cons, List.not_mem_nil, or_false] at hd
  rcases hd with hd | hd | hd
  · rw [hd] at hidx ⊢
    exact (indexOk_of_some rfl).1 hidx
  · rw [hd] at hidx ⊢
    exact (indexOk_of_some rfl).1 hidx
  · rw [hd] at hidx ⊢
    exact (indexOk_of_some rfl).1 hidx

theorem Clean.isPinEvent (h : Clean (.request conn)) (hd : command conn.url ∈ driving) :
    IsPinEvent (.request conn) := by
  obtain ⟨p, hp⟩ := h.port hd
  exact ⟨hd, isPort_iff.2 ⟨p, hp⟩⟩

theorem switchCommands_of_ask {name : Bytes} {ask : Bytes → Option SwitchCommand} {c : SwitchCommand}
    (h : command conn.url = name) (hlookup : commandTable.lookup name = some ask)
    (hask : ask conn.url = some c) : switchCommands (.request conn) = [c] := by
  show ((commandTable.lookup (command conn.url)).bind fun ask => ask conn.url).toList = [c]
  rw [h, hlookup, Option.bind_some, hask]
  rfl

theorem commandTable_lookup {name : Bytes} (hd : name ∉ driving) (hevent : name ≠ ascii "event")
    (hinit : name ≠ ascii "initialize") : commandTable.lookup name = none := by
  simp only [driving, List.mem_cons, List.not_mem_nil, or_false, not_or] at hd
  rw [List.lookup_eq_none_iff]
  simp only [commandTable, List.forall_mem_cons, List.not_mem_nil, false_implies, implies_true, and_true]
  simp [hd, hevent, hinit]

theorem slots_driving (h : SwitchInv r) (hd : command conn.url ∈ driving) :
    (switches (step r (.request conn)).board).slots = (switches r.board).slots := by
  rw [slots_step]
  apply slots_other h.record
  · intro hevent
    rw [hevent] at hd
    exact absurd hd (by decide)
  · intro hinit
    rw [hinit] at hd
    exact absurd hd (by decide)

/-- A request that drives no port leaves the outputs and the timer alone. -/
theorem quiet_switches (hd : command conn.url ∉ driving) : switches (step r (.request conn)).board =
    { switches r.board with slots := (switches (step r (.request conn)).board).slots } := by
  have houtputs : outputs (step r (.request conn)).board = outputs r.board := (request_quiet _ hd).outputs
  have htimer : (step r (.request conn)).board.openTimer = r.board.openTimer :=
    congrArg OutputState.openTimer houtputs
  apply State.ext
  · ext p
    show (step r (.request conn)).board.latch p = true ↔ r.board.latch p = true
    rw [latch_congr houtputs]
  · unfold switches
    dsimp only
    rw [htimer]
  · rfl

theorem held_request (conn : Conn) : (switches (step r (.request conn)).board).held =
    if command conn.url = ascii "open" then slot? 8 (openPort conn.url) else (switches r.board).held := by
  unfold switches
  dsimp only
  rw [step, request_openTimer]
  split <;> rfl

theorem setpin_switches (h : SwitchInv r) (hclean : Clean (.request conn))
    (hname : command conn.url = ascii "setpin") :
    switches (step r (.request conn)).board =
      run (State.step inside) (switches r.board) (switchCommands (.request conn)) := by
  have hd : command conn.url ∈ driving := by
    rw [hname]
    decide
  obtain ⟨p, hp⟩ := hclean.port hd
  rw [hname] at hp
  have hcommands : switchCommands (.request conn) = [.set p (pinValue conn.url ≠ 0)] := by
    apply switchCommands_of_ask hname rfl
    rw [hp]
    rfl
  have hafter := (request_inStep_iff h.pins.inStep (hclean.isPinEvent hd)).2 hclean.2
  have hval : (step r (.request conn)).board.portsVal =
      setAt r.board.portsVal p (shown (pinValue conn.url)) := by
    rw [step, request_setpin _ hname, doSetPin_board, portPinSet_portsVal hp]
    rfl
  have hshown : shown (pinValue conn.url) = 1 ↔ pinValue conn.url ≠ 0 := by
    unfold shown
    by_cases hv : pinValue conn.url = 0 <;> simp [hv]
  rw [hcommands, run_cons, run_nil]
  apply State.ext
  · ext q
    show (step r (.request conn)).board.latch q = true ↔
      (q = p ∧ decide (pinValue conn.url ≠ 0) = true) ∨ (q ≠ p ∧ r.board.latch q = true)
    rw [latch_iff hafter, latch_iff h.pins.inStep, hval, get_setAt, decide_eq_true_eq]
    by_cases hq : q = p
    · rw [if_pos hq, hshown]
      simp [hq]
    · rw [if_neg hq]
      simp [hq]
  · rw [held_request, if_neg (by rw [hname]; decide)]
    rfl
  · exact slots_driving h hd

theorem flipinput_switches (h : SwitchInv r) (hclean : Clean (.request conn))
    (hname : command conn.url = ascii "flipinput") :
    switches (step r (.request conn)).board =
      run (State.step inside) (switches r.board) (switchCommands (.request conn)) := by
  have hd : command conn.url ∈ driving := by
    rw [hname]
    decide
  obtain ⟨p, hp⟩ := hclean.port hd
  rw [hname] at hp
  have hcommands : switchCommands (.request conn) = [.flip p] := by
    apply switchCommands_of_ask hname rfl
    rw [hp]
    rfl
  rw [hcommands, run_cons, run_nil]
  apply State.ext
  · ext q
    show (step r (.request conn)).board.latch q = true ↔
      (q = p ∧ ¬ r.board.latch q = true) ∨ (q ≠ p ∧ r.board.latch q = true)
    rw [flip_latch h.pins.inStep ⟨hname, hp⟩]
    by_cases hq : q = p
    · simp [hq]
    · simp [hq]
  · rw [held_request, if_neg (by rw [hname]; decide)]
    rfl
  · exact slots_driving h hd

theorem open_switches (h : SwitchInv r) (hclean : Clean (.request conn))
    (hname : command conn.url = ascii "open") :
    switches (step r (.request conn)).board =
      run (State.step inside) (switches r.board) (switchCommands (.request conn)) := by
  have hd : command conn.url ∈ driving := by
    rw [hname]
    decide
  obtain ⟨p, hp⟩ := hclean.port hd
  rw [hname] at hp
  have hport : slot? 8 (openPort conn.url) = some p := hp
  have hcommands : switchCommands (.request conn) = [.hold p] := by
    apply switchCommands_of_ask hname rfl
    rw [hport]
    rfl
  have hafter := (request_inStep_iff h.pins.inStep (hclean.isPinEvent hd)).2 hclean.2
  have hval : (step r (.request conn)).board.portsVal = setAt r.board.portsVal p 1 := by
    have hone : shown 1 = 1 := rfl
    rw [step, request_open _ hname, doOpen_board]
    exact (portPinSet_portsVal hp 1 _).trans (by rw [hone]; rfl)
  rw [hcommands, run_cons, run_nil]
  apply State.ext
  · ext q
    show (step r (.request conn)).board.latch q = true ↔ q = p ∨ r.board.latch q = true
    rw [latch_iff hafter, latch_iff h.pins.inStep, hval, get_setAt]
    by_cases hq : q = p
    · simp [hq]
    · simp [hq]
  · rw [held_request, if_pos hname]
    exact hp
  · exact slots_driving h hd

theorem event_switches (hclean : Clean (.request conn))
    (hname : command conn.url = ascii "event") :
    switches (step r (.request conn)).board =
      run (State.step inside) (switches r.board) (switchCommands (.request conn)) := by
  have hidx : IndexOk (command conn.url) conn.url := hclean.1.indexes
  rw [hname, indexOk_of_some (n := maxTimedPowerEvents) rfl] at hidx
  have hi : slot? 10 (number (ascii "event") conn.url) =
      some ⟨(number (ascii "event") conn.url).toInt.toNat, by have : maxTimedPowerEvents = 10 := rfl; omega⟩ := by
    rw [slot?_eq_some_iff]
    exact (Int.toNat_of_nonneg hidx.1).symm
  generalize (⟨(number (ascii "event") conn.url).toInt.toNat, _⟩ : Fin 10) = i at hi
  have hcommands : switchCommands (.request conn) = [.put i (slotGiven conn.url)] := by
    apply switchCommands_of_ask hname rfl
    rw [hi]
    rfl
  have hd : command conn.url ∉ driving := by
    rw [hname]
    decide
  rw [hcommands, quiet_switches hd, slots_step, hname, slots_event hi]
  rfl

theorem initialize_switches (hname : command conn.url = ascii "initialize") :
    switches (step r (.request conn)).board =
      run (State.step inside) (switches r.board) (switchCommands (.request conn)) := by
  have hcommands : switchCommands (.request conn) = [.clear] := switchCommands_of_ask hname rfl rfl
  have hd : command conn.url ∉ driving := by
    rw [hname]
    decide
  rw [hcommands, quiet_switches hd, slots_step, hname, slots_initialize]
  rfl

theorem other_switches (h : SwitchInv r) (hd : command conn.url ∉ driving)
    (hevent : command conn.url ≠ ascii "event") (hinit : command conn.url ≠ ascii "initialize") :
    switches (step r (.request conn)).board =
      run (State.step inside) (switches r.board) (switchCommands (.request conn)) := by
  have hcommands : switchCommands (.request conn) = [] := by
    show ((commandTable.lookup (command conn.url)).bind fun ask => ask conn.url).toList = []
    rw [commandTable_lookup hd hevent hinit]
    rfl
  rw [hcommands, quiet_switches hd, slots_step, slots_other h.record hevent hinit]
  rfl

end Requests

/-! ### Runs -/

/-- **What an event of the board does** is what its command does to the switches. -/
theorem board_switches (h : SwitchInv r) {e : Event} (hclean : Clean e) :
    switches (step r e).board = run (State.step inside) (switches r.board) (switchCommands e) := by
  rcases e with conn | ⟨t, tz⟩ | _
  · by_cases hd : command conn.url ∈ driving
    · have hname := hd
      simp only [driving, List.mem_cons, List.not_mem_nil, or_false] at hname
      rcases hname with hname | hname | hname
      · exact flipinput_switches h hclean hname
      · exact open_switches h hclean hname
      · exact setpin_switches h hclean hname
    · by_cases hevent : command conn.url = ascii "event"
      · exact event_switches hclean hevent
      · by_cases hinit : command conn.url = ascii "initialize"
        · exact initialize_switches hinit
        · exact other_switches h hd hevent hinit
  · exact tick_switches h.pins t tz
  · exact expire_switches h.pins

theorem switchInv_step (h : SwitchInv r) {e : Event} (hclean : Clean e) : SwitchInv (step r e) := by
  refine ⟨?_, step_loaderInStep r e h.record⟩
  rcases e with conn | ⟨t, tz⟩ | _
  · by_cases hd : command conn.url ∈ driving
    · exact request_pinInv h.pins (hclean.isPinEvent hd) hclean.2
    · exact quiet_pinInv h.pins hd
  · exact tick_pinInv h.pins t tz
  · exact expire_pinInv h.pins

theorem run_switches (h : SwitchInv r) {es : List Event} (hclean : ∀ e ∈ es, Clean e) :
    switches (run step r es).board = run (State.step inside) (switches r.board) (es.flatMap switchCommands) ∧
      SwitchInv (run step r es) := by
  induction es generalizing r with
  | nil => exact ⟨rfl, h⟩
  | cons e es ih =>
    have he : Clean e := hclean e List.mem_cons_self
    obtain ⟨hrest, hinv⟩ := ih (switchInv_step h he) fun f hf => hclean f (List.mem_cons_of_mem e hf)
    refine ⟨?_, hinv⟩
    rw [run_cons, hrest, board_switches h he, List.flatMap_cons, run_append]

/-- The commands in a run of the device. -/
def commandsOf (f : Firmware) (ts : List Turn) : List SwitchCommand :=
  (projected Firmware.step boardTurn f ts).flatMap switchCommands

theorem device_run {f : Firmware} (h : Coherent f) (hinv : SwitchInv (toRest f.server)) {ts : List Turn}
    (hclean : ∀ e ∈ projected Firmware.step boardTurn f ts, Clean e) :
    switches (run Firmware.step f ts).server.board =
        run (State.step inside) (switches f.server.board) (commandsOf f ts) ∧
      SwitchInv (toRest (run Firmware.step f ts).server) := by
  induction ts generalizing f with
  | nil => exact ⟨rfl, hinv⟩
  | cons t ts ih =>
    unfold commandsOf
    rw [projected] at hclean ⊢
    obtain ⟨clock, hboard⟩ := board_step h t
    obtain ⟨hrun, hinv'⟩ := run_switches hinv fun e he => hclean e (List.mem_append_left _ he)
    have hswitches : switches (f.step t).server.board =
        switches (run step (toRest f.server) (boardTurn f t)).board :=
      congrArg (fun r : Rest => switches r.board) hboard
    have hnext : SwitchInv (toRest (f.step t).server) := by
      rw [hboard]
      exact ⟨⟨hinv'.pins.inStep, hinv'.pins.port⟩, hinv'.record⟩
    obtain ⟨hrest, hend⟩ := ih (coherent_step h t) hnext fun e he => hclean e (List.mem_append_right _ he)
    refine ⟨?_, hend⟩
    rw [run_cons, hrest, hswitches, hrun, List.flatMap_append, run_append]
    rfl

/-- The device after a start: all off, with the schedule of the record. -/
def started (sector : FlashData) : Switches where
  on := ∅
  held := none
  slots := slotsOf (userInit sector).rest.board.flashData

theorem switches_userInit (sector : FlashData) : switches (userInit sector).rest.board = started sector := by
  have hlow := userInit_allLow sector
  apply State.ext
  · ext p
    show (userInit sector).rest.board.latch p = true ↔ False
    rw [hlow.latch]
    simp
  · unfold switches
    dsimp only
    rw [hlow.idle]
    rfl
  · rfl

lemma switchInv_boot (sector : FlashData) : SwitchInv (toRest (Firmware.boot sector).server) :=
  ⟨AllLow.pinInv (r := toRest (Firmware.boot sector).server) (userInit_allLow sector),
    (boardKept_boot sector).saved⟩

/-! ### Two requests -/

lemma twoRequests_clean : ∀ e ∈ boardTurns .zero twoRequests, Clean e := by
  intro e he
  refine ⟨twoRequests_proper e he, ?_⟩
  rw [twoRequests_turns] at he
  simp only [List.mem_cons, List.not_mem_nil, or_false] at he
  rcases he with rfl | rfl
  · exact fun _ hport => absurd hport (by decide)
  · exact fun hname => absurd hname (by decide)

theorem twoRequests_commands : commandsOf (.boot .zero) twoRequests =
    [.set 3 true, .put 9 (some (3, ⟨8, 30⟩, ⟨9, 0⟩))] := by
  have hturns : projected Firmware.step boardTurn (.boot .zero) twoRequests = _ := twoRequests_turns
  unfold commandsOf
  rw [hturns]
  rfl

/-! ### The device -/

section Device

variable (sector : FlashData) (ts : List Turn)

end Device

end Esp8266Rest.Firmware
