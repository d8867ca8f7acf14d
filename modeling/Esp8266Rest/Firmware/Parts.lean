import Esp8266Rest.Clock.Pace
import Esp8266Rest.Config.Saved
import Esp8266Rest.Firmware.Board

/-!
# The parts of the device

Whatever turns the tasks of the device take, each part does what it does alone, on the events that the
turns are for it: the SNTP client (`run_sntp`), the network watchdog (`run_network`), and the board, which
only requests, ticks and its timer change (`board_step`), and which has the client's clock (`coherent_run`).
-/

namespace Esp8266Rest.Firmware

open Esp8266Rest.Lib.CStr Esp8266Rest.Lib.Runs Esp8266Rest.Model Esp8266Rest.Url Esp8266Rest.Outputs
  Esp8266Rest.Http

variable {f : Firmware}

/-! ### One check -/

/-- The port and the zone of the record. -/
def port (f : Firmware) : Int32 := f.network.board.flashData.serverPort

def zone (f : Firmware) : Int32 := f.network.board.flashData.sntp

/-- The watchdog after a check, and the board with the address it found. -/
def checked (station : Station) (f : Firmware) : Firmware :=
  let network := f.network.step (.check station)
  { f with network, server := { f.server with board := network.board } }

/-- The check calls `ServerInit`. -/
def startsServer (station : Station) (f : Firmware) : Prop :=
  station.hasIp = true ∨ ¬ f.network.counter + 1 < 30

instance (station : Station) (f : Firmware) : Decidable (startsServer station f) := by
  unfold startsServer; infer_instance

theorem check_eq (time : ℕ) (station : Station) (stack : Stack) (f : Firmware) :
    f.check time station stack =
      if station.hasIp then
        ((checked station f).serverInit (port f)).sntpCall ⟨time, .init (zone f) stack⟩
      else if f.network.counter + 1 < 30 then checked station f
      else (checked station f).serverInit (port f) := by
  have hcount : ∀ n : Network, n.osTimerDisarm.counter = n.counter := fun _ => rfl
  have hcheck : f.check time station stack =
      (f.network.step (.check station)).calls.foldl (Firmware.perform time stack) (checked station f) := rfl
  rw [hcheck]
  cases hip : station.hasIp with
  | true =>
    have hcalls : (f.network.step (.check station)).calls =
        [.serverInit (port f), .initmDNS station.addr, .sntpInit (zone f), .osTimerArm (10 * 60 * 1000)] := by
      simp only [Network.step, networkCheckIp, hip, if_true]
      rfl
    rw [hcalls]
    rfl
  | false =>
    by_cases hlt : f.network.counter + 1 < 30
    · have hcalls : (f.network.step (.check station)).calls = [.osTimerArm 1000] := by
        simp only [Network.step, networkCheckIp, hip, hcount, if_pos hlt]
        rfl
      rw [hcalls, if_neg Bool.false_ne_true, if_pos hlt]
      rfl
    · have hcalls : (f.network.step (.check station)).calls =
          [.wifiStationDisconnect, .serverInit (port f), .osTimerArm (2 * 60 * 1000), .wifiStationConnect] := by
        simp only [Network.step, networkCheckIp, hip, hcount, if_neg hlt]
        rfl
      rw [hcalls, if_neg Bool.false_ne_true, if_neg hlt]
      rfl

theorem checked_board (station : Station) (f : Firmware) : ∃ ipStation,
    (checked station f).server.board = { f.network.board with ipStation } := by
  have hcount : ∀ n : Network, n.osTimerDisarm.counter = n.counter := fun _ => rfl
  show ∃ ipStation, (f.network.step (.check station)).board = { f.network.board with ipStation }
  cases hip : station.hasIp with
  | true =>
    refine ⟨ipText station.addr, ?_⟩
    simp only [Network.step, networkCheckIp, hip, if_true]
    rfl
  | false =>
    refine ⟨f.network.board.ipStation, ?_⟩
    by_cases hlt : f.network.counter + 1 < 30
    · simp only [Network.step, networkCheckIp, hip, hcount, if_pos hlt]
      rfl
    · simp only [Network.step, networkCheckIp, hip, hcount, if_neg hlt]
      rfl

/-! ### One board, one clock -/

/-- The slots stand for what came in on them, the parts have the same board, and its clock is the
client's. -/
structure Coherent (f : Firmware) : Prop where
  sound : Sound f.server.pool
  board : f.network.board = f.server.board
  time : f.server.board.sntpTime = f.sntp.sntpTime
  tz : f.server.board.sntpTz = f.sntp.sntpTz

lemma board_boot (sector : FlashData) :
    (Firmware.boot sector).server.board = (userInit sector).rest.board := rfl

lemma toRest_boot (sector : FlashData) :
    toRest (Firmware.boot sector).server = ⟨(userInit sector).rest.board, [], .empty⟩ := rfl

theorem coherent_boot (sector : FlashData) : Coherent (.boot sector) := by
  have hclock : clockOf (userInit sector).rest.board = (0, 0, []) := by
    rw [Config.userInit_eq]
    exact readFromFlash_clock _
  have hsnd : (clockOf (userInit sector).rest.board).2 = (0, []) := congrArg Prod.snd hclock
  have htime : (userInit sector).rest.board.sntpTime = 0 := congrArg Prod.fst hclock
  have htz : (userInit sector).rest.board.sntpTz = 0 := congrArg Prod.fst hsnd
  refine ⟨fresh_sound _, rfl, ?_, ?_⟩
  · rw [board_boot, htime]
    rfl
  · rw [board_boot, htz]
    rfl

theorem Coherent.of_clock (h : Coherent f) {f' : Firmware} (hpool : Sound f'.server.pool)
    (hboard : f'.network.board = f'.server.board) (hclock : clockOf f'.server.board = clockOf f.server.board)
    (hsntp : f'.sntp = f.sntp) : Coherent f' := by
  have hsnd := congrArg Prod.snd hclock
  have htime : f'.server.board.sntpTime = f.server.board.sntpTime := congrArg Prod.fst hclock
  have htz : f'.server.board.sntpTz = f.server.board.sntpTz := congrArg Prod.fst hsnd
  exact ⟨hpool, hboard, by rw [htime, hsntp, h.time], by rw [htz, hsntp, h.tz]⟩

lemma coherent_callback (h : Coherent f) {e : Callback} (he : IsTurn e) : Coherent (f.callback e) :=
  h.of_clock (step_sound f.server e h.sound) rfl (serverStep_clock he h.sound) rfl

lemma coherent_sntpCall (h : Coherent f) (e : SntpEvent) : Coherent (f.sntpCall e) :=
  ⟨h.sound, rfl, rfl, rfl⟩

theorem coherent_checked (h : Coherent f) (station : Station) : Coherent (checked station f) := by
  obtain ⟨ipStation, hboard⟩ := checked_board station f
  refine ⟨h.sound, rfl, ?_, ?_⟩
  · rw [hboard, h.board]
    exact h.time
  · rw [hboard, h.board]
    exact h.tz

theorem coherent_check (h : Coherent f) (time : ℕ) (station : Station) (stack : Stack) :
    Coherent (f.check time station stack) := by
  have hchecked := coherent_checked h station
  have hserver : Coherent ((checked station f).serverInit (port f)) :=
    ⟨hchecked.sound, hchecked.board, hchecked.time, hchecked.tz⟩
  rw [check_eq]
  split
  · exact coherent_sntpCall hserver _
  · split
    · exact hchecked
    · exact hserver

/-- What the main loop is for the board. -/
def loopEvents (time : ℕ) (f : Firmware) : List Event :=
  if (Model.loop time ⟨toRest f.server, f.stime, f.gSec⟩).2 then
    [.tick f.server.board.sntpTime f.server.board.sntpTz]
  else []

/-- The main loop ticks the board, or leaves it alone. -/
theorem loop_board (time : ℕ) (f : Firmware) :
    toRest (f.loop time).server = run step (toRest f.server) (loopEvents time f) := by
  have hboard : (f.loop time).server.board =
      (Model.loop time ⟨toRest f.server, f.stime, f.gSec⟩).1.rest.board := rfl
  have hlog : (f.loop time).server.log =
      (Model.loop time ⟨toRest f.server, f.stime, f.gSec⟩).1.rest.log := rfl
  unfold loopEvents
  rcases Clock.loop_cases time ⟨toRest f.server, f.stime, f.gSec⟩ with ⟨-, hloop⟩ | ⟨-, hloop⟩
  · rw [hloop] at hboard hlog
    rw [hloop, if_pos rfl, run_cons, run_nil]
    have hbuff : (oneSecLoop (toRest f.server)).sendBuff = [] :=
      tick_sendBuff (r := toRest f.server) rfl f.server.board.sntpTime f.server.board.sntpTz
    exact Rest.ext hboard hbuff.symm hlog
  · rw [hloop] at hboard hlog
    rw [hloop, if_neg Bool.false_ne_true, run_nil]
    exact Rest.ext hboard rfl hlog

theorem loopEvents_clock (time : ℕ) (f : Firmware) :
    clockOf (run step (toRest f.server) (loopEvents time f)).board = clockOf f.server.board := by
  unfold loopEvents
  split
  · rw [run_cons, run_nil, step, tick, oneSecLoop_clock]
    rfl
  · rfl

theorem coherent_loop (h : Coherent f) (time : ℕ) : Coherent (f.loop time) := by
  have hboard : (toRest (f.loop time).server).board =
      (run step (toRest f.server) (loopEvents time f)).board := by
    rw [loop_board]
  refine h.of_clock h.sound rfl ?_ rfl
  exact (congrArg clockOf hboard).trans (loopEvents_clock time f)

theorem coherent_step (h : Coherent f) (t : Turn) : Coherent (f.step t) := by
  cases t with
  | loop time => exact coherent_loop h time
  | connect arg =>
    rw [Firmware.step]
    split
    · exact coherent_callback h trivial
    · exact h
  | recv arg data uninit => exact coherent_callback h trivial
  | sent arg => exact coherent_callback h trivial
  | discon state => exact coherent_callback h trivial
  | recon arg err => exact coherent_callback h trivial
  | openTimer => exact coherent_callback h trivial
  | networkTimer time station stack => exact coherent_check h time station stack
  | timeout time stack => exact coherent_sntpCall h _
  | dnsFound time ipaddr stack => exact coherent_sntpCall h _
  | datagram time p stack => exact coherent_sntpCall h _
  | ntpTimer time => exact coherent_sntpCall h _

lemma coherent_run (sector : FlashData) (ts : List Turn) : Coherent (run Firmware.step (.boot sector) ts) :=
  run_of_step (P := Coherent) Firmware.step (fun _ t h => coherent_step h t) (coherent_boot sector) ts

/-! ### The client and the watchdog -/

/-- What a turn is for the SNTP client. -/
def sntpEvents (f : Firmware) : Turn → List SntpEvent
  | .networkTimer time station stack => if station.hasIp then [⟨time, .init (zone f) stack⟩] else []
  | .timeout time stack => [⟨time, .timeout stack⟩]
  | .dnsFound time ipaddr stack => [⟨time, .dnsFound ipaddr stack⟩]
  | .datagram time p stack => [⟨time, .recv p stack⟩]
  | .ntpTimer time => [⟨time, .ntpTimer⟩]
  | _ => []

theorem sntp_step (f : Firmware) (t : Turn) : (f.step t).sntp = run Sntp.step f.sntp (sntpEvents f t) := by
  cases t with
  | connect arg =>
    rw [Firmware.step]
    split <;> rfl
  | networkTimer time station stack =>
    rw [Firmware.step, check_eq, sntpEvents]
    cases station.hasIp with
    | true => rfl
    | false =>
      rw [if_neg Bool.false_ne_true, if_neg Bool.false_ne_true]
      split <;> rfl
  | loop time => rfl
  | recv arg data uninit => rfl
  | sent arg => rfl
  | discon state => rfl
  | recon arg err => rfl
  | openTimer => rfl
  | timeout time stack => rfl
  | dnsFound time ipaddr stack => rfl
  | datagram time p stack => rfl
  | ntpTimer time => rfl

/-- What a turn is for the watchdog: a check, or some change of the board. -/
def networkEvents (f : Firmware) (t : Turn) : List NetworkEvent :=
  match t with
  | .networkTimer _ station _ => [.check station, .other fun _ => (f.step t).server.board]
  | _ => [.other fun _ => (f.step t).server.board]

theorem network_step (h : Coherent f) (t : Turn) :
    (f.step t).network = run Network.step f.network (networkEvents f t) := by
  have hsame : f.network = f.network.step (.other fun _ => f.server.board) := by
    rw [← h.board]
    rfl
  cases t with
  | connect arg =>
    have hevents : networkEvents f (.connect arg) = [.other fun _ => (f.step (.connect arg)).server.board] := rfl
    rw [hevents, run_cons, run_nil, Firmware.step]
    split
    · rfl
    · exact hsame
  | networkTimer time station stack =>
    rw [networkEvents, Firmware.step, check_eq]
    split
    · rfl
    · split <;> rfl
  | loop time => rfl
  | recv arg data uninit => rfl
  | sent arg => rfl
  | discon state => rfl
  | recon arg err => rfl
  | openTimer => rfl
  | timeout time stack => rfl
  | dnsFound time ipaddr stack => rfl
  | datagram time p stack => rfl
  | ntpTimer time => rfl

/-! ### The board -/

/-- The board with another clock and address. -/
def setClock (clock : Int32 × Int32 × Bytes) (r : Rest) : Rest :=
  { r with board := { r.board with sntpTime := clock.1, sntpTz := clock.2.1, ipStation := clock.2.2 } }

/-- What a turn is for the board, but for its clock and address. -/
def boardTurn (f : Firmware) : Turn → List Event
  | .loop time => loopEvents time f
  | .recv arg data uninit => boardEvents f.server (.recv arg data uninit)
  | .openTimer => [.expire]
  | _ => []

lemma toRest_eq_setClock (server : Server) :
    toRest server = setClock (clockOf server.board) (toRest server) := rfl

theorem checked_toRest (h : Coherent f) (station : Station) :
    toRest (checked station f).server =
      setClock (clockOf (checked station f).server.board) (toRest f.server) := by
  obtain ⟨ipStation, hboard⟩ := checked_board station f
  have hlog : (checked station f).server.log = f.server.log := rfl
  unfold toRest
  rw [hboard, hlog, h.board]
  rfl

theorem callback_board (h : Coherent f) (e : Callback) : ∃ clock,
    toRest (f.callback e).server = setClock clock (run step (toRest f.server) (boardEvents f.server e)) := by
  have hrefines : toRest (f.callback e).server = run step (toRest f.server) (boardEvents f.server e) :=
    step_refines f.server e h.sound
  refine ⟨clockOf (f.callback e).server.board, ?_⟩
  exact (toRest_eq_setClock _).trans (congrArg (setClock _) hrefines)

theorem sntpCall_board (e : SntpEvent) (f : Firmware) :
    toRest (f.sntpCall e).server =
      setClock ((f.sntp.step e).sntpTime, (f.sntp.step e).sntpTz, f.server.board.ipStation)
        (toRest f.server) := rfl

/-- A check writes the address of the board, and the clock as the client has it. -/
theorem check_board (h : Coherent f) (time : ℕ) (station : Station) (stack : Stack) : ∃ clock,
    toRest (f.check time station stack).server = setClock clock (toRest f.server) := by
  have hchecked := checked_toRest h station
  rw [check_eq]
  split
  · have hinit := sntpCall_board ⟨time, .init (zone f) stack⟩ ((checked station f).serverInit (port f))
    have hserver : toRest ((checked station f).serverInit (port f)).server =
        toRest (checked station f).server := rfl
    rw [hserver, hchecked] at hinit
    exact ⟨_, hinit⟩
  · split
    · exact ⟨_, hchecked⟩
    · exact ⟨_, hchecked⟩

/-- **What a turn does to the board** is what its events do, but for the clock and the address. -/
theorem board_step (h : Coherent f) (t : Turn) : ∃ clock,
    toRest (f.step t).server = setClock clock (run step (toRest f.server) (boardTurn f t)) := by
  cases t with
  | loop time =>
    refine ⟨clockOf (f.loop time).server.board, ?_⟩
    exact (toRest_eq_setClock _).trans (congrArg (setClock _) (loop_board time f))
  | connect arg =>
    rw [Firmware.step]
    split
    · exact callback_board h (.connect arg)
    · exact ⟨_, toRest_eq_setClock f.server⟩
  | recv arg data uninit => exact callback_board h (.recv arg data uninit)
  | sent arg => exact callback_board h (.sent arg)
  | discon state => exact callback_board h (.discon state)
  | recon arg err => exact callback_board h (.recon arg err)
  | openTimer => exact callback_board h .expire
  | networkTimer time station stack => exact check_board h time station stack
  | timeout time stack => exact ⟨_, sntpCall_board _ f⟩
  | dnsFound time ipaddr stack => exact ⟨_, sntpCall_board _ f⟩
  | datagram time p stack => exact ⟨_, sntpCall_board _ f⟩
  | ntpTimer time => exact ⟨_, sntpCall_board _ f⟩

/-! ### Runs -/

lemma run_sntp (f : Firmware) (ts : List Turn) :
    (run Firmware.step f ts).sntp = run Sntp.step f.sntp (projected Firmware.step sntpEvents f ts) :=
  abs_run (I := fun _ => True) (fun _ _ _ => trivial) (fun f t _ => sntp_step f t) trivial ts

section Runs

variable (sector : FlashData) (ts : List Turn)

/-- What the turns of a run are for the client, for the watchdog and for the board. -/
def sntpTurns : List SntpEvent := projected Firmware.step sntpEvents (.boot sector) ts

def networkTurns : List NetworkEvent := projected Firmware.step networkEvents (.boot sector) ts

def boardTurns : List Event := projected Firmware.step boardTurn (.boot sector) ts

theorem run_network : (run Firmware.step (.boot sector) ts).network =
    run Network.step (.boot (Firmware.boot sector).server.board) (networkTurns sector ts) :=
  abs_run (I := Coherent) (fun _ t h => coherent_step h t) (fun _ t h => network_step h t)
    (coherent_boot sector) ts

/-- **The rule for the board of the device.**  What the board's events that meet `ok` keep, whatever the
clock and the address are, holds of it in every state of a run in which they all do. -/
theorem throughout_board {P : Rest → Prop} {ok : Event → Prop} (hstep : ∀ r e, P r → ok e → P (step r e))
    (hclock : ∀ clock r, P r → P (setClock clock r)) (hboot : P (toRest (Firmware.boot sector).server))
    (hok : ∀ e ∈ boardTurns sector ts, ok e) :
    Throughout Firmware.step (fun f => P (toRest f.server)) (.boot sector) ts := by
  apply throughout_upTo (I := Coherent) (R := fun r r' => ∃ clock, r' = setClock clock r)
    (fun _ t h => coherent_step h t) (fun _ t h => board_step h t) hstep ?_ (coherent_boot sector) hboot hok
  rintro r _ ⟨clock, rfl⟩ h
  exact hclock clock r h

end Runs

end Esp8266Rest.Firmware
