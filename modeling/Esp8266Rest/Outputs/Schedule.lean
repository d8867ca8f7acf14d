import Esp8266Rest.Outputs.Ticks

/-!
# The schedule

The events say when a port is to be on.  `run_ticks` says what the ticks make of it: a port is on
when some tick so far came inside a window, since no tick switches a port off again.
`follows_iff` is when that agrees with the events.
-/

namespace Esp8266Rest.Outputs

open Esp8266Rest.Lib.CStr Esp8266Rest.Lib.Circle Esp8266Rest.Lib.Runs Esp8266Rest.Model
  Esp8266Rest.Url

/-- The time of day at a clock setting. -/
def timeAt (clock : Int32 × Int32) : Time := localTime clock.1 clock.2

/-- Ticks at the given clock settings. -/
def ticks (clocks : List (Int32 × Int32)) : List Event := clocks.map fun c => .tick c.1 c.2

/-- The events of the board. -/
def events (b : Board) : List PowerEvent := b.flashData.powerEvents.toList

/-- Every time in the event table is one. -/
def HasTimes (b : Board) : Prop := ∀ e ∈ events b, IsTime e.startTime ∧ IsTime e.endTime

/-- **What the events ask for**: at time `t` every port of an active event is on exactly if `t` lies
in the window of an active event on it. -/
def Follows (r : Rest) (t : Time) : Prop :=
  ∀ p : Fin 8, (∃ e ∈ events r.board, Targets e p) →
    (r.board.portsVal.get p = 1 ↔ InWindow (events r.board) p t) ∧
    (lastSet r (Int32.ofNat p) = some 1 ↔ InWindow (events r.board) p t)

/-- The ports at the start of a schedule: all off, none driven yet. -/
structure AllOff (r : Rest) : Prop where
  portsVal : ∀ p : Fin 8, r.board.portsVal.get p = 0
  pinSets : r.log.pinSets = []

/-! ### What the ticks do -/

/-- After ticks at `clocks`: a port is on when one of them came inside a window. -/
structure Ticked (evs : List PowerEvent) (clocks : List (Int32 × Int32)) (r : Rest) : Prop where
  events : events r.board = evs
  bool : ∀ p : Fin 8, r.board.portsVal.get p = 0 ∨ r.board.portsVal.get p = 1
  on : ∀ p : Fin 8, r.board.portsVal.get p = 1 ↔ ∃ c ∈ clocks, InWindow evs p (timeAt c)
  last : ∀ p : Fin 8, lastSet r (Int32.ofNat p) = some 1 ↔ r.board.portsVal.get p = 1

/-- A call of `PortPinSet` keeps `portsVal` and the last values in step. -/
theorem portPinSet_last {r : Rest} {v : UInt8} (hv : v = 0 ∨ v = 1) (q : Fin 8)
    (h : ∀ p : Fin 8, lastSet r (Int32.ofNat p) = some 1 ↔ r.board.portsVal.get p = 1) (p : Fin 8) :
    lastSet (portPinSet (Int32.ofNat q) v r) (Int32.ofNat p) = some 1 ↔
      (portPinSet (Int32.ofNat q) v r).board.portsVal.get p = 1 := by
  simp only [lastSet_of_pinSets (portPinSet_pinSets (Int32.ofNat q) v r),
    portPinSet_portsVal (slot?_ofNat q), get_setAt, ofNat_inj]
  by_cases hp : p = q
  · rw [if_pos hp, if_pos hp, shown_of_le hv, Option.some.injEq]
  · rw [if_neg hp, if_neg hp]
    exact h p

theorem ticked_tick {evs : List PowerEvent} {clocks : List (Int32 × Int32)} {r : Rest}
    (h : Ticked evs clocks r) (hevs : ∀ e ∈ evs, IsTime e.startTime ∧ IsTime e.endTime)
    (c : Int32 × Int32) : Ticked evs (clocks ++ [c]) (tick c.1 c.2 r) := by
  have hbool : ∀ p : Fin 8, (r.setClock c.1 c.2).board.portsVal.get p = 0 ∨
      (r.setClock c.1 c.2).board.portsVal.get p = 1 := h.bool
  have hval : ∀ p : Fin 8, (oneSecLoop (r.setClock c.1 c.2)).board.portsVal.get p =
      (scratch (r.setClock c.1 c.2).board).get p := fun p => oneSecLoop_portsVal (hbool p)
  have hone : ∀ p : Fin 8, (scratch (r.setClock c.1 c.2).board).get p = 1 ↔
      r.board.portsVal.get p = 1 ∨ InWindow evs p (timeAt c) := by
    intro p
    obtain rfl := h.events
    exact foldl_eventStep (localTime_isTime c.1 c.2) hevs _ _
  unfold tick
  refine ⟨?_, fun p => ?_, fun p => ?_, ?_⟩
  · obtain ⟨_, _, _, hf⟩ := oneSecLoop_frame (r.setClock c.1 c.2)
    rw [hf]
    exact h.events
  · rw [hval]
    exact foldl_eventStep_le _ (hbool p)
  · rw [hval, hone, h.on]
    simp [or_comm, or_and_right, exists_or]
  · exact oneSecLoop_induct
      (P := fun r' => ∀ p : Fin 8, lastSet r' (Int32.ofNat p) = some 1 ↔ r'.board.portsVal.get p = 1)
      (fun q v r' hv h' => portPinSet_last hv q h') h.last

theorem ticked_start {r : Rest} (hoff : AllOff r) : Ticked (events r.board) [] r := by
  refine ⟨rfl, fun p => .inl (hoff.portsVal p), fun p => ?_, fun p => ?_⟩
  · simp [hoff.portsVal p]
  · simp [lastSet, hoff.pinSets, hoff.portsVal p]

/-- **What a run of ticks does.** -/
theorem run_ticks {r : Rest} (htimes : HasTimes r.board) (hoff : AllOff r)
    (clocks : List (Int32 × Int32)) :
    Ticked (events r.board) clocks (run step r (ticks clocks)) := by
  induction clocks using List.reverseRecOn with
  | nil => exact ticked_start hoff
  | append_singleton clocks c ih =>
    have hrun : run step r (ticks (clocks ++ [c])) =
        tick c.1 c.2 (run step r (ticks clocks)) := by
      simp [ticks, step]
    rw [hrun]
    exact ticked_tick ih htimes c

/-- What ticks leave is what the events ask for at time `t`, if no port is on that should be off. -/
theorem Ticked.follows_iff {evs : List PowerEvent} {clocks : List (Int32 × Int32)} {r : Rest}
    {c : Int32 × Int32} (h : Ticked evs (clocks ++ [c]) r) : Follows r (timeAt c) ↔
      ∀ d ∈ clocks, ∀ p, InWindow evs p (timeAt d) → InWindow evs p (timeAt c) := by
  unfold Follows
  rw [h.events]
  simp only [h.last, h.on, and_self]
  constructor
  · intro hf d hd p hw
    have htarget : ∃ e ∈ evs, Targets e p := by
      obtain ⟨e, he, ht, -⟩ := hw
      exact ⟨e, he, ht⟩
    exact (hf p htarget).1 ⟨d, by simp [hd], hw⟩
  · rintro hw p -
    refine ⟨fun ⟨d, hd, hin⟩ => ?_, fun hin => ⟨c, by simp, hin⟩⟩
    rcases List.mem_append.1 hd with hd | hd
    · exact hw d hd p hin
    · rwa [List.mem_singleton.1 hd] at hin

/-! ### When the ports follow the schedule -/

theorem pairwise_iff_concat {α : Type*} {R : α → α → Prop} {l : List α} :
    l.Pairwise R ↔ ∀ pre c, pre ++ [c] <+: l → ∀ d ∈ pre, R d c := by
  induction l using List.reverseRecOn with
  | nil => simp
  | append_singleton l a ih =>
    rw [List.pairwise_append, ih]
    constructor
    · rintro ⟨hl, -, ha⟩ pre c hpre d hd
      rcases List.prefix_concat_iff.1 hpre with heq | hpre
      · obtain ⟨rfl, hc⟩ := List.append_inj' heq rfl
        rw [List.singleton_inj.1 hc]
        exact ha d hd a (by simp)
      · exact hl pre c hpre d hd
    · intro h
      refine ⟨fun pre c hpre => h pre c (hpre.trans (List.prefix_append _ _)), by simp, ?_⟩
      intro d hd b hb
      rw [List.mem_singleton.1 hb]
      exact h l a (List.prefix_refl _) d hd

/-- The ports follow the schedule after every tick of a run. -/
def FollowsSchedule (r : Rest) (clocks : List (Int32 × Int32)) : Prop :=
  ∀ pre c, pre ++ [c] <+: clocks → Follows (run step r (ticks (pre ++ [c]))) (timeAt c)

/-- **The ports follow the schedule** in a run of ticks that starts with all ports off exactly if no
port that was inside a window at one tick is outside all its windows at a later one. -/
theorem follows_schedule_iff {r : Rest} (htimes : HasTimes r.board) (hoff : AllOff r)
    (clocks : List (Int32 × Int32)) : FollowsSchedule r clocks ↔
      clocks.Pairwise fun c d => ∀ p,
        InWindow (events r.board) p (timeAt c) → InWindow (events r.board) p (timeAt d) := by
  rw [pairwise_iff_concat]
  refine forall₂_congr fun pre c => forall_congr' fun _ => ?_
  exact (run_ticks htimes hoff (pre ++ [c])).follows_iff

/-! ### A schedule with one event -/

/-- On port `0` from 8:00 to 9:00. -/
def morning : PowerEvent :=
  { PowerEvent.zero with startTime := ⟨8, 0⟩, endTime := ⟨9, 0⟩, port := 0, active := 1 }

/-- The device with this event and no other. -/
def morningOnly : Rest :=
  .start { FlashData.zero with powerEvents := FlashData.zero.powerEvents.set 0 morning }

lemma events_morningOnly :
    events morningOnly.board = morning :: List.replicate 9 .zero := rfl

theorem morningOnly_hasTimes : HasTimes morningOnly.board := by
  have hm : IsTime morning.startTime ∧ IsTime morning.endTime :=
    ⟨⟨by decide, by decide⟩, by decide, by decide⟩
  have hz : IsTime PowerEvent.zero.startTime ∧ IsTime PowerEvent.zero.endTime :=
    ⟨⟨by decide, by decide⟩, by decide, by decide⟩
  unfold HasTimes
  rw [events_morningOnly, List.forall_mem_cons]
  exact ⟨hm, fun e he => (List.eq_of_mem_replicate he) ▸ hz⟩

lemma morningOnly_allOff : AllOff morningOnly := ⟨by decide, rfl⟩

theorem morningOnly_inWindow {clock : Int32 × Int32} {p : Fin 8} :
    InWindow (events morningOnly.board) p (timeAt clock) ↔
      (p : ℕ) = 0 ∧ Within 1440 480 540 (localEpoch clock.1 clock.2 % 86400 / 60) := by
  have hm : Targets morning p ↔ (p : ℕ) = 0 := by revert p; decide
  have hz : ¬ ∃ e ∈ List.replicate 9 PowerEvent.zero, Targets e p ∧
      Within 1440 (minutes e.startTime) (minutes e.endTime) (minutes (timeAt clock)) := by
    rintro ⟨e, he, ht, -⟩
    rw [List.eq_of_mem_replicate he] at ht
    exact ht.1 rfl
  have hs : minutes morning.startTime = 480 := by decide
  have hf : minutes morning.endTime = 540 := by decide
  unfold InWindow
  rw [events_morningOnly, List.exists_mem_cons_iff, or_iff_left hz, hm, hs, hf, timeAt,
    minutes_localTime]

/-- Inside the window the ticks do what the event asks for. -/
theorem follows_schedule_morning : FollowsSchedule morningOnly [(30600, 0), (31500, 0)] := by
  refine (follows_schedule_iff morningOnly_hasTimes morningOnly_allOff _).2 ?_
  simp only [morningOnly_inWindow]
  decide

/-- **A port stays on after its window**: with ticks at 8:30 and 9:30 it is on at 9:30. -/
theorem not_follows_schedule_morning : ¬ FollowsSchedule morningOnly [(30600, 0), (34200, 0)] := by
  intro h
  have hf := h [(30600, 0)] (34200, 0) (List.prefix_refl _)
  have hrun : Ticked (events morningOnly.board) ([(30600, 0)] ++ [(34200, 0)])
      (run step morningOnly (ticks ([(30600, 0)] ++ [(34200, 0)]))) :=
    run_ticks morningOnly_hasTimes morningOnly_allOff _
  have hin : InWindow (events morningOnly.board) 0 (timeAt (30600, 0)) :=
    morningOnly_inWindow.2 (by decide)
  have hout := hrun.follows_iff.1 hf (30600, 0) (by simp) 0 hin
  exact absurd (morningOnly_inWindow.1 hout) (by decide)

end Esp8266Rest.Outputs
