import Esp8266Rest.Lib.Runs
import Mathlib.Data.Set.Insert
import Mathlib.Logic.Function.Basic

/-!
# Timed switches

Switches `P` that are on or off, and a schedule with slots `I`, each empty or with a switch and a window
`W` of the clock.  When the clock ticks, the switches with the time in one of their windows go on; nothing
goes off by itself but the switch that was last put on hold, when the hold is released.

`off_cause` says why a switch goes off, so that one stays on that nothing puts off (`stays_on`).  A switch
that no command is for stays as it was until a tick finds it due, and is on from then on (`mem_on_run`).
-/

namespace Esp8266Rest.Lib.TimedSwitch

open Esp8266Rest.Lib.Runs

variable {P I W T : Type*}

@[ext] structure State (P I W : Type*) where
  on : Set P
  held : Option P
  slots : I → Option (P × W)

inductive Command (P I W T : Type*) where
  | set (p : P) (v : Bool)
  | flip (p : P)
  | hold (p : P)
  | release
  | put (i : I) (x : Option (P × W))
  | clear
  | tick (t : T)

/-- A slot has the switch, with the time in its window. -/
def Due (inside : W → T → Prop) (slots : I → Option (P × W)) (t : T) (p : P) : Prop :=
  ∃ i w, slots i = some (p, w) ∧ inside w t

section Step

variable (inside : W → T → Prop) [DecidableEq I]

def State.step (s : State P I W) : Command P I W T → State P I W
  | .set p v => { s with on := {q | (q = p ∧ v = true) ∨ (q ≠ p ∧ q ∈ s.on)} }
  | .flip p => { s with on := {q | (q = p ∧ q ∉ s.on) ∨ (q ≠ p ∧ q ∈ s.on)} }
  | .hold p => { s with on := insert p s.on, held := some p }
  | .release => { s with on := {q ∈ s.on | s.held ≠ some q}, held := none }
  | .put i x => { s with slots := Function.update s.slots i x }
  | .clear => { s with slots := fun _ => none }
  | .tick t => { s with on := s.on ∪ {p | Due inside s.slots t p} }

variable {inside} {s : State P I W} {p : P}

/-- The command puts the switch off, if it is on. -/
def PutsOff (s : State P I W) (p : P) (c : Command P I W T) : Prop :=
  c = .set p false ∨ c = .flip p ∨ c = .release ∧ s.held = some p

/-- **Why a switch goes off**: it is set, inverted or released. -/
theorem off_cause {c : Command P I W T} (hon : p ∈ s.on) (hoff : p ∉ (s.step inside c).on) : PutsOff s p c := by
  cases c with
  | set q v =>
    by_cases hpq : p = q
    · subst hpq
      cases v with
      | true => exact absurd (.inl ⟨rfl, rfl⟩) hoff
      | false => exact .inl rfl
    · exact absurd (.inr ⟨hpq, hon⟩) hoff
  | flip q =>
    by_cases hpq : p = q
    · subst hpq
      exact .inr (.inl rfl)
    · exact absurd (.inr ⟨hpq, hon⟩) hoff
  | hold q => exact absurd (.inr hon) hoff
  | release =>
    refine .inr (.inr ⟨rfl, ?_⟩)
    by_contra hheld
    exact hoff ⟨hon, hheld⟩
  | put i x => exact absurd hon hoff
  | clear => exact absurd hon hoff
  | tick t => exact absurd (.inl hon) hoff

/-- **A switch that nothing puts off stays on.** -/
theorem stays_on (hon : p ∈ s.on) {cs : List (Command P I W T)}
    (h : Along (State.step inside) (fun s c => ¬ PutsOff s p c) s cs) :
    p ∈ (run (State.step inside) s cs).on := by
  induction cs generalizing s with
  | nil => exact hon
  | cons c cs ih =>
    refine ih ?_ h.2
    by_contra hoff
    exact h.1 (off_cause hon hoff)

/-- The command is not for the switch. -/
def Spares (s : State P I W) (p : P) : Command P I W T → Prop
  | .set q _ => p ≠ q
  | .flip q => p ≠ q
  | .hold q => p ≠ q
  | .release => s.held ≠ some p
  | _ => True

theorem mem_on_step {c : Command P I W T} (h : Spares s p c) :
    p ∈ (s.step inside c).on ↔ p ∈ s.on ∨ ∃ t, c = .tick t ∧ Due inside s.slots t p := by
  cases c with
  | set q v =>
    have hpq : p ≠ q := h
    simp [State.step, hpq]
  | flip q =>
    have hpq : p ≠ q := h
    simp [State.step, hpq]
  | hold q =>
    have hpq : p ≠ q := h
    simp [State.step, hpq]
  | release =>
    have hheld : s.held ≠ some p := h
    simp [State.step, hheld]
  | put i x => simp [State.step]
  | clear => simp [State.step]
  | tick t => simp [State.step]

/-- **A switch that no command is for** is on at the end of a run exactly if it was on, or a tick found it
due. -/
theorem mem_on_run {cs : List (Command P I W T)} (h : Along (State.step inside) (fun s c => Spares s p c) s cs) :
    p ∈ (run (State.step inside) s cs).on ↔ p ∈ s.on ∨
      ∃ pre t post, cs = pre ++ .tick t :: post ∧ Due inside (run (State.step inside) s pre).slots t p := by
  induction cs generalizing s with
  | nil =>
    refine ⟨.inl, ?_⟩
    rintro (hon | ⟨pre, t, post, hcs, -⟩)
    · exact hon
    · exact absurd hcs.symm (List.append_ne_nil_of_right_ne_nil pre (List.cons_ne_nil _ post))
  | cons c cs ih =>
    rw [run_cons, ih h.2, mem_on_step h.1]
    constructor
    · rintro ((hon | ⟨t, rfl, hdue⟩) | ⟨pre, t, post, rfl, hdue⟩)
      · exact .inl hon
      · exact .inr ⟨[], t, cs, rfl, hdue⟩
      · exact .inr ⟨c :: pre, t, post, rfl, hdue⟩
    · rintro (hon | ⟨pre, t, post, hcs, hdue⟩)
      · exact .inl (.inl hon)
      · cases pre with
        | nil =>
          obtain ⟨rfl, -⟩ := List.cons_eq_cons.1 hcs
          exact .inl (.inr ⟨t, rfl, hdue⟩)
        | cons d pre =>
          obtain ⟨rfl, hcs'⟩ := List.cons_eq_cons.1 hcs
          exact .inr ⟨pre, t, post, hcs', hdue⟩

end Step

end Esp8266Rest.Lib.TimedSwitch
