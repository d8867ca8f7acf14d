import Esp8266Rest.Lib.Runs

/-!
# A record and its stored copy

A record is worked on in memory and kept in a store that survives a restart.  Every edit writes the record
through to the store.  Loading it back checks the stored copy: a valid one is taken over as `adapt` makes
it, in place of any other a fresh record is made and stored.

`InStep` is what all edits and loads keep (`run_inStep`): the stored copy is valid, and the record is that
copy, adapted or not.  So a load changes nothing but what `adapt` changes (`reload_inStep`), and two runs
with the same edits end alike, whatever loads lie between these (`run_alike`).
-/

namespace Esp8266Rest.Lib.Stored

open Esp8266Rest.Lib.Runs

variable {α : Type*}

/-- The record in memory and in the store. -/
structure Copies (α : Type*) where
  ram : α
  stored : α

/-- How a stored record is taken over. -/
structure Loader (α : Type*) where
  valid : α → Bool
  adapt : α → α
  fresh : α → α
  adapt_valid : ∀ a, valid a = true → valid (adapt a) = true
  adapt_adapt : ∀ a, adapt (adapt a) = adapt a
  fresh_valid : ∀ a, valid (fresh a) = true

/-- `edit f` writes `f` of the record to both places, if `f` gives one. -/
inductive Op (α : Type*) where
  | edit (f : α → Option α)
  | reload

def Op.isEdit : Op α → Bool
  | .edit _ => true
  | .reload => false

namespace Loader

variable (L : Loader α)

def reload (c : Copies α) : Copies α :=
  if L.valid c.stored then ⟨L.adapt c.stored, c.stored⟩ else ⟨L.fresh c.stored, L.fresh c.stored⟩

def step (c : Copies α) : Op α → Copies α
  | .edit f => match f c.ram with
    | some a => ⟨a, a⟩
    | none => c
  | .reload => L.reload c

/-- The operation makes no record invalid. -/
def Keeps : Op α → Prop
  | .edit f => ∀ a b, L.valid a = true → f a = some b → L.valid b = true
  | .reload => True

/-- The stored copy is valid and the record is that copy, adapted or not. -/
structure InStep (c : Copies α) : Prop where
  valid : L.valid c.stored = true
  ram_valid : L.valid c.ram = true
  ram : c.ram = c.stored ∨ c.ram = L.adapt c.stored

variable {L}

/-- **Loading a copy that is in step** adapts the record and leaves the store. -/
theorem reload_inStep {c : Copies α} (h : L.InStep c) : L.reload c = ⟨L.adapt c.ram, c.stored⟩ := by
  unfold reload
  rw [if_pos h.valid]
  rcases h.ram with hr | hr
  · rw [hr]
  · rw [hr, L.adapt_adapt]

theorem inStep_reload (c : Copies α) : L.InStep (L.reload c) := by
  unfold reload
  by_cases hv : L.valid c.stored = true
  · rw [if_pos hv]
    exact ⟨hv, L.adapt_valid _ hv, .inr rfl⟩
  · rw [if_neg hv]
    exact ⟨L.fresh_valid _, L.fresh_valid _, .inl rfl⟩

theorem step_inStep {c : Copies α} (h : L.InStep c) {op : Op α} (hop : L.Keeps op) :
    L.InStep (L.step c op) := by
  cases op with
  | reload => exact inStep_reload c
  | edit f =>
    cases hf : f c.ram with
    | none => simpa only [step, hf] using h
    | some a =>
      have ha : L.valid a = true := hop _ _ h.ram_valid hf
      simp only [step, hf]
      exact ⟨ha, ha, .inl rfl⟩

/-- **Copies stay in step** over any run of operations that keep the record valid. -/
theorem run_inStep {c : Copies α} (h : L.InStep c) {ops : List (Op α)} (hops : ∀ op ∈ ops, L.Keeps op) :
    L.InStep (run L.step c ops) := by
  have hstep : ∀ c op, L.InStep c → L.Keeps op → L.InStep (L.step c op) :=
    fun _ _ h hop => step_inStep h hop
  have hthrough : Throughout L.step L.InStep c ops :=
    throughout_of_step L.step hstep h ((along_event_iff L.step).2 hops)
  exact run_of_throughout L.step hthrough

/-! ### Loads in between -/

/-- The operation does the same to records that `adapt` makes the same. -/
def Respects (L : Loader α) : Op α → Prop
  | .edit f => ∀ a b, L.adapt a = L.adapt b → (f a).map L.adapt = (f b).map L.adapt
  | .reload => True

/-- Both copies are in step, and hold the same up to `adapt`. -/
structure Alike (L : Loader α) (c d : Copies α) : Prop where
  left : L.InStep c
  right : L.InStep d
  ram : L.adapt c.ram = L.adapt d.ram

theorem InStep.adapt_ram {c : Copies α} (h : L.InStep c) : L.adapt c.ram = L.adapt c.stored := by
  rcases h.ram with hr | hr
  · rw [hr]
  · rw [hr, L.adapt_adapt]

lemma Alike.stored {c d : Copies α} (h : L.Alike c d) : L.adapt c.stored = L.adapt d.stored := by
  rw [← h.left.adapt_ram, ← h.right.adapt_ram]
  exact h.ram

lemma Alike.symm {c d : Copies α} (h : L.Alike c d) : L.Alike d c := ⟨h.right, h.left, h.ram.symm⟩

lemma Alike.trans {c d e : Copies α} (h : L.Alike c d) (h' : L.Alike d e) : L.Alike c e :=
  ⟨h.left, h'.right, h.ram.trans h'.ram⟩

/-- A load is not seen. -/
theorem alike_reload {c d : Copies α} (h : L.Alike c d) : L.Alike (L.reload c) d := by
  refine ⟨inStep_reload c, h.right, ?_⟩
  rw [reload_inStep h.left]
  show L.adapt (L.adapt c.ram) = _
  rw [L.adapt_adapt]
  exact h.ram

theorem alike_step {c d : Copies α} (h : L.Alike c d) {op : Op α} (hkeep : L.Keeps op)
    (hop : L.Respects op) : L.Alike (L.step c op) (L.step d op) := by
  refine ⟨step_inStep h.left hkeep, step_inStep h.right hkeep, ?_⟩
  cases op with
  | reload => exact (alike_reload (alike_reload h).symm).symm.ram
  | edit f =>
    have hf := hop _ _ h.ram
    cases hc : f c.ram with
    | none =>
      cases hd : f d.ram with
      | none => simpa only [step, hc, hd] using h.ram
      | some b =>
        rw [hc, hd] at hf
        nomatch hf
    | some a =>
      cases hd : f d.ram with
      | none =>
        rw [hc, hd] at hf
        nomatch hf
      | some b =>
        rw [hc, hd] at hf
        simpa only [step, hc, hd] using Option.some.inj hf

/-- **The loads of a run are not seen**, up to `adapt`. -/
theorem run_edits {c d : Copies α} (h : L.Alike c d) {ops : List (Op α)}
    (hops : ∀ op ∈ ops, L.Keeps op ∧ L.Respects op) :
    L.Alike (run L.step c ops) (run L.step d (ops.filter Op.isEdit)) := by
  induction ops generalizing c d with
  | nil => exact h
  | cons op ops ih =>
    obtain ⟨hkeep, hop⟩ := hops op List.mem_cons_self
    have hrest : ∀ op ∈ ops, L.Keeps op ∧ L.Respects op := fun op h => hops op (List.mem_cons_of_mem _ h)
    cases op with
    | reload => exact ih (alike_reload h) hrest
    | edit f => exact ih (alike_step h hkeep hop) hrest

/-- **Two runs with the same edits** end alike. -/
theorem run_alike {c d : Copies α} (h : L.Alike c d) {ops ops' : List (Op α)}
    (hops : ∀ op ∈ ops, L.Keeps op ∧ L.Respects op) (hops' : ∀ op ∈ ops', L.Keeps op ∧ L.Respects op)
    (hsame : ops.filter Op.isEdit = ops'.filter Op.isEdit) : L.Alike (run L.step c ops) (run L.step d ops') := by
  have hleft := run_edits (d := d) h hops
  have hright := run_edits (d := d) ⟨h.right, h.right, rfl⟩ hops'
  rw [hsame] at hleft
  exact hleft.trans hright.symm

/-! ### What holds of both copies -/

/-- The operation makes of a record with `P` another one with `P`. -/
def Preserves (P : α → Prop) : Op α → Prop
  | .edit f => ∀ a b, P a → f a = some b → P b
  | .reload => True

/-- **What the operation preserves**, and loading does, holds of both copies. -/
theorem step_both {P : α → Prop} (hadapt : ∀ a, P a → P (L.adapt a)) (hfresh : ∀ a, P a → P (L.fresh a))
    {c : Copies α} (hram : P c.ram) (hstored : P c.stored) {op : Op α} (hop : Preserves P op) :
    P (L.step c op).ram ∧ P (L.step c op).stored := by
  cases op with
  | reload =>
    simp only [step, reload]
    split
    · exact ⟨hadapt _ hstored, hstored⟩
    · exact ⟨hfresh _ hstored, hfresh _ hstored⟩
  | edit f =>
    cases hf : f c.ram with
    | none => simpa only [step, hf] using ⟨hram, hstored⟩
    | some a =>
      have ha : P a := hop _ _ hram hf
      simp only [step, hf]
      exact ⟨ha, ha⟩

end Loader

end Esp8266Rest.Lib.Stored
