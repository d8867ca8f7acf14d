import Mathlib.Data.List.Basic
import Mathlib.Data.List.Infix

/-!
# Runs of a deterministic machine

A machine is a step function `step : S → E → S`: a state and an event give the next state.  A run
is a list of events, and its end is `run step s es`.

* `Throughout step P s es` — `P` holds in every state of the run, the first one included;
* `Along step ok s es` — every step of the run is taken in a state and with an event that meet `ok`;
* `throughout_iff_along` — when a step keeps `P` exactly if it meets `ok`, the two say the same of a
  whole run;
* `abs_run` — a machine whose steps are runs of a second one, seen through `abs`, refines it;
* `throughout_upTo` — the same up to a relation between the states of the second one.
-/

namespace Esp8266Rest.Lib.Runs

variable {S E T F : Type*}

/-- The state after the events `es`. -/
def run (step : S → E → S) (s : S) (es : List E) : S := es.foldl step s

/-- `P` holds in every state of the run. -/
def Throughout (step : S → E → S) (P : S → Prop) : S → List E → Prop
  | s, [] => P s
  | s, e :: es => P s ∧ Throughout step P (step s e) es

/-- Every step of the run meets `ok`. -/
def Along (step : S → E → S) (ok : S → E → Prop) : S → List E → Prop
  | _, [] => True
  | s, e :: es => ok s e ∧ Along step ok (step s e) es

section Basic

variable (step : S → E → S)

@[simp] theorem run_nil (s : S) : run step s [] = s := rfl

@[simp] theorem run_cons (s : S) (e : E) (es : List E) :
    run step s (e :: es) = run step (step s e) es := rfl

@[simp] theorem run_append (s : S) (es fs : List E) :
    run step s (es ++ fs) = run step (run step s es) fs := List.foldl_append

theorem throughout_iff {P : S → Prop} {s : S} {es : List E} :
    Throughout step P s es ↔ ∀ pre, pre <+: es → P (run step s pre) := by
  induction es generalizing s with
  | nil => simp [Throughout]
  | cons e es ih =>
    rw [Throughout, ih]
    constructor
    · rintro ⟨h, hs⟩ pre hpre
      rcases List.prefix_cons_iff.1 hpre with rfl | ⟨pre', rfl, hpre'⟩
      · exact h
      · exact hs pre' hpre'
    · intro h
      exact ⟨h [] List.nil_prefix, fun pre hpre => h (e :: pre) ((List.prefix_cons_inj e).2 hpre)⟩

theorem Throughout.head {step : S → E → S} {P : S → Prop} {s : S} {es : List E}
    (h : Throughout step P s es) : P s := by
  cases es with
  | nil => exact h
  | cons e es => exact h.1

theorem Throughout.imp {step : S → E → S} {P Q : S → Prop} (hPQ : ∀ s, P s → Q s) {s : S} {es : List E}
    (h : Throughout step P s es) : Throughout step Q s es := by
  rw [throughout_iff] at h ⊢
  exact fun pre hpre => hPQ _ (h pre hpre)

theorem Throughout.along {step : S → E → S} {P : S → Prop} {s : S} {es : List E}
    (h : Throughout step P s es) : Along step (fun s _ => P s) s es := by
  induction es generalizing s with
  | nil => trivial
  | cons e es ih => exact ⟨h.1, ih h.2⟩

theorem throughout_and {P Q : S → Prop} {s : S} {es : List E} :
    Throughout step (fun s => P s ∧ Q s) s es ↔ Throughout step P s es ∧ Throughout step Q s es := by
  rw [throughout_iff, throughout_iff, throughout_iff]
  exact ⟨fun h => ⟨fun pre hpre => (h pre hpre).1, fun pre hpre => (h pre hpre).2⟩,
    fun h pre hpre => ⟨h.1 pre hpre, h.2 pre hpre⟩⟩

theorem along_append {ok : S → E → Prop} {s : S} {es fs : List E} :
    Along step ok s (es ++ fs) ↔ Along step ok s es ∧ Along step ok (run step s es) fs := by
  induction es generalizing s with
  | nil => exact (true_and _).symm ▸ Iff.rfl
  | cons e es ih => rw [List.cons_append, Along, ih, Along, run_cons, and_assoc]

theorem along_event_iff {ok : E → Prop} {s : S} {es : List E} :
    Along step (fun _ e => ok e) s es ↔ ∀ e ∈ es, ok e := by
  induction es generalizing s with
  | nil => simp [Along]
  | cons e es ih => rw [Along, ih, List.forall_mem_cons]

/-! ### Invariants -/

/-- **The invariant rule.**  What the first state satisfies and every step that meets `ok` keeps
holds in every state of a run along `ok`. -/
theorem throughout_of_step {ok : S → E → Prop} {P : S → Prop}
    (hstep : ∀ s e, P s → ok s e → P (step s e)) {s : S} (hs : P s) {es : List E}
    (ha : Along step ok s es) : Throughout step P s es := by
  induction es generalizing s with
  | nil => exact hs
  | cons e es ih => exact ⟨hs, ih (hstep s e hs ha.1) ha.2⟩

/-- The rule for an invariant that every step keeps. -/
theorem run_of_step {P : S → Prop} (hstep : ∀ s e, P s → P (step s e)) {s : S} (hs : P s) (es : List E) :
    P (run step s es) := by
  induction es generalizing s with
  | nil => exact hs
  | cons e es ih => exact ih (hstep s e hs)

/-- **The rule for what steps do.**  If every step that meets `ok` in a state with the invariant does `Q`,
so do all steps of a run along `ok`. -/
theorem along_of_inv {ok Q : S → E → Prop} {I : S → Prop} (hinv : ∀ s e, I s → ok s e → I (step s e))
    (hQ : ∀ s e, I s → ok s e → Q s e) {s : S} (hI : I s) {es : List E} (ha : Along step ok s es) :
    Along step Q s es := by
  induction es generalizing s with
  | nil => trivial
  | cons e es ih => exact ⟨hQ s e hI ha.1, ih (hinv s e hI ha.1) ha.2⟩

lemma run_of_throughout {P : S → Prop} {s : S} {es : List E} (h : Throughout step P s es) :
    P (run step s es) :=
  (throughout_iff step).1 h es (List.prefix_refl es)

/-- What never comes back once it is lost, and holds at the end, was never lost. -/
theorem throughout_of_run {P : S → Prop} (hback : ∀ s e, P (step s e) → P s) {s : S} {es : List E}
    (h : P (run step s es)) : Throughout step P s es := by
  induction es generalizing s with
  | nil => exact h
  | cons e es ih =>
    have key := ih h
    exact ⟨hback s e key.head, key⟩

/-- **The exact rule.**  Let `V` be what the steps of the run are promised to meet, and `I` an invariant
of the steps that meet `ok`.  If such a step leads to a state with `P` exactly when it meets `ok`,
then `P` holds throughout a run exactly when all its steps meet `ok`. -/
theorem throughout_iff_along {V ok : S → E → Prop} {I P : S → Prop}
    (hinv : ∀ s e, I s → V s e → ok s e → I (step s e))
    (hstep : ∀ s e, I s → V s e → (P (step s e) ↔ ok s e)) {s : S} (hI : I s) (hs : P s)
    {es : List E} (hV : Along step V s es) : Throughout step P s es ↔ Along step ok s es := by
  induction es generalizing s with
  | nil => simpa [Throughout, Along] using hs
  | cons e es ih =>
    obtain ⟨hVe, hVes⟩ := hV
    have key := hstep s e hI hVe
    constructor
    · rintro ⟨-, h⟩
      have hP : P (step s e) := h.head
      exact ⟨key.1 hP, (ih (hinv s e hI hVe (key.1 hP)) hP hVes).1 h⟩
    · rintro ⟨h, hes⟩
      have hP : P (step s e) := key.2 h
      exact ⟨hs, (ih (hinv s e hI hVe h) hP hVes).2 hes⟩

end Basic

/-! ### Refinement -/

/-- The events that a run is for a second machine, for which each step is some events. -/
def projected (step : S → E → S) (proj : S → E → List F) : S → List E → List F
  | _, [] => []
  | s, e :: es => proj s e ++ projected step proj (step s e) es

theorem projected_append (step : S → E → S) (proj : S → E → List F) (s : S) (es fs : List E) :
    projected step proj s (es ++ fs) = projected step proj s es ++ projected step proj (run step s es) fs := by
  induction es generalizing s with
  | nil => rfl
  | cons e es ih => rw [List.cons_append, projected, projected, ih, List.append_assoc, run_cons]

section Refinement

variable {step : S → E → S} {step' : T → F → T} {proj : S → E → List F} {abs : S → T}
  {I : S → Prop} (hinv : ∀ s e, I s → I (step s e))
  (hstep : ∀ s e, I s → abs (step s e) = run step' (abs s) (proj s e))
include hinv hstep

/-- **Refinement.**  If each step is what the second machine does in the projected events, so is each
run. -/
theorem abs_run {s : S} (h : I s) (es : List E) :
    abs (run step s es) = run step' (abs s) (projected step proj s es) := by
  induction es generalizing s with
  | nil => rfl
  | cons e es ih => rw [run_cons, ih (hinv s e h), hstep s e h, projected, run_append]

end Refinement

/-- **The rule for a refinement up to `R`**: what the steps of the second machine that meet `ok` keep, and
`R` respects, holds throughout a run of the first whose events for the second meet `ok`. -/
theorem throughout_upTo {step : S → E → S} {step' : T → F → T} {proj : S → E → List F} {abs : S → T}
    {I : S → Prop} {R : T → T → Prop} (hinv : ∀ s e, I s → I (step s e))
    (hstep : ∀ s e, I s → R (run step' (abs s) (proj s e)) (abs (step s e))) {P : T → Prop} {ok : F → Prop}
    (hkeep : ∀ t f, P t → ok f → P (step' t f)) (hR : ∀ t t', R t t' → P t → P t') {s : S} (h : I s)
    (hs : P (abs s)) {es : List E} (hok : ∀ f ∈ projected step proj s es, ok f) :
    Throughout step (fun s => P (abs s)) s es := by
  induction es generalizing s with
  | nil => exact hs
  | cons e es ih =>
    obtain ⟨hhead, hrest⟩ := List.forall_mem_append.1 hok
    have hrun : P (run step' (abs s) (proj s e)) :=
      run_of_throughout step' (throughout_of_step step' hkeep hs ((along_event_iff step').2 hhead))
    exact ⟨hs, ih (hinv s e h) (hR _ _ (hstep s e h) hrun) hrest⟩

/-- **The exact rule for a refinement up to `R`**, for a `P` that never comes back once it is lost: if a step
of the second machine from a state with the invariant `J` leads to `P` exactly when it meets `ok`, then `P`
holds throughout the run of the first exactly when all its events for the second meet `ok`. -/
theorem throughout_upTo_iff {step : S → E → S} {step' : T → F → T} {proj : S → E → List F} {abs : S → T}
    {I : S → Prop} {R : T → T → Prop} (hinv : ∀ s e, I s → I (step s e))
    (hstep : ∀ s e, I s → R (run step' (abs s) (proj s e)) (abs (step s e))) {J P : T → Prop}
    {ok : F → Prop} (hkeep : ∀ t f, J t → ok f → J (step' t f)) (hexact : ∀ t f, J t → (P (step' t f) ↔ ok f))
    (hback : ∀ t f, P (step' t f) → P t) (hJ : ∀ t t', R t t' → J t → J t')
    (hP : ∀ t t', R t t' → (P t' ↔ P t)) {s : S} (h : I s) (hs : J (abs s)) (hPs : P (abs s)) (es : List E) :
    Throughout step (fun s => P (abs s)) s es ↔ ∀ f ∈ projected step proj s es, ok f := by
  induction es generalizing s with
  | nil => exact iff_of_true hPs fun f hf => nomatch hf
  | cons e es ih =>
    have hR := hstep s e h
    have hhead : P (run step' (abs s) (proj s e)) ↔ ∀ f ∈ proj s e, ok f := by
      rw [← along_event_iff step' (s := abs s)]
      rw [← throughout_iff_along step' (V := fun _ _ => True) (I := J) (fun _ _ hJ _ hok => hkeep _ _ hJ hok)
        (fun _ _ hJ _ => hexact _ _ hJ) hs hPs ((along_event_iff step').2 fun _ _ => trivial)]
      exact ⟨throughout_of_run step' hback, run_of_throughout step'⟩
    have hnext : (∀ f ∈ proj s e, ok f) → J (abs (step s e)) := by
      intro hok
      apply hJ _ _ hR
      exact run_of_throughout step' (throughout_of_step step' hkeep hs ((along_event_iff step').2 hok))
    rw [projected, List.forall_mem_append]
    constructor
    · rintro ⟨-, hrest⟩
      have hok := hhead.1 ((hP _ _ hR).1 hrest.head)
      exact ⟨hok, (ih (hinv s e h) (hnext hok) hrest.head).1 hrest⟩
    · rintro ⟨hok, hrest⟩
      have hP' := (hP _ _ hR).2 (hhead.2 hok)
      exact ⟨hPs, (ih (hinv s e h) (hnext hok) hP').2 hrest⟩

end Esp8266Rest.Lib.Runs
