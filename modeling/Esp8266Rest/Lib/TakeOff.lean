import Esp8266Rest.Lib.Segments

/-!
# A loop that takes off segments

A number is cut up by a loop that takes off one segment after the other while more than the next one is
left.  The loop runs on words modulo `m`, it looks the lengths up in a table that need not end, and
nothing bounds its counter.  `takeOff` runs it and writes down every look-up and every subtraction.

Segments that are long enough together bound all of it (`takeOff_of_le`): the loop ends within them, looks
at no others, and no subtraction goes below zero.
-/

namespace Esp8266Rest.Lib.Segments

/-- What the loop left: its counter and the rest, and what it did on the way. -/
structure TakenOff where
  index : ℕ
  rest : ℕ
  lookups : List ℕ
  subs : List (ℕ × ℕ)
  deriving DecidableEq, Repr

/-- One more turn, in front. -/
def TakenOff.cons (i : ℕ) (sub : ℕ × ℕ) (r : TakenOff) : TakenOff :=
  { r with lookups := i :: r.lookups, subs := sub :: r.subs }

/-- `while (*t > len[i]) { *t -= len[i]; i++; }`, with at most `fuel` tests. -/
def takeOff (m : ℕ) (len : ℕ → ℕ) : ℕ → ℕ → ℕ → Option TakenOff
  | 0, _, _ => none
  | fuel + 1, t, i =>
    if len i < t then (takeOff m len fuel ((t + m - len i) % m) (i + 1)).map (.cons i (t, len i))
    else some ⟨i, t, [i], []⟩

/-- What is fine about a loop that starts with the counter at `a` and `t` left. -/
structure TakenOff.Fine (len : ℕ → ℕ) (a t : ℕ) (r : TakenOff) : Prop where
  reaches : Reaches len a t r.index r.rest
  lookups : ∀ j ∈ r.lookups, a ≤ j ∧ j ≤ r.index
  subs : ∀ s ∈ r.subs, s.2 ≤ s.1

section TakeOff

variable {m : ℕ} {len : ℕ → ℕ} {a t : ℕ}

lemma start_succ_left {k : ℕ} (h : a < k) : start len a k = len a + start len (a + 1) k :=
  Finset.sum_eq_sum_Ico_succ_bot h len

lemma takeOff_stop (h : t ≤ len a) (fuel : ℕ) :
    takeOff m len (fuel + 1) t a = some ⟨a, t, [a], []⟩ := if_neg (Nat.not_lt.2 h)

theorem takeOff_turn (ht : t < m) (h : len a < t) (fuel : ℕ) : takeOff m len (fuel + 1) t a =
    (takeOff m len fuel (t - len a) (a + 1)).map (.cons a (t, len a)) := by
  have hsub : (t + m - len a) % m = t - len a := by
    rw [show t + m - len a = t - len a + m by omega, Nat.add_mod_right, Nat.mod_eq_of_lt (by omega)]
  rw [takeOff, if_pos h, hsub]

theorem le_index_of_takeOff {fuel : ℕ} {r : TakenOff} (h : takeOff m len fuel t a = some r) :
    a ≤ r.index := by
  induction fuel generalizing t a r with
  | zero => cases h
  | succ fuel ih =>
    rw [takeOff] at h
    split at h
    · obtain ⟨r', hr', rfl⟩ := Option.map_eq_some_iff.1 h
      have hle : a + 1 ≤ r'.index := ih hr'
      exact (Nat.le_succ a).trans hle
    · obtain rfl := Option.some.inj h
      exact le_refl a

theorem TakenOff.Fine.cons {r : TakenOff} (h : len a < t) (hr : r.Fine len (a + 1) (t - len a)) :
    (r.cons a (t, len a)).Fine len a t := by
  obtain ⟨⟨hle, hsum, hrest⟩, hlookups, hsubs⟩ := hr
  refine ⟨⟨by dsimp only [TakenOff.cons]; omega, ?_, hrest⟩, ?_, ?_⟩
  · show start len a r.index + r.rest = t
    rw [start_succ_left hle]
    omega
  · intro j hj
    rcases List.mem_cons.1 hj with rfl | hj
    · exact ⟨le_refl j, by dsimp only [TakenOff.cons]; omega⟩
    · have := hlookups j hj
      exact ⟨by omega, this.2⟩
  · intro s hs
    rcases List.mem_cons.1 hs with rfl | hs
    · exact h.le
    · exact hsubs s hs

/-- **The loop stays inside `n` segments** that together are as long as what it starts with: `n` tests are
enough. -/
theorem takeOff_of_le {n : ℕ} (hn : 0 < n) (ht : t < m) (h : t ≤ start len a (a + n)) :
    ∃ r, (∀ fuel, n ≤ fuel → takeOff m len fuel t a = some r) ∧ r.index < a + n ∧ r.Fine len a t := by
  induction n generalizing a t with
  | zero => exact absurd hn (lt_irrefl 0)
  | succ n ih =>
    by_cases hlt : len a < t
    · -- the segments behind the first one are long enough for what is left
      rw [start_succ_left (by omega)] at h
      have hne : 0 < n := by
        rcases Nat.eq_zero_or_pos n with rfl | hpos
        · simp at h
          omega
        · exact hpos
      obtain ⟨r, hr, hindex, hfine⟩ := ih (a := a + 1) (t := t - len a) hne (by omega) (by
        rw [Nat.add_right_comm, Nat.add_assoc]
        omega)
      refine ⟨r.cons a (t, len a), ?_, ?_, hfine.cons hlt⟩
      · intro fuel hfuel
        obtain ⟨fuel, rfl⟩ : ∃ f, fuel = f + 1 := ⟨fuel - 1, by omega⟩
        rw [takeOff_turn ht hlt, hr fuel (by omega)]
        rfl
      · show r.index < a + (n + 1)
        omega
    · refine ⟨⟨a, t, [a], []⟩, ?_, by dsimp only; omega, ?_⟩
      · intro fuel hfuel
        obtain ⟨fuel, rfl⟩ : ∃ f, fuel = f + 1 := ⟨fuel - 1, by omega⟩
        exact takeOff_stop (Nat.not_lt.1 hlt) fuel
      · refine ⟨⟨le_refl a, by simp, Nat.not_lt.1 hlt⟩, ?_, by simp⟩
        intro j hj
        obtain rfl := List.mem_singleton.1 hj
        exact ⟨le_refl j, le_refl j⟩

end TakeOff

end Esp8266Rest.Lib.Segments
