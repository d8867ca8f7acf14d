import Mathlib.Data.List.Basic
import Mathlib.Order.Nat
import Esp8266Rest.Lib.Runs

/-!
# A sector of NOR flash

Erasing a sector sets all its bits; programming a word can only clear bits.  `saveOps` saves data over an
old sector: erase, then program its words in ascending order.  Where the power is lost behind `k` words,
the sector holds so much of the data and is erased behind it (`run_saveOps_take`).
-/

namespace Esp8266Rest.Lib.NorFlash

open Esp8266Rest.Lib.Runs

abbrev Sector := List UInt8

/-- `program` writes a word to the bytes from `offset` on. -/
inductive Op where
  | erase
  | program (offset : ℕ) (word : List UInt8)

def blank (n : ℕ) : Sector := List.replicate n 255

def step (s : Sector) : Op → Sector
  | .erase => blank s.length
  | .program offset word =>
    s.take offset ++ List.zipWith (· &&& ·) (s.drop offset) word ++ s.drop (offset + word.length)

/-- The word `i` of data in words of `w` bytes. -/
def wordAt (w : ℕ) (data : Sector) (i : ℕ) : List UInt8 := (data.drop (w * i)).take w

/-- The operations that save `n` words. -/
def saveOps (w n : ℕ) (data : Sector) : List Op :=
  .erase :: (List.range n).map fun i => .program (w * i) (wordAt w data i)

/-- The first `m` bytes of the data on an erased sector. -/
def torn (data : Sector) (m : ℕ) : Sector := data.take m ++ blank (data.length - m)

@[simp] theorem length_blank (n : ℕ) : (blank n).length = n := List.length_replicate

@[simp] theorem torn_zero (data : Sector) : torn data 0 = blank data.length := by
  simp [torn]

lemma torn_of_le {data : Sector} {m : ℕ} (h : data.length ≤ m) : torn data m = data := by
  simp [torn, blank, List.take_of_length_le h, h]

lemma length_torn (data : Sector) (m : ℕ) : (torn data m).length = data.length := by
  simp only [torn, List.length_append, List.length_take, length_blank]
  omega

theorem zipWith_and_blank (word : List UInt8) {n : ℕ} (h : word.length ≤ n) :
    List.zipWith (· &&& ·) (blank n) word = word := by
  induction word generalizing n with
  | nil => simp
  | cons b word ih =>
    obtain ⟨n, rfl⟩ : ∃ m, n = m + 1 := ⟨n - 1, by simp at h; omega⟩
    have hb : 255 &&& b = b := UInt8.neg_one_and
    have hrep : blank (n + 1) = 255 :: blank n := rfl
    rw [hrep, List.zipWith_cons_cons, hb, ih (by simpa using h)]

theorem step_torn {w i : ℕ} {data : Sector} (h : w * (i + 1) ≤ data.length) :
    step (torn data (w * i)) (.program (w * i) (wordAt w data i)) = torn data (w * (i + 1)) := by
  rw [Nat.mul_succ] at h ⊢
  have htake : (data.take (w * i)).length = w * i := by rw [List.length_take]; omega
  have hword : (wordAt w data i).length = w := by
    rw [wordAt, List.length_take, List.length_drop]; omega
  have hbehind : (torn data (w * i)).drop (w * i + w) = blank (data.length - (w * i + w)) := by
    rw [torn, ← List.drop_drop, List.drop_left' htake, blank, List.drop_replicate, Nat.sub_sub]
    rfl
  have hand : List.zipWith (· &&& ·) ((torn data (w * i)).drop (w * i)) (wordAt w data i) =
      wordAt w data i := by
    rw [torn, List.drop_left' htake]
    exact zipWith_and_blank _ (by omega)
  simp only [step]
  rw [hand, hword, hbehind, torn, List.take_left' htake, torn, List.take_add]
  rfl

/-- **The sector behind `k` words** of a save. -/
theorem run_saveOps_take {w n k : ℕ} {s data : Sector} (hs : s.length = data.length)
    (hdata : data.length = w * n) (hk : k ≤ n) :
    run step s ((saveOps w n data).take (k + 1)) = torn data (w * k) := by
  rw [saveOps, List.take_succ_cons, run_cons, ← List.map_take, List.take_range, Nat.min_eq_left hk]
  have herase : step s .erase = torn data 0 := by
    rw [torn_zero, ← hs]
    rfl
  rw [herase]
  induction k with
  | zero => rfl
  | succ k ih =>
    rw [List.range_succ, List.map_append, run_append, ih (by omega)]
    refine step_torn ?_
    rw [hdata]
    exact Nat.mul_le_mul_left w hk

/-- The same behind any number of operations; all are done where there are no more. -/
theorem run_saveOps {w n : ℕ} {s data : Sector} (hs : s.length = data.length)
    (hdata : data.length = w * n) (k : ℕ) :
    run step s ((saveOps w n data).take (k + 1)) = torn data (w * k) := by
  by_cases hk : k ≤ n
  · exact run_saveOps_take hs hdata hk
  · have hn : n ≤ k := (Nat.lt_of_not_le hk).le
    have hle : w * n ≤ w * k := Nat.mul_le_mul_left w hn
    have htake : (saveOps w n data).take (k + 1) = (saveOps w n data).take (n + 1) := by
      have hlen : (saveOps w n data).length = n + 1 := by simp [saveOps]
      rw [List.take_of_length_le (by omega), List.take_of_length_le hlen.le]
    rw [htake, run_saveOps_take hs hdata le_rfl, torn_of_le hdata.le, torn_of_le (hdata.trans_le hle)]

/-- A torn save leaves these bytes exactly if they begin as the data does and are erased behind. -/
theorem torn_eq_iff {data s : Sector} {m : ℕ} (hs : s.length = data.length) :
    torn data m = s ↔ s.take m = data.take m ∧ ∀ b ∈ s.drop m, b = 255 := by
  have herased : (∀ b ∈ s.drop m, b = 255) ↔ s.drop m = blank (data.length - m) := by
    rw [blank, List.eq_replicate_iff, List.length_drop, hs]
    simp
  have hlen : (data.take m).length = (s.take m).length := by
    rw [List.length_take, List.length_take, hs]
  rw [herased]
  constructor
  · intro h
    rw [torn, ← List.take_append_drop m s] at h
    obtain ⟨h1, h2⟩ := List.append_inj h hlen
    exact ⟨h1.symm, h2.symm⟩
  · rintro ⟨h1, h2⟩
    rw [torn, ← h1, ← h2, List.take_append_drop]

end Esp8266Rest.Lib.NorFlash
