import Mathlib.Data.Set.Basic
import Mathlib.Order.Interval.Set.Defs
import Esp8266Rest.Lib.CStr

/-!
# A byte memory with a record of its accesses

`Memory` is a flat memory that lists the addresses read and written.  `strlen` and `strncpy` are the loops
of the C library on it, and `Touches R W` says of two memories that the second came from the first by reads
in `R` and writes in `W`.
-/

namespace Esp8266Rest.Lib.RawMemory

open Esp8266Rest.Lib.CStr

structure Memory where
  size : ℕ
  byte : ℕ → Byte
  reads : List ℕ
  writes : List ℕ

/-- A read of address `a`; its value is `m.byte a`. -/
def Memory.read (a : ℕ) (m : Memory) : Memory := { m with reads := m.reads ++ [a] }

def Memory.write (a : ℕ) (b : Byte) (m : Memory) : Memory :=
  { m with byte := Function.update m.byte a b, writes := m.writes ++ [a] }

/-- The `n` bytes at `p`. -/
def Memory.slice (p n : ℕ) (m : Memory) : Bytes := (List.range n).map fun i => m.byte (p + i)

@[simp] theorem read_byte (a : ℕ) (m : Memory) : (m.read a).byte = m.byte := rfl

lemma write_byte (a x : ℕ) (b : Byte) (m : Memory) :
    (m.write a b).byte x = if x = a then b else m.byte x := by
  simp [Memory.write, Function.update_apply]

@[simp] theorem length_slice (p n : ℕ) (m : Memory) : (m.slice p n).length = n := by
  simp [Memory.slice]

theorem getElem?_slice (p n k : ℕ) (m : Memory) :
    (m.slice p n)[k]? = if k < n then some (m.byte (p + k)) else none := by
  unfold Memory.slice
  by_cases hk : k < n
  · rw [List.getElem?_map, List.getElem?_range hk, if_pos hk]
    rfl
  · rw [if_neg hk, List.getElem?_eq_none]
    simpa using hk

lemma slice_congr {m m' : Memory} (h : m'.byte = m.byte) (p n : ℕ) : m'.slice p n = m.slice p n := by
  unfold Memory.slice
  rw [h]

theorem slice_write (p i n : ℕ) (b : Byte) (m : Memory) :
    (m.write (p + i) b).slice p n = (m.slice p n).set i b := by
  refine List.ext_getElem? fun k => ?_
  rw [List.getElem?_set, getElem?_slice, getElem?_slice, write_byte, length_slice]
  by_cases hk : k < n
  · by_cases hki : k = i
    · subst hki
      simp [hk]
    · simp [hk, hki, Ne.symm hki]
  · by_cases hki : i = k
    · subst hki
      simp [hk]
    · simp [hk, hki]

/-! ### Accesses -/

/-- `m'` comes from `m` by reads in `R` and writes in `W`. -/
structure Touches (R W : Set ℕ) (m m' : Memory) : Prop where
  size : m'.size = m.size
  reads : ∃ rs, m'.reads = m.reads ++ rs ∧ ∀ a ∈ rs, a ∈ R
  writes : ∃ ws, m'.writes = m.writes ++ ws ∧ ∀ a ∈ ws, a ∈ W
  frame : ∀ a, a ∉ W → m'.byte a = m.byte a

section Touches

variable {R W : Set ℕ} {m m' m'' : Memory}

theorem Touches.refl (m : Memory) : Touches R W m m where
  size := rfl
  reads := ⟨[], by simp⟩
  writes := ⟨[], by simp⟩
  frame _ _ := rfl

theorem Touches.trans (h : Touches R W m m') (h' : Touches R W m' m'') : Touches R W m m'' where
  size := h'.size.trans h.size
  reads := by
    obtain ⟨rs, hrs, hR⟩ := h.reads
    obtain ⟨rs', hrs', hR'⟩ := h'.reads
    refine ⟨rs ++ rs', by rw [hrs', hrs, List.append_assoc], fun a ha => ?_⟩
    exact (List.mem_append.1 ha).elim (hR a) (hR' a)
  writes := by
    obtain ⟨ws, hws, hW⟩ := h.writes
    obtain ⟨ws', hws', hW'⟩ := h'.writes
    refine ⟨ws ++ ws', by rw [hws', hws, List.append_assoc], fun a ha => ?_⟩
    exact (List.mem_append.1 ha).elim (hW a) (hW' a)
  frame a ha := (h'.frame a ha).trans (h.frame a ha)

theorem touches_read {a : ℕ} (ha : a ∈ R) (m : Memory) : Touches R W m (m.read a) where
  size := rfl
  reads := ⟨[a], rfl, by simpa using ha⟩
  writes := ⟨[], by simp [Memory.read]⟩
  frame _ _ := rfl

theorem touches_write {a : ℕ} (ha : a ∈ W) (b : Byte) (m : Memory) : Touches R W m (m.write a b) where
  size := rfl
  reads := ⟨[], by simp [Memory.write]⟩
  writes := ⟨[a], rfl, by simpa using ha⟩
  frame x hx := by
    rw [write_byte, if_neg]
    rintro rfl
    exact hx ha

end Touches

/-! ### Strings -/

/-- The text `t`, without a NUL in it, stands at `p` with its NUL. -/
structure StringAt (m : Memory) (p : ℕ) (t : Bytes) : Prop where
  inside : p + t.length < m.size
  text : m.slice p t.length = t
  nul : m.byte (p + t.length) = 0
  free : (0 : Byte) ∉ t

section StringAt

variable {m : Memory} {p : ℕ} {t : Bytes} (h : StringAt m p t)
include h

theorem StringAt.byte {i : ℕ} (hi : i < t.length) : m.byte (p + i) = t[i] := by
  have key := getElem?_slice p t.length i m
  rw [h.text, if_pos hi, List.getElem?_eq_getElem hi] at key
  exact (Option.some.inj key).symm

lemma StringAt.byte_ne {i : ℕ} (hi : i < t.length) : m.byte (p + i) ≠ 0 := by
  rw [h.byte hi]
  exact fun e => h.free (e ▸ List.getElem_mem hi)

theorem StringAt.byte_eq_zero_iff {i : ℕ} (hi : i ≤ t.length) : m.byte (p + i) = 0 ↔ i = t.length := by
  constructor
  · intro h0
    by_contra hne
    exact h.byte_ne (by omega) h0
  · rintro rfl
    exact h.nul

theorem StringAt.slice {i n : ℕ} (hi : i + n ≤ t.length) : m.slice (p + i) n = (t.drop i).take n := by
  refine List.ext_getElem? fun k => ?_
  rw [getElem?_slice, List.getElem?_take, List.getElem?_drop]
  by_cases hk : k < n
  · have hik : i + k < t.length := by omega
    rw [if_pos hk, if_pos hk, List.getElem?_eq_getElem hik, ← h.byte hik, Nat.add_assoc]
  · rw [if_neg hk, if_neg hk]

end StringAt

/-- The loop of `strlen` at index `i`; `k` is what is left of the memory. -/
def strlenLoop (p : ℕ) : ℕ → ℕ → Memory → ℕ × Memory
  | 0, i, m => (i, m)
  | k + 1, i, m => if m.byte (p + i) = 0 then (i, m.read (p + i)) else strlenLoop p k (i + 1) (m.read (p + i))

def strlen (p : ℕ) (m : Memory) : ℕ × Memory := strlenLoop p (m.size - p) 0 m

/-- **`strlen`** reads the string and its NUL. -/
theorem strlenLoop_spec {p : ℕ} {t : Bytes} {W : Set ℕ} {k i : ℕ} {m : Memory} (h : StringAt m p t)
    (hi : i ≤ t.length) (hk : t.length < i + k) :
    (strlenLoop p k i m).1 = t.length ∧ (strlenLoop p k i m).2.byte = m.byte ∧
      Touches (Set.Icc p (p + t.length)) W m (strlenLoop p k i m).2 := by
  induction k generalizing i m with
  | zero => omega
  | succ k ih =>
    have hmem : p + i ∈ Set.Icc p (p + t.length) := ⟨by omega, by omega⟩
    have hread : Touches (Set.Icc p (p + t.length)) W m (m.read (p + i)) := touches_read hmem m
    rw [strlenLoop]
    by_cases h0 : m.byte (p + i) = 0
    · rw [if_pos h0]
      exact ⟨(h.byte_eq_zero_iff hi).1 h0, rfl, hread⟩
    · have hne : i ≠ t.length := fun e => h0 ((h.byte_eq_zero_iff hi).2 e)
      have hm : StringAt (m.read (p + i)) p t := ⟨h.inside, h.text, h.nul, h.free⟩
      obtain ⟨hlen, hbyte, htouch⟩ := ih (i := i + 1) hm (by omega) (by omega)
      rw [if_neg h0]
      exact ⟨hlen, hbyte, hread.trans htouch⟩

theorem strlen_spec {p : ℕ} {t : Bytes} (W : Set ℕ) {m : Memory} (h : StringAt m p t) :
    (strlen p m).1 = t.length ∧ (strlen p m).2.byte = m.byte ∧
      Touches (Set.Icc p (p + t.length)) W m (strlen p m).2 := by
  have := h.inside
  exact strlenLoop_spec h (Nat.zero_le _) (by omega)

/-! ### Copying -/

/-- `NUL`s at the indices from `i` on. -/
def zeroFill (dst : ℕ) : ℕ → ℕ → Memory → Memory
  | 0, _, m => m
  | k + 1, i, m => zeroFill dst k (i + 1) (m.write (dst + i) 0)

/-- The loop of `strncpy` at index `i`, with `k` bytes left: behind a NUL it does not read on. -/
def strncpyLoop (dst src : ℕ) : ℕ → ℕ → Memory → Memory
  | 0, _, m => m
  | k + 1, i, m =>
    if m.byte (src + i) = 0 then zeroFill dst (k + 1) i (m.read (src + i))
    else strncpyLoop dst src k (i + 1) ((m.read (src + i)).write (dst + i) (m.byte (src + i)))

def strncpy (dst src n : ℕ) (m : Memory) : Memory := strncpyLoop dst src n 0 m

/-- **`strncpy`** of a text without NUL copies it byte by byte. -/
theorem strncpyLoop_spec {dst src n : ℕ} {R W : Set ℕ} {k i : ℕ} {m : Memory} (hn : i + k = n)
    (hfree : ∀ j, j < n → m.byte (src + j) ≠ 0) (hapart : dst + n ≤ src ∨ src + n ≤ dst)
    (hR : ∀ j, j < n → src + j ∈ R) (hW : ∀ j, j < n → dst + j ∈ W) :
    (∀ a, (strncpyLoop dst src k i m).byte a =
      if dst + i ≤ a ∧ a < dst + n then m.byte (src + (a - dst)) else m.byte a) ∧
    Touches R W m (strncpyLoop dst src k i m) := by
  induction k generalizing i m with
  | zero =>
    refine ⟨fun a => ?_, .refl m⟩
    rw [if_neg (by omega)]
    rfl
  | succ k ih =>
    rw [strncpyLoop, if_neg (hfree i (by omega))]
    -- the write does not reach the source
    have hsrc : ∀ j, j < n → ((m.read (src + i)).write (dst + i) (m.byte (src + i))).byte (src + j) =
        m.byte (src + j) := by
      intro j hj
      rw [write_byte, if_neg (by omega)]
      rfl
    obtain ⟨hbyte, htouch⟩ := ih (i := i + 1) (by omega) (fun j hj => by rw [hsrc j hj]; exact hfree j hj)
    refine ⟨fun a => ?_, ((touches_read (hR i (by omega)) m).trans
      (touches_write (hW i (by omega)) _ _)).trans htouch⟩
    rw [hbyte]
    by_cases ha : dst + (i + 1) ≤ a ∧ a < dst + n
    · rw [if_pos ha, if_pos (by omega), hsrc _ (by omega)]
    · rw [if_neg ha, write_byte]
      by_cases hai : a = dst + i
      · subst hai
        rw [if_pos rfl, if_pos (by omega), Nat.add_sub_cancel_left]
      · rw [if_neg hai, if_neg (by omega)]
        rfl

theorem strncpy_spec {dst src n : ℕ} {R W : Set ℕ} {m : Memory}
    (hfree : ∀ j, j < n → m.byte (src + j) ≠ 0) (hapart : dst + n ≤ src ∨ src + n ≤ dst)
    (hR : ∀ j, j < n → src + j ∈ R) (hW : ∀ j, j < n → dst + j ∈ W) :
    (∀ a, (strncpy dst src n m).byte a =
      if dst ≤ a ∧ a < dst + n then m.byte (src + (a - dst)) else m.byte a) ∧
    Touches R W m (strncpy dst src n m) :=
  strncpyLoop_spec (Nat.zero_add n) hfree hapart hR hW

/-- The destination holds the copied bytes and behind them what it held. -/
theorem slice_of_copied {dst src n cap : ℕ} {m m' : Memory} (hn : n ≤ cap)
    (h : ∀ a, m'.byte a = if dst ≤ a ∧ a < dst + n then m.byte (src + (a - dst)) else m.byte a) :
    m'.slice dst cap = m.slice src n ++ (m.slice dst cap).drop n := by
  refine List.ext_getElem? fun k => ?_
  rw [getElem?_slice, h, List.getElem?_append, length_slice, getElem?_slice, List.getElem?_drop,
    getElem?_slice]
  by_cases hk : k < n
  · have hcap : k < cap := by omega
    simp [hk, hcap]
  · by_cases hcap : k < cap
    · have hle : n ≤ k := by omega
      simp [hk, hcap, hle]
    · have hout : ¬ n + (k - n) < cap := by omega
      simp [hk, hcap, hout]

end Esp8266Rest.Lib.RawMemory
