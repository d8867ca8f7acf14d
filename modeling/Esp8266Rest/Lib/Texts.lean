import Mathlib.Data.List.GetD
import Mathlib.Data.List.Range

/-!
# Texts in a memory

A memory gives the byte at every address.  `m.slice p n` are the `n` bytes from `p` on, and
`Placed m p t` says that the text `t` stands there.  A text that is made of parts stands where its parts
stand, one behind the other (`placed_append`).
-/

namespace Esp8266Rest.Lib.Texts

abbrev Mem := ℤ → UInt8

def Mem.slice (m : Mem) (p : ℤ) (n : ℕ) : List UInt8 := (List.range n).map fun i : ℕ => m (p + i)

/-- `t` stands at `p`. -/
def Placed (m : Mem) (p : ℤ) (t : List UInt8) : Prop := m.slice p t.length = t

section Slices

variable {m : Mem} {p : ℤ}

@[simp] theorem length_slice (m : Mem) (p : ℤ) (n : ℕ) : (m.slice p n).length = n := by
  simp [Mem.slice]

theorem slice_add (m : Mem) (p : ℤ) (a b : ℕ) : m.slice p (a + b) = m.slice p a ++ m.slice (p + a) b := by
  unfold Mem.slice
  rw [List.range_add, List.map_append, List.map_map]
  congr 1
  apply List.map_congr_left
  intro i _
  show m (p + (a + i : ℕ)) = m (p + a + i)
  rw [Int.natCast_add, Int.add_assoc]

/-! ### Texts -/

theorem placed_append {t u : List UInt8} :
    Placed m p (t ++ u) ↔ Placed m p t ∧ Placed m (p + t.length) u := by
  unfold Placed
  rw [List.length_append, slice_add]
  constructor
  · intro h
    exact List.append_inj h (length_slice m p t.length)
  · rintro ⟨ht, hu⟩
    rw [ht, hu]

theorem Placed.slice {t : List UInt8} (h : Placed m p t) {k n : ℕ} (hle : k + n ≤ t.length) :
    m.slice (p + k) n = (t.drop k).take n := by
  have hlen : (t.take k).length = k := List.length_take_of_le (by omega)
  rw [← List.take_append_drop k t, placed_append, hlen] at h
  have hdrop := h.2
  rw [← List.take_append_drop n (t.drop k), placed_append] at hdrop
  have htake : ((t.drop k).take n).length = n := List.length_take_of_le (by rw [List.length_drop]; omega)
  have hslice := hdrop.1
  unfold Placed at hslice
  rwa [htake] at hslice

theorem Placed.prefix_slice {t : List UInt8} (h : Placed m p t) {n : ℕ} (hle : t.length ≤ n) :
    t <+: m.slice p n := by
  obtain ⟨k, rfl⟩ := Nat.exists_eq_add_of_le hle
  rw [slice_add]
  unfold Placed at h
  rw [h]
  exact List.prefix_append _ _

/-- A memory with the text at `p`, and zeros elsewhere. -/
def Mem.ofText (p : ℤ) (t : List UInt8) : Mem := fun a => t.getD (a - p).toNat 0

theorem placed_ofText (p : ℤ) (t : List UInt8) : Placed (.ofText p t) p t := by
  unfold Placed Mem.slice Mem.ofText
  apply List.ext_getElem
  · simp
  · intro i h hi
    have hoff : (p + (i : ℤ) - p).toNat = i := by omega
    rw [List.getElem_map, List.getElem_range, hoff, List.getD_eq_getElem _ _ hi]

end Slices

end Esp8266Rest.Lib.Texts
