import Mathlib.Data.Vector.Defs
import Mathlib.Logic.Equiv.Defs
import Mathlib.Order.Nat

/-!
# Memory layouts of fixed size

A codec lays the values of a type out in a fixed number of bytes, one to one: decoding gives the value
back, and every stretch of bytes of that size is the layout of some value.  Codecs of compound types are
put together from those of their parts, in the order in which they lie in memory.
-/

namespace Esp8266Rest.Lib.Layout

/-- `dec` reads the first `size` bytes. -/
structure Codec (α : Type*) where
  size : ℕ
  enc : α → List UInt8
  dec : List UInt8 → α
  length_enc : ∀ a, (enc a).length = size
  dec_enc : ∀ a rest, dec (enc a ++ rest) = a
  enc_dec : ∀ l, size ≤ l.length → enc (dec l) = l.take size

/-! ### Lists of equal pieces -/

section Pieces

variable {α : Type*} {size : ℕ} {enc : α → List UInt8} (henc : ∀ a, (enc a).length = size)
include henc

theorem length_flatMap_enc (as : List α) : (as.flatMap enc).length = size * as.length := by
  induction as with
  | nil => simp
  | cons a as ih =>
    rw [List.flatMap_cons, List.length_append, henc, ih, List.length_cons, Nat.mul_succ, Nat.add_comm]

theorem drop_flatMap_enc {as : List α} {i : ℕ} (h : i < as.length) :
    (as.flatMap enc).drop (size * i) = enc as[i] ++ (as.drop (i + 1)).flatMap enc := by
  induction as generalizing i with
  | nil => simp at h
  | cons a as ih =>
    rw [List.flatMap_cons]
    cases i with
    | zero => simp
    | succ i =>
      have hle : size * (i + 1) = (enc a).length + size * i := by
        rw [henc, Nat.mul_succ, Nat.add_comm]
      rw [hle, List.drop_length_add_append]
      simpa using ih (by simpa using h)

end Pieces

namespace Codec

variable {α β : Type*}

@[simp] theorem dec_enc_self (c : Codec α) (a : α) : c.dec (c.enc a) = a := by
  simpa using c.dec_enc a []

theorem enc_inj (c : Codec α) {a b : α} : c.enc a = c.enc b ↔ a = b := by
  constructor
  · intro h
    rw [← c.dec_enc_self a, h, c.dec_enc_self]
  · rintro rfl
    rfl

/-- Bytes of the right number are the layout of what they decode to. -/
theorem enc_dec_self (c : Codec α) {l : List UInt8} (h : l.length = c.size) : c.enc (c.dec l) = l := by
  rw [c.enc_dec l h.ge, ← h, List.take_length]

lemma dec_eq_iff (c : Codec α) {l : List UInt8} (h : l.length = c.size) {a : α} :
    c.dec l = a ↔ l = c.enc a := by
  rw [← c.enc_inj, c.enc_dec_self h]

/-! ### The parts -/

def byte : Codec UInt8 where
  size := 1
  enc b := [b]
  dec l := l.headD 0
  length_enc _ := rfl
  dec_enc _ _ := rfl
  enc_dec l h := by
    cases l with
    | nil => simp at h
    | cons b l => simp

/-- A `uint16`, the least significant byte first. -/
def half : Codec UInt16 where
  size := 2
  enc u := [u.toUInt8, (u >>> 8).toUInt8]
  dec l := UInt16.ofNat ((l.getD 0 0).toNat + 256 * (l.getD 1 0).toNat)
  length_enc _ := rfl
  dec_enc u rest := by
    have hu := u.toNat_lt
    rw [← UInt16.toNat_inj]
    simp [Nat.shiftRight_eq_div_pow]
    omega
  enc_dec l h := by
    match l, h with
    | a :: b :: l, _ =>
      have ha := a.toNat_lt
      have hb := b.toNat_lt
      simp only [List.take_succ_cons, List.take_zero, List.cons.injEq, and_true, ← UInt8.toNat_inj]
      simp [Nat.shiftRight_eq_div_pow]
      omega

/-- A `uint32`, the least significant byte first. -/
def word : Codec UInt32 where
  size := 4
  enc u := [u.toUInt8, (u >>> 8).toUInt8, (u >>> 16).toUInt8, (u >>> 24).toUInt8]
  dec l := UInt32.ofNat ((l.getD 0 0).toNat + 256 * (l.getD 1 0).toNat +
    65536 * (l.getD 2 0).toNat + 16777216 * (l.getD 3 0).toNat)
  length_enc _ := rfl
  dec_enc u rest := by
    have hu := u.toNat_lt
    rw [← UInt32.toNat_inj]
    simp [Nat.shiftRight_eq_div_pow]
    omega
  enc_dec l h := by
    match l, h with
    | a :: b :: c :: d :: l, _ =>
      have ha := a.toNat_lt
      have hb := b.toNat_lt
      have hc := c.toNat_lt
      have hd := d.toNat_lt
      simp only [List.take_succ_cons, List.take_zero, List.cons.injEq, and_true, ← UInt8.toNat_inj]
      simp [Nat.shiftRight_eq_div_pow]
      omega

/-- A `uint32` in network order, the most significant byte first. -/
def netWord : Codec UInt32 where
  size := 4
  enc u := [(u >>> 24).toUInt8, (u >>> 16).toUInt8, (u >>> 8).toUInt8, u.toUInt8]
  dec l := UInt32.ofNat ((l.getD 3 0).toNat + 256 * (l.getD 2 0).toNat +
    65536 * (l.getD 1 0).toNat + 16777216 * (l.getD 0 0).toNat)
  length_enc _ := rfl
  dec_enc u rest := by
    have hu := u.toNat_lt
    rw [← UInt32.toNat_inj]
    simp [Nat.shiftRight_eq_div_pow]
    omega
  enc_dec l h := by
    match l, h with
    | a :: b :: c :: d :: l, _ =>
      have ha := a.toNat_lt
      have hb := b.toNat_lt
      have hc := c.toNat_lt
      have hd := d.toNat_lt
      simp only [List.take_succ_cons, List.take_zero, List.cons.injEq, and_true, ← UInt8.toNat_inj]
      simp [Nat.shiftRight_eq_div_pow]
      omega

def prod (c : Codec α) (d : Codec β) : Codec (α × β) where
  size := c.size + d.size
  enc p := c.enc p.1 ++ d.enc p.2
  dec l := (c.dec l, d.dec (l.drop c.size))
  length_enc p := by rw [List.length_append, c.length_enc, d.length_enc]
  dec_enc p rest := by
    have hdrop : (c.enc p.1 ++ (d.enc p.2 ++ rest)).drop c.size = d.enc p.2 ++ rest :=
      List.drop_left' (c.length_enc _)
    rw [List.append_assoc, c.dec_enc, hdrop, d.dec_enc]
  enc_dec l h := by
    rw [c.enc_dec l (by omega), d.enc_dec _ (by rw [List.length_drop]; omega), ← List.take_add]

/-- `n` values one behind the other. -/
def array (n : ℕ) (c : Codec α) : Codec (Vector α n) where
  size := c.size * n
  enc v := v.toList.flatMap c.enc
  dec l := Vector.ofFn fun i => c.dec (l.drop (c.size * i))
  length_enc v := by rw [length_flatMap_enc c.length_enc, Vector.length_toList]
  dec_enc v rest := by
    refine Vector.ext fun i hi => ?_
    have hlen : i < v.toList.length := by rwa [Vector.length_toList]
    have hle : c.size * i ≤ (v.toList.flatMap c.enc).length := by
      rw [length_flatMap_enc c.length_enc]
      exact Nat.mul_le_mul_left _ hlen.le
    rw [Vector.getElem_ofFn, List.drop_append_of_le_length hle, drop_flatMap_enc c.length_enc hlen,
      List.append_assoc, c.dec_enc, Vector.getElem_toList]
  enc_dec l h := by
    have key : ∀ m ≤ n, ((List.range m).map fun i => c.dec (l.drop (c.size * i))).flatMap c.enc =
        l.take (c.size * m) := by
      intro m hm
      induction m with
      | zero => simp
      | succ m ih =>
        have hroom : c.size * (m + 1) ≤ l.length := (Nat.mul_le_mul_left _ hm).trans h
        rw [Nat.mul_succ] at hroom ⊢
        rw [List.range_succ, List.map_append, List.flatMap_append, ih (by omega), List.map_singleton,
          List.flatMap_singleton, c.enc_dec _ (by rw [List.length_drop]; omega), ← List.take_add]
    have hlist : (Vector.ofFn fun i : Fin n => c.dec (l.drop (c.size * i))).toList =
        (List.range n).map fun i => c.dec (l.drop (c.size * i)) := by
      refine List.ext_getElem (by simp) fun i h1 h2 => ?_
      simp
    rw [hlist, key n le_rfl]

/-- The layout of a type whose values are those of another. -/
def map (e : α ≃ β) (c : Codec α) : Codec β where
  size := c.size
  enc b := c.enc (e.symm b)
  dec l := e (c.dec l)
  length_enc _ := c.length_enc _
  dec_enc b rest := by rw [c.dec_enc, e.apply_symm_apply]
  enc_dec l h := by rw [e.symm_apply_apply, c.enc_dec l h]

def int8 : Codec Int8 :=
  byte.map ⟨UInt8.toInt8, Int8.toUInt8, UInt8.toUInt8_toInt8, Int8.toInt8_toUInt8⟩

def int16 : Codec Int16 :=
  half.map ⟨UInt16.toInt16, Int16.toUInt16, UInt16.toUInt16_toInt16, Int16.toInt16_toUInt16⟩

def int32 : Codec Int32 :=
  word.map ⟨UInt32.toInt32, Int32.toUInt32, UInt32.toUInt32_toInt32, Int32.toInt32_toUInt32⟩

end Codec

end Esp8266Rest.Lib.Layout
