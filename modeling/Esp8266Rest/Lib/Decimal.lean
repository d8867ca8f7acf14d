import Mathlib.Data.Nat.Digits.Lemmas
import Esp8266Rest.Lib.CStr

/-!
# Decimal numbers

What `%d` prints consists of digits and perhaps a sign, `atoi` reads it back (`atoi_decimal`), and its
length is bounded by the size of the number (`length_decimal_le`).
-/

namespace Esp8266Rest.Lib.CStr

/-! ### Digits -/

def digitByte (d : ℕ) : Byte := (48 + d).toUInt8

lemma digitByte_spec : ∀ d < 10, isDigit (digitByte d) = true ∧ (digitByte d).toNat - 48 = d := by
  decide

lemma decimalNat_of_ne {n : ℕ} (h : n ≠ 0) :
    decimalNat n = (Nat.digits 10 n).reverse.map digitByte := if_neg h

theorem isDigit_of_mem_decimalNat {n : ℕ} {b : Byte} (hb : b ∈ decimalNat n) : isDigit b = true := by
  by_cases h : n = 0
  · subst h
    obtain rfl : b = 48 := by simpa [decimalNat] using hb
    decide
  · rw [decimalNat_of_ne h, List.mem_map] at hb
    obtain ⟨d, hd, rfl⟩ := hb
    exact (digitByte_spec d (Nat.digits_lt_base (by decide) (List.mem_reverse.1 hd))).1

theorem decimalNat_ne_nil (n : ℕ) : decimalNat n ≠ [] := by
  by_cases h : n = 0
  · subst h
    decide
  · rw [decimalNat_of_ne h]
    simpa [Nat.digits_eq_nil_iff_eq_zero] using h

theorem head_decimalNat {n : ℕ} (h : n ≠ 0) : (decimalNat n).head? ≠ some 48 := by
  have hne : Nat.digits 10 n ≠ [] := Nat.digits_ne_nil_iff_ne_zero.2 h
  have hlast := Nat.getLast_digit_ne_zero 10 h
  have hlt : (Nat.digits 10 n).getLast hne < 10 := Nat.digits_lt_base (by decide) (List.getLast_mem hne)
  rw [decimalNat_of_ne h, List.head?_map, List.head?_reverse, List.getLast?_eq_getLast_of_ne_nil hne,
    Option.map_some]
  intro heq
  have hvalue := (digitByte_spec _ hlt).2
  rw [Option.some.inj heq] at hvalue
  exact hlast hvalue.symm

theorem length_decimalNat_le_iff {n k : ℕ} (hk : 0 < k) : (decimalNat n).length ≤ k ↔ n < 10 ^ k := by
  by_cases h : n = 0
  · subst h
    exact iff_of_true hk (by positivity)
  · rw [decimalNat_of_ne h, List.length_map, List.length_reverse, Nat.digits_length_le_iff (by decide)]

/-- The digits of a number, the lowest first, are worth the number. -/
theorem foldr_digits {ds : List ℕ} (h : ∀ d ∈ ds, d < 10) :
    ds.foldr (fun d n => 10 * n + ((digitByte d).toNat - 48)) 0 = Nat.ofDigits 10 ds := by
  induction ds with
  | nil => rfl
  | cons d ds ih =>
    obtain ⟨hd, hds⟩ := List.forall_mem_cons.1 h
    rw [List.foldr_cons, ih hds, (digitByte_spec d hd).2, Nat.ofDigits_cons]
    exact Nat.add_comm _ _

theorem digitsValue_decimalNat (n : ℕ) : digitsValue (decimalNat n) = n := by
  have hall : (decimalNat n).takeWhile isDigit = decimalNat n :=
    List.takeWhile_eq_self_iff.2 fun b hb => isDigit_of_mem_decimalNat hb
  unfold digitsValue
  rw [hall]
  by_cases h : n = 0
  · subst h
    decide
  · rw [decimalNat_of_ne h, List.foldl_map, List.foldl_reverse,
      foldr_digits fun d hd => Nat.digits_lt_base (by decide) hd, Nat.ofDigits_digits]

/-! ### Signed numbers -/

lemma decimal_of_nonneg {n : ℤ} (h : 0 ≤ n) : decimal n = decimalNat n.toNat := by
  have habs : n.natAbs = n.toNat := by omega
  rw [decimal, if_neg (by omega), habs]

lemma decimal_natCast (n : ℕ) : decimal n = decimalNat n := decimal_of_nonneg (Int.natCast_nonneg n)

theorem mem_decimal {n : ℤ} {b : Byte} (hb : b ∈ decimal n) : isDigit b = true ∨ b = 45 := by
  unfold decimal at hb
  split at hb
  · rcases List.mem_cons.1 hb with rfl | hb
    · exact .inr rfl
    · exact .inl (isDigit_of_mem_decimalNat hb)
  · exact .inl (isDigit_of_mem_decimalNat hb)

theorem notMem_decimal {c : Byte} (hd : isDigit c = false) (hs : c ≠ 45) (n : ℤ) : c ∉ decimal n := by
  intro hc
  rcases mem_decimal hc with h | h
  · rw [hd] at h
    cases h
  · exact hs h

theorem decimal_ne_nil (n : ℤ) : decimal n ≠ [] := by
  unfold decimal
  split
  · simp
  · exact decimalNat_ne_nil _

theorem length_decimal_le {n : ℤ} {k : ℕ} (hk : 0 < k) (hlo : -10 ^ k < n) (hhi : n < 10 ^ (k + 1)) :
    (decimal n).length ≤ k + 1 := by
  have hpow : ((10 ^ k : ℕ) : ℤ) = 10 ^ k := by push_cast; rfl
  have hpow' : ((10 ^ (k + 1) : ℕ) : ℤ) = 10 ^ (k + 1) := by push_cast; rfl
  unfold decimal
  split
  · have hlt : n.natAbs < 10 ^ k := by omega
    rw [List.length_cons]
    exact Nat.succ_le_succ ((length_decimalNat_le_iff hk).2 hlt)
  · have hlt : n.natAbs < 10 ^ (k + 1) := by omega
    exact (length_decimalNat_le_iff (Nat.succ_pos k)).2 hlt

theorem length_decimal_int (x : Int32) : (decimal x.toInt).length ≤ 11 := by
  have hlo := x.le_toInt
  have hhi := x.toInt_lt
  exact length_decimal_le (k := 10) (by decide) (by omega) (by omega)

theorem length_decimal_byte (x : UInt8) : (decimal x.toNat).length ≤ 3 := by
  have hlt := x.toNat_lt
  rw [decimal_natCast]
  exact (length_decimalNat_le_iff (by decide)).2 (by omega)

theorem natAbs_lt_of_length {n : ℤ} {k : ℕ} (hk : 0 < k) (h : (decimal n).length ≤ k) :
    n.natAbs < 10 ^ k := by
  unfold decimal at h
  split at h
  · rw [List.length_cons] at h
    exact (length_decimalNat_le_iff hk).1 (by omega)
  · exact (length_decimalNat_le_iff hk).1 h

/-! ### Numerals of a fixed width -/

/-- The text writes the number `n` with `w` digits. -/
structure Numeral (w n : ℕ) (t : Bytes) : Prop where
  length : t.length = w
  digits : ∀ b ∈ t, isDigit b = true
  value : digitsValue t = n

theorem length_padLeft (width : ℕ) (fill : Byte) (t : Bytes) :
    (padLeft width fill t).length = max width t.length := by
  rw [padLeft, List.length_append, List.length_replicate]
  omega

/-- Zeros on the left are worth nothing. -/
theorem numeral_padLeft (w : ℕ) {t : Bytes} (h : ∀ b ∈ t, isDigit b = true) :
    Numeral (max w t.length) (digitsValue t) (padLeft w 48 t) := by
  have hall : ∀ b ∈ padLeft w 48 t, isDigit b = true := by
    intro b hb
    rcases List.mem_append.1 hb with hb | hb
    · rw [List.eq_of_mem_replicate hb]
      decide
    · exact h b hb
  refine ⟨length_padLeft w 48 t, hall, ?_⟩
  unfold digitsValue
  rw [List.takeWhile_eq_self_iff.2 hall, List.takeWhile_eq_self_iff.2 h, padLeft, List.foldl_append]
  congr 1
  induction w - t.length with
  | zero => rfl
  | succ k ih =>
    rw [List.replicate_succ, List.foldl_cons]
    exact ih

lemma numeral_decimal02 (n : ℕ) : Numeral (max 2 (decimalNat n).length) n (decimal02 n) := by
  have key := numeral_padLeft 2 fun b (hb : b ∈ decimalNat n) => isDigit_of_mem_decimalNat hb
  rwa [digitsValue_decimalNat, ← decimal_natCast] at key

theorem numeral_two {n : ℕ} (h : n < 100) : Numeral 2 n (decimal02 n) := by
  have hlen := (length_decimalNat_le_iff (n := n) (k := 2) (by decide)).2 h
  have key := numeral_decimal02 n
  rwa [max_eq_left hlen] at key

theorem numeral_four {n : ℕ} (hlo : 1000 ≤ n) (hhi : n < 10000) : Numeral 4 n (decimal02 n) := by
  have hle := (length_decimalNat_le_iff (n := n) (k := 4) (by decide)).2 hhi
  have hgt := (length_decimalNat_le_iff (n := n) (k := 3) (by decide)).not.2 (Nat.not_lt.2 hlo)
  have hlen : max 2 (decimalNat n).length = 4 := by omega
  have key := numeral_decimal02 n
  rwa [hlen] at key

/-! ### Reading back -/

theorem isSpace_of_isDigit {b : Byte} (h : isDigit b = true) : isSpace b = false := by
  simp only [isDigit, Bool.decide_and, Bool.and_eq_true, decide_eq_true_eq] at h
  simp only [isSpace, Bool.decide_or, Bool.or_eq_false_iff, decide_eq_false_iff_not, not_and]
  obtain ⟨h48, h57⟩ := h
  rw [UInt8.le_iff_toNat_le] at h48
  refine ⟨?_, fun _ h13 => ?_⟩
  · rintro rfl
    exact absurd h48 (by decide)
  · rw [UInt8.le_iff_toNat_le] at h13
    have e48 : (48 : Byte).toNat = 48 := rfl
    have e13 : (13 : Byte).toNat = 13 := rfl
    omega

theorem atoi_of_digits {t : Bytes} (h : ∀ b ∈ t, isDigit b = true) : atoi t = clampInt (digitsValue t) := by
  cases t with
  | nil => rfl
  | cons b t =>
    have hb := h b List.mem_cons_self
    have hdrop : (b :: t).dropWhile isSpace = b :: t := by
      rw [List.dropWhile_cons_of_neg]
      rw [isSpace_of_isDigit hb]
      decide
    unfold atoi
    rw [hdrop]
    split
    · rename_i heq
      obtain ⟨rfl, -⟩ := List.cons.inj heq
      exact absurd hb (by decide)
    · rename_i heq
      obtain ⟨rfl, -⟩ := List.cons.inj heq
      exact absurd hb (by decide)
    · rfl

theorem clampInt_of_le {n : ℤ} (hlo : -2 ^ 31 ≤ n) (hhi : n < 2 ^ 31) : (clampInt n).toInt = n := by
  have hmax : max (-2 ^ 31) (min (2 ^ 31 - 1) n) = n := by omega
  unfold clampInt
  rw [hmax]
  exact Int32.toInt_ofInt_of_le (by omega) (by omega)

/-- **`atoi` reads back what `%d` prints.** -/
theorem atoi_decimal {n : ℤ} (hlo : -2 ^ 31 ≤ n) (hhi : n < 2 ^ 31) : (atoi (decimal n)).toInt = n := by
  by_cases hneg : n < 0
  · have habs : (-(n.natAbs : ℤ)) = n := by omega
    rw [decimal, if_pos hneg]
    change (clampInt (-(digitsValue (decimalNat n.natAbs) : ℤ))).toInt = n
    rw [digitsValue_decimalNat, habs]
    exact clampInt_of_le hlo hhi
  · have habs : ((n.natAbs : ℕ) : ℤ) = n := by omega
    rw [decimal, if_neg hneg, atoi_of_digits fun b hb => isDigit_of_mem_decimalNat hb,
      digitsValue_decimalNat, habs]
    exact clampInt_of_le hlo hhi

end Esp8266Rest.Lib.CStr
