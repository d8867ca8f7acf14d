import Mathlib.Data.List.Basic
import Mathlib.Data.List.Infix
import Mathlib.Data.List.TakeWhile
import Mathlib.Data.Nat.Digits.Defs

/-!
# C strings over byte lists

Memory is a list of bytes, read from a pointer onwards.  `cstr m` is the C string that starts
there: the bytes before the first NUL (a list that ends without one is read to its end).

* `strstr`, `strncpy`, `atoi` — the library functions on C strings, with the text they are given as
  a list without NUL;
* `pieces m sep` — the pieces of the C string at `m` between the separators `sep`;
* `lines t` — the pieces of a text between CRLFs, cut from the left.
-/

namespace Esp8266Rest.Lib.CStr

abbrev Byte := UInt8

abbrev Bytes := List Byte

/-- The bytes of an ASCII literal. -/
def ascii (s : String) : Bytes := s.toList.map fun c => c.toNat.toUInt8

def cr : Byte := 13
def lf : Byte := 10
def space : Byte := 32

def crlf : Bytes := [cr, lf]

/-! ### The string at a pointer -/

def cstr (m : Bytes) : Bytes := m.takeWhile (· ≠ 0)

lemma zero_notMem_cstr (m : Bytes) : (0 : Byte) ∉ cstr m := by
  intro h
  simpa using List.mem_takeWhile_imp h

theorem cstr_eq_self {m : Bytes} (h : (0 : Byte) ∉ m) : cstr m = m := by
  refine List.takeWhile_eq_self_iff.2 fun b hb => ?_
  have : b ≠ 0 := fun e => h (e ▸ hb)
  simpa using this

lemma cstr_idem (m : Bytes) : cstr (cstr m) = cstr m := cstr_eq_self (zero_notMem_cstr m)

@[simp] theorem cstr_nil : cstr [] = [] := rfl

lemma cstr_cons_zero (m : Bytes) : cstr (0 :: m) = [] := rfl

lemma cstr_cons_ne {b : Byte} (h : b ≠ 0) (m : Bytes) : cstr (b :: m) = b :: cstr m := by
  simp [cstr, h]

theorem cstr_append {t : Bytes} (h : (0 : Byte) ∉ t) (m : Bytes) : cstr (t ++ m) = t ++ cstr m :=
  List.takeWhile_append_of_pos fun b hb => by
    have : b ≠ 0 := fun e => h (e ▸ hb)
    simpa using this

lemma cstr_append_zero {t : Bytes} (h : (0 : Byte) ∉ t) (m : Bytes) : cstr (t ++ 0 :: m) = t := by
  rw [cstr_append h, cstr_cons_zero, List.append_nil]

/-- Behind a NUL nothing is read. -/
theorem cstr_append_of_mem {t : Bytes} (h : (0 : Byte) ∈ t) (m : Bytes) : cstr (t ++ m) = cstr t := by
  induction t with
  | nil => simp at h
  | cons b t ih =>
    by_cases hb : b = 0
    · subst hb; rfl
    · have ht : (0 : Byte) ∈ t := by
        rcases List.mem_cons.1 h with e | h
        · exact absurd e.symm hb
        · exact h
      rw [List.cons_append, cstr_cons_ne hb, cstr_cons_ne hb, ih ht]

/-- What begins with a text that holds a NUL is read as that text. -/
theorem cstr_of_prefix {t m : Bytes} (h : (0 : Byte) ∈ t) (hpre : t <+: m) : cstr m = cstr t := by
  obtain ⟨rest, rfl⟩ := hpre
  exact cstr_append_of_mem h rest

theorem cstr_append_cons_zero (t m : Bytes) : cstr (t ++ 0 :: m) = cstr t := by
  by_cases h : (0 : Byte) ∈ t
  · exact cstr_append_of_mem h _
  · rw [cstr_append_zero h, cstr_eq_self h]

lemma cstr_prefix_self (m : Bytes) : cstr m <+: m := List.takeWhile_prefix _

lemma length_cstr_le (m : Bytes) : (cstr m).length ≤ m.length := (cstr_prefix_self m).length_le

theorem cstr_mono {m m' : Bytes} (h : m <+: m') : cstr m <+: cstr m' := by
  obtain ⟨t, rfl⟩ := h
  by_cases h0 : (0 : Byte) ∈ m
  · rw [cstr_append_of_mem h0]
  · rw [cstr_append h0, cstr_eq_self h0]
    exact List.prefix_append _ _

theorem cstr_set (m : Bytes) (k : ℕ) : cstr (m.set k 0) = (cstr m).take k := by
  induction m generalizing k with
  | nil => simp
  | cons b m ih =>
    rcases k with _ | k
    · simp [cstr_cons_zero]
    · by_cases hb : b = 0
      · simp [hb, cstr_cons_zero]
      · simp [cstr_cons_ne hb, ih k]

theorem cstr_drop {m : Bytes} {k : ℕ} (h : k ≤ (cstr m).length) : cstr (m.drop k) = (cstr m).drop k := by
  obtain ⟨t, ht⟩ := cstr_prefix_self m
  have hm : m.drop k = (cstr m).drop k ++ t := by
    rw [← List.drop_append_of_le_length h, ht]
  have hnot : (0 : Byte) ∉ (cstr m).drop k := fun h0 => zero_notMem_cstr m (List.mem_of_mem_drop h0)
  have hself : cstr (cstr m ++ t) = cstr m := by rw [ht]
  rw [cstr_append (zero_notMem_cstr m)] at hself
  have ht0 : cstr t = [] := by simpa using hself
  rw [hm, cstr_append hnot, ht0, List.append_nil]

/-- A text without NUL stands at a pointer exactly if the string there starts with it. -/
theorem prefix_cstr_iff {needle m : Bytes} (h : (0 : Byte) ∉ needle) :
    needle <+: cstr m ↔ needle <+: m := by
  constructor
  · exact fun hp => hp.trans (cstr_prefix_self m)
  · rintro ⟨t, rfl⟩
    rw [cstr_append h]
    exact List.prefix_append _ _

/-! ### Searching -/

/-- `strstr(hay, needle)`, as an offset into `hay`. -/
def strstr : Bytes → Bytes → Option ℕ
  | [], needle => if needle = [] then some 0 else none
  | b :: hay, needle =>
    if needle.isPrefixOf (b :: hay) then some 0 else (strstr hay needle).map (· + 1)

theorem strstr_eq_zero {hay needle : Bytes} (h : needle <+: hay) : strstr hay needle = some 0 := by
  cases hay with
  | nil => simp [strstr, List.prefix_nil.1 h]
  | cons b hay => simp [strstr, List.isPrefixOf_iff_prefix.2 h]

theorem strstr_cons {b : Byte} {hay needle : Bytes} (h : ¬ needle <+: b :: hay) :
    strstr (b :: hay) needle = (strstr hay needle).map (· + 1) := by
  have : ¬ needle.isPrefixOf (b :: hay) = true := fun e => h (List.isPrefixOf_iff_prefix.1 e)
  simp only [strstr, if_neg this]

/-- **What `strstr` finds** is the first place where the needle stands. -/
theorem strstr_eq_some_iff {hay needle : Bytes} {k : ℕ} :
    strstr hay needle = some k ↔
      k ≤ hay.length ∧ needle <+: hay.drop k ∧ ∀ j < k, ¬ needle <+: hay.drop j := by
  induction hay generalizing k with
  | nil =>
    by_cases h : needle = []
    · subst h
      simp only [strstr, if_true, Option.some.injEq, List.length_nil, List.drop_nil, List.nil_prefix,
        not_true_eq_false, imp_false, true_and]
      constructor
      · rintro rfl; exact ⟨le_rfl, by omega⟩
      · rintro ⟨h, -⟩; omega
    · simp [strstr, h]
  | cons b hay ih =>
    by_cases h : needle <+: b :: hay
    · rw [strstr_eq_zero h]
      constructor
      · rintro ⟨⟩
        exact ⟨by omega, h, by omega⟩
      · rintro ⟨-, -, h3⟩
        rcases k with _ | k
        · rfl
        · exact absurd h (h3 0 (by omega))
    · rw [strstr_cons h]
      rcases k with _ | k
      · simp [h]
      · simp only [Option.map_eq_some_iff, Nat.add_right_cancel_iff, exists_eq_right,
          List.length_cons, List.drop_succ_cons, ih]
        refine and_congr (by omega) (and_congr Iff.rfl ⟨fun h3 j hj => ?_, fun h3 j hj => ?_⟩)
        · rcases j with _ | j
          · exact h
          · exact h3 j (by omega)
        · exact h3 (j + 1) (by omega)

theorem strstr_eq_none_iff {hay needle : Bytes} : strstr hay needle = none ↔ ¬ needle <:+: hay := by
  induction hay with
  | nil => by_cases h : needle = [] <;> simp [strstr, h]
  | cons b hay ih =>
    rw [List.infix_cons_iff]
    by_cases h : needle <+: b :: hay
    · simp [strstr_eq_zero h, h]
    · simp [strstr_cons h, h, ih]

theorem strstr_le {hay needle : Bytes} {k : ℕ} (h : strstr hay needle = some k) :
    k + needle.length ≤ hay.length := by
  obtain ⟨hk, hp, -⟩ := strstr_eq_some_iff.1 h
  have := hp.length_le
  rw [List.length_drop] at this
  omega

theorem strstr_append {hay needle : Bytes} {k : ℕ} (h : strstr hay needle = some k) (t : Bytes) :
    strstr (hay ++ t) needle = some k := by
  have hle := strstr_le h
  obtain ⟨hk, hp, hfirst⟩ := strstr_eq_some_iff.1 h
  refine strstr_eq_some_iff.2 ⟨by simp; omega, ?_, fun j hj hpj => hfirst j hj ?_⟩
  · rw [List.drop_append_of_le_length hk]
    exact hp.trans (List.prefix_append _ _)
  · rw [List.drop_append_of_le_length (by omega)] at hpj
    exact List.prefix_of_prefix_length_le hpj (List.prefix_append _ _) (by simp; omega)

/-- A search that starts later, but not too late, finds the same place. -/
theorem strstr_drop {hay needle : Bytes} {k j : ℕ} (h : strstr hay needle = some k) (hj : j ≤ k) :
    strstr (hay.drop j) needle = some (k - j) := by
  obtain ⟨hk, hp, hfirst⟩ := strstr_eq_some_iff.1 h
  refine strstr_eq_some_iff.2 ⟨by simp; omega, ?_, fun i hi hpi => hfirst (j + i) (by omega) ?_⟩
  · rwa [List.drop_drop, Nat.add_sub_cancel' hj]
  · rwa [List.drop_drop] at hpi

/-- What a longer text adds reaches into the addition. -/
theorem lt_of_strstr_append {hay needle t : Bytes} {k : ℕ} (h : strstr hay needle = none)
    (h' : strstr (hay ++ t) needle = some k) : hay.length < k + needle.length := by
  by_contra hlt
  have hk : k ≤ hay.length := by omega
  obtain ⟨-, hp, -⟩ := strstr_eq_some_iff.1 h'
  rw [List.drop_append_of_le_length hk] at hp
  have hp' : needle <+: hay.drop k :=
    List.prefix_of_prefix_length_le hp (List.prefix_append _ _) (by simp; omega)
  exact strstr_eq_none_iff.1 h (hp'.isInfix.trans (List.drop_suffix k hay).isInfix)

lemma take_length_takeWhile (t : Bytes) (p : Byte → Bool) :
    t.take (t.takeWhile p).length = t.takeWhile p :=
  (List.prefix_iff_eq_take.1 (List.takeWhile_prefix p)).symm

theorem length_takeWhile_lt {t : Bytes} {b : Byte} (h : b ∈ t) :
    (t.takeWhile (· ≠ b)).length < t.length := by
  refine lt_of_le_of_ne (List.takeWhile_prefix _).length_le fun hlen => ?_
  have hall := List.takeWhile_eq_self_iff.1 ((List.takeWhile_prefix _).eq_of_length hlen) b h
  simp at hall

theorem strstr_singleton {hay : Bytes} {c : Byte} :
    strstr hay [c] = if c ∈ hay then some (hay.takeWhile (· ≠ c)).length else none := by
  induction hay with
  | nil => simp [strstr]
  | cons b hay ih =>
    by_cases h : b = c
    · subst h
      rw [strstr_eq_zero (by simp)]
      simp
    · rw [strstr_cons (by simpa using fun e => h e.symm), ih]
      have h' : c ≠ b := fun e => h e.symm
      by_cases hc : c ∈ hay <;> simp [h, h', hc]

/-! ### Copying and reading numbers -/

/-- The `n` bytes that `strncpy(dst, src, n)` writes. -/
def strncpy (n : ℕ) (src : Bytes) : Bytes := src.take n ++ List.replicate (n - src.length) 0

def isSpace (b : Byte) : Bool := b = 32 ∨ (9 ≤ b ∧ b ≤ 13)

def isDigit (b : Byte) : Bool := 48 ≤ b ∧ b ≤ 57

/-- The value of the leading digits. -/
def digitsValue (t : Bytes) : ℕ :=
  (t.takeWhile isDigit).foldl (fun n b => 10 * n + (b.toNat - 48)) 0

/-- The nearest value of a C `int`: `strtol` saturates. -/
def clampInt (n : ℤ) : Int32 := Int32.ofInt (max (-2 ^ 31) (min (2 ^ 31 - 1) n))

def atoi (t : Bytes) : Int32 :=
  match t.dropWhile isSpace with
  | 45 :: ds => clampInt (-(digitsValue ds : ℤ))
  | 43 :: ds => clampInt (digitsValue ds)
  | ds => clampInt (digitsValue ds)

/-! ### Printing numbers -/

def decimalNat (n : ℕ) : Bytes :=
  if n = 0 then [48] else (Nat.digits 10 n).reverse.map fun d => (48 + d).toUInt8

/-- `%d` -/
def decimal (n : ℤ) : Bytes := if n < 0 then 45 :: decimalNat n.natAbs else decimalNat n.natAbs

/-- A text brought to a least width with `fill` on its left. -/
def padLeft (width : ℕ) (fill : Byte) (t : Bytes) : Bytes :=
  List.replicate (width - t.length) fill ++ t

/-- `%2d` -/
def decimal2 (n : ℤ) : Bytes := padLeft 2 space (decimal n)

/-- `%02d`; a sign already fills the width. -/
def decimal02 (n : ℤ) : Bytes := padLeft 2 48 (decimal n)

/-! ### Pieces between separators -/

def pieces (m : Bytes) (sep : Byte) : List Bytes := (cstr m).splitOn sep

lemma pieces_ne_nil (m : Bytes) (sep : Byte) : pieces m sep ≠ [] := by
  unfold pieces List.splitOn
  simp

lemma pieces_length_pos (m : Bytes) (sep : Byte) : 0 < (pieces m sep).length :=
  List.length_pos_iff.2 (pieces_ne_nil m sep)

lemma splitOn_cons_self (sep : Byte) (t : Bytes) : (sep :: t).splitOn sep = [] :: t.splitOn sep := by
  simp [List.splitOn, List.splitOnP_cons_eq_if_modifyHead]

lemma splitOn_cons_ne {b sep : Byte} (h : b ≠ sep) (t : Bytes) :
    (b :: t).splitOn sep = (t.splitOn sep).modifyHead (b :: ·) := by
  simp [List.splitOn, List.splitOnP_cons_eq_if_modifyHead, h]

/-- The piece `k`, empty when there are fewer. -/
def piece (m : Bytes) (sep : Byte) (k : ℕ) : Bytes := (pieces m sep).getD k []

/-! ### Lines -/

def lines : Bytes → List Bytes
  | [] => [[]]
  | [b] => [[b]]
  | b :: c :: t => if b = cr ∧ c = lf then [] :: lines t else (lines (c :: t)).modifyHead (b :: ·)

theorem lines_ne_nil (t : Bytes) : lines t ≠ [] := by
  induction t using lines.induct with
  | case1 => simp [lines]
  | case2 => simp [lines]
  | case3 b c t h => simp [lines, h]
  | case4 b c t h ih =>
    rw [lines, if_neg h]
    cases hl : lines (c :: t) with
    | nil => exact absurd hl ih
    | cons l ls => simp

theorem mem_of_mem_lines {t l : Bytes} (hl : l ∈ lines t) {x : Byte} (hx : x ∈ l) : x ∈ t := by
  induction t using lines.induct generalizing l with
  | case1 => simp_all [lines]
  | case2 b => simp_all [lines]
  | case3 b c t h ih =>
    rw [lines, if_pos h] at hl
    rcases List.mem_cons.1 hl with rfl | hl
    · cases hx
    · exact List.mem_cons_of_mem _ (List.mem_cons_of_mem _ (ih hl hx))
  | case4 b c t h ih =>
    obtain ⟨l', ls, hls⟩ : ∃ l' ls, lines (c :: t) = l' :: ls :=
      List.exists_cons_of_ne_nil (lines_ne_nil _)
    rw [lines, if_neg h, hls, List.modifyHead_cons] at hl
    rw [hls] at ih
    rcases List.mem_cons.1 hl with rfl | hl
    · rcases List.mem_cons.1 hx with rfl | hx
      · exact List.mem_cons_self
      · exact List.mem_cons_of_mem _ (ih List.mem_cons_self hx)
    · exact List.mem_cons_of_mem _ (ih (List.mem_cons_of_mem _ hl) hx)

lemma crlf_prefix_iff {b c : Byte} {t : Bytes} : crlf <+: b :: c :: t ↔ b = cr ∧ c = lf := by
  simp only [crlf, List.cons_prefix_cons, List.nil_prefix, and_true]
  exact and_congr eq_comm eq_comm

theorem lines_of_none {t : Bytes} (h : strstr t crlf = none) : lines t = [t] := by
  induction t using lines.induct with
  | case1 => rfl
  | case2 => rfl
  | case3 b c t hbc => rw [strstr_eq_zero (crlf_prefix_iff.2 hbc)] at h; cases h
  | case4 b c t hbc ih =>
    rw [strstr_cons fun e => hbc (crlf_prefix_iff.1 e), Option.map_eq_none_iff] at h
    simp [lines, hbc, ih h]

theorem lines_of_some {t : Bytes} {k : ℕ} (h : strstr t crlf = some k) :
    lines t = t.take k :: lines (t.drop (k + 2)) := by
  induction t using lines.induct generalizing k with
  | case1 => simp [strstr, crlf] at h
  | case2 b => rw [strstr_cons (by simp [crlf])] at h; simp [strstr, crlf] at h
  | case3 b c t hbc =>
    rw [strstr_eq_zero (crlf_prefix_iff.2 hbc)] at h
    cases h
    simp [lines, hbc]
  | case4 b c t hbc ih =>
    rw [strstr_cons fun e => hbc (crlf_prefix_iff.1 e), Option.map_eq_some_iff] at h
    obtain ⟨j, hj, rfl⟩ := h
    simp [lines, hbc, ih hj]

/-- A text with each line ended by a CRLF. -/
def endLines (ls : List Bytes) : Bytes := ls.flatMap (· ++ crlf)

/-- A needle is not found in a text without its first byte. -/
theorem strstr_append_of_notMem {t : Bytes} {c : Byte} (h : c ∉ t) (m needle : Bytes) :
    strstr (t ++ m) (c :: needle) = (strstr m (c :: needle)).map (t.length + ·) := by
  induction t with
  | nil => simp
  | cons b t ih =>
    have hb : c ≠ b := fun e => h (e ▸ List.mem_cons_self)
    have ht : c ∉ t := fun hc => h (List.mem_cons_of_mem _ hc)
    have hp : ¬ c :: needle <+: b :: (t ++ m) := fun hp => hb (List.cons_prefix_cons.1 hp).1
    rw [List.cons_append, strstr_cons hp, ih ht, Option.map_map]
    congr 1
    funext n
    simp only [Function.comp_apply, List.length_cons]
    omega

lemma strstr_append_crlf {t : Bytes} (h : cr ∉ t) (m : Bytes) :
    strstr (t ++ m) crlf = (strstr m crlf).map (t.length + ·) :=
  strstr_append_of_notMem h m [lf]

end Esp8266Rest.Lib.CStr
