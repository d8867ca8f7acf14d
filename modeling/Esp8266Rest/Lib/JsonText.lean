import Esp8266Rest.Lib.Decimal

/-!
# JSON texts

`decode` reads a text of bytes as a JSON value: blanks may stand around every token, strings have their
escapes taken out, an object is the list of its members in order.

* `Reads p t a` — the parser `p` reads the text `t` as `a`, whatever follows;
* `reads_str`, `reads_num`, `reads_member`, `reads_arr`, `reads_obj` — a text that is put together from
  texts is read as what these are read as;
* `IsJson s` — `s` is UTF-8 and a JSON value;
* `Writes p t a` — `t` is UTF-8 and read as `a`, with the same rules for texts that are put together.
-/

namespace Esp8266Rest.Lib.JsonText

open CStr

inductive Json where
  | null
  | bool (b : Bool)
  | num (text : Bytes)
  | str (text : Bytes)
  | arr (values : List Json)
  | obj (members : List (Bytes × Json))

/-! ### Blanks -/

def isBlank (b : Byte) : Bool := b = 32 ∨ b = 9 ∨ b = 10 ∨ b = 13

def skipBlanks (s : Bytes) : Bytes := s.dropWhile isBlank

/-! ### Strings -/

def hexDigit (b : Byte) : Option ℕ :=
  if 48 ≤ b ∧ b ≤ 57 then some (b.toNat - 48)
  else if 65 ≤ b ∧ b ≤ 70 then some (b.toNat - 55)
  else if 97 ≤ b ∧ b ≤ 102 then some (b.toNat - 87)
  else none

/-- What a letter behind a backslash stands for. -/
def escape (b : Byte) : Option Byte :=
  [(34, 34), (92, 92), (47, 47), (98, 8), (102, 12), (110, 10), (114, 13), (116, 9)].lookup b

/-- The encoding of a code point; the replacement character for half a surrogate pair. -/
def charText (n : ℕ) : Bytes := String.utf8EncodeChar (Char.ofNat (if n.isValidChar then n else 0xFFFD))

/-- A first half that no second half follows. -/
def flush (high : Option ℕ) : Bytes := if high.isSome then charText 0xFFFD else []

/-- The text of a code unit behind a first half, if any, and the first half that it is itself. -/
def addUnit (high : Option ℕ) (u : ℕ) : Bytes × Option ℕ :=
  if 0xD800 ≤ u ∧ u < 0xDC00 then (flush high, some u)
  else
    match high with
    | some h =>
      if 0xDC00 ≤ u ∧ u < 0xE000 then (charText (0x10000 + (h - 0xD800) * 0x400 + (u - 0xDC00)), none)
      else (flush high ++ charText u, none)
    | none => (charText u, none)

def prepend (t : Bytes) (r : Option (Bytes × Bytes)) : Option (Bytes × Bytes) :=
  r.map fun r => (t ++ r.1, r.2)

/-- Where a scan stands within a string: in its text, behind a backslash, or within the four digits of a
code unit.  `high` is the first half of a surrogate pair that stands before it, if any. -/
inductive StringState where
  | text (high : Option ℕ)
  | escaped (high : Option ℕ)
  | unit (high : Option ℕ) (left u : ℕ)

/-- A byte of a string: the text it completes, and where the scan goes on unless the string ends. -/
def stringStep : StringState → Byte → Option (Bytes × Option StringState)
  | .text high, b =>
    if b = 34 then some (flush high, none)
    else if b = 92 then some ([], some (.escaped high))
    else if b < 32 then none
    else some (flush high ++ [b], some (.text none))
  | .escaped high, b =>
    if b = 117 then some ([], some (.unit high 3 0))
    else (escape b).map fun x => (flush high ++ [x], some (.text none))
  | .unit high (left + 1) u, b => (hexDigit b).map fun d => ([], some (.unit high left (u * 16 + d)))
  | .unit high 0 u, b => (hexDigit b).map fun d =>
    ((addUnit high (u * 16 + d)).1, some (.text (addUnit high (u * 16 + d)).2))

/-- What is left of a string, and what follows its closing quote. -/
def stringRest : StringState → Bytes → Option (Bytes × Bytes)
  | _, [] => none
  | st, b :: s =>
    match stringStep st b with
    | some (t, some st) => prepend t (stringRest st s)
    | some (t, none) => some (t, s)
    | none => none

/-! ### Numbers -/

/-- Digits, at least one. -/
def digits (s : Bytes) : Option (Bytes × Bytes) :=
  if s.takeWhile isDigit = [] then none else some (s.takeWhile isDigit, s.dropWhile isDigit)

/-- No digit follows a leading zero. -/
def intPart : Bytes → Option (Bytes × Bytes)
  | 48 :: s => some ([48], s)
  | s => digits s

def fracPart : Bytes → Option (Bytes × Bytes)
  | 46 :: s => prepend [46] (digits s)
  | s => some ([], s)

def signedDigits : Bytes → Option (Bytes × Bytes)
  | 43 :: s => prepend [43] (digits s)
  | 45 :: s => prepend [45] (digits s)
  | s => digits s

def expPart : Bytes → Option (Bytes × Bytes)
  | 101 :: s => prepend [101] (signedDigits s)
  | 69 :: s => prepend [69] (signedDigits s)
  | s => some ([], s)

def unsigned (s : Bytes) : Option (Bytes × Bytes) := do
  let (i, s) ← intPart s
  let (f, s) ← fracPart s
  let (e, s) ← expPart s
  return (i ++ f ++ e, s)

def numberText : Bytes → Option (Bytes × Bytes)
  | 45 :: s => prepend [45] (unsigned s)
  | s => unsigned s

/-! ### Values -/

def literal : Bytes → Option (Json × Bytes)
  | 110 :: 117 :: 108 :: 108 :: s => some (.null, s)
  | 116 :: 114 :: 117 :: 101 :: s => some (.bool true, s)
  | 102 :: 97 :: 108 :: 115 :: 101 :: s => some (.bool false, s)
  | s => (numberText s).map fun r => (.num r.1, r.2)

section Items

variable {α : Type*}

/-- At least one item, with commas between them, up to the closing bracket; at most `k`. -/
def list (item : Bytes → Option (α × Bytes)) (close : Byte) : ℕ → Bytes → Option (List α × Bytes)
  | 0, _ => none
  | k + 1, s =>
    match item s with
    | some (a, b :: s) =>
      if b = 44 then (list item close k s).map fun r => (a :: r.1, r.2)
      else if b = close then some ([a], skipBlanks s)
      else none
    | _ => none

def items (item : Bytes → Option (α × Bytes)) (close : Byte) (k : ℕ) (s : Bytes) :
    Option (List α × Bytes) :=
  match skipBlanks s with
  | b :: s' => if b = close then some ([], skipBlanks s') else list item close k s
  | [] => none

end Items

/-- A member of an object, with a parser for its value. -/
def member (value : Bytes → Option (Json × Bytes)) (s : Bytes) : Option ((Bytes × Json) × Bytes) :=
  match skipBlanks s with
  | 34 :: s =>
    match stringRest (.text none) s with
    | some (key, s) =>
      match skipBlanks s with
      | 58 :: s => (value s).map fun r => ((key, r.1), r.2)
      | _ => none
    | none => none
  | _ => none

/-- A value and the blanks behind it, nested at most `n` deep. -/
def value : ℕ → Bytes → Option (Json × Bytes)
  | 0, _ => none
  | n + 1, s =>
    match skipBlanks s with
    | 123 :: s => (items (member (value n)) 125 n s).map fun r => (.obj r.1, r.2)
    | 91 :: s => (items (value n) 93 n s).map fun r => (.arr r.1, r.2)
    | 34 :: s => (stringRest (.text none) s).map fun r => (.str r.1, skipBlanks r.2)
    | s => (literal s).map fun r => (r.1, skipBlanks r.2)

/-- The value of a text.  No text is nested deeper than it is long. -/
def decode (s : Bytes) : Option Json :=
  match value (s.length + 1) s with
  | some (v, []) => some v
  | _ => none

/-- The text is an encoding of characters. -/
def IsUtf8 (s : Bytes) : Prop := ∃ cs : List Char, s = cs.flatMap String.utf8EncodeChar

structure IsJson (s : Bytes) : Prop where
  utf8 : IsUtf8 s
  decodes : (decode s).isSome

/-! ### Blanks and what may follow -/

@[simp] theorem skipBlanks_nil : skipBlanks [] = [] := rfl

theorem skipBlanks_of_not {b : Byte} (h : isBlank b = false) (s : Bytes) : skipBlanks (b :: s) = b :: s := by
  rw [skipBlanks, List.dropWhile_cons_of_neg]
  rw [h]
  decide

lemma skipBlanks_of_blank {b : Byte} (h : isBlank b = true) (s : Bytes) :
    skipBlanks (b :: s) = skipBlanks s := List.dropWhile_cons_of_pos h

theorem isBlank_of_isDigit {b : Byte} (h : isDigit b = true) : isBlank b = false := by
  cases hb : isBlank b with
  | false => rfl
  | true =>
    simp only [isBlank, Bool.decide_or, Bool.or_eq_true, decide_eq_true_eq] at hb
    rcases hb with rfl | rfl | rfl | rfl <;> exact absurd h (by decide)

/-- The text can end a number. -/
def Delim (s : Bytes) : Prop := ∀ b ∈ s.head?, isDigit b = false ∧ b ≠ 46 ∧ b ≠ 101 ∧ b ≠ 69

lemma delim_nil : Delim [] := nofun

theorem delim_cons {b : Byte} (h : isDigit b = false ∧ b ≠ 46 ∧ b ≠ 101 ∧ b ≠ 69) (s : Bytes) :
    Delim (b :: s) := by
  intro c hc
  obtain rfl : b = c := by simpa using hc
  exact h

section Reads

variable {α : Type*} {p : ℕ → Bytes → Option (α × Bytes)} {t : Bytes} {a : α}

/-- The parser `p` reads `t` as `a` and then the blanks behind it. -/
def Reads (p : ℕ → Bytes → Option (α × Bytes)) (t : Bytes) (a : α) : Prop :=
  ∀ n rest, t.length < n → Delim rest → p n (t ++ rest) = some (a, skipBlanks rest)

theorem Reads.blank_cons (h : Reads p t a) (hp : ∀ n s, p n (32 :: s) = p n s) : Reads p (32 :: t) a := by
  intro n rest hn hrest
  rw [List.cons_append, hp]
  exact h n rest (Nat.lt_of_succ_lt hn) hrest

theorem Reads.append_blank (h : Reads p t a) : Reads p (t ++ [32]) a := by
  intro n rest hn hrest
  rw [List.length_append, List.length_singleton] at hn
  rw [List.append_assoc, List.singleton_append, h n _ (Nat.lt_of_succ_lt hn) (delim_cons (by decide) rest),
    skipBlanks_of_blank (by decide)]

end Reads

theorem value_blank (n : ℕ) (s : Bytes) : value n (32 :: s) = value n s := by
  cases n with
  | zero => rfl
  | succ n => simp only [value, skipBlanks_of_blank (show isBlank 32 = true by decide)]

lemma member_blank (f : Bytes → Option (Json × Bytes)) (s : Bytes) : member f (32 :: s) = member f s := by
  simp only [member, skipBlanks_of_blank (show isBlank 32 = true by decide)]

/-- **A text that is read as a value** decodes to it. -/
theorem Reads.decode {t : Bytes} {v : Json} (h : Reads value t v) : decode t = some v := by
  have key := h (t.length + 1) [] (Nat.lt_succ_self _) delim_nil
  rw [List.append_nil, skipBlanks_nil] at key
  rw [JsonText.decode, key]

example : (decode (ascii "[1, -2.5e3, \"a\\n\\u00e9\", null] ")).isSome = true := by decide

example : (decode (ascii "[1, ]")).isSome = false := by decide

/-! ### Strings and numbers -/

/-- A text without control characters, quotes and backslashes. -/
def Plain (t : Bytes) : Prop := ∀ b ∈ t, ¬ b < 32 ∧ b ≠ 34 ∧ b ≠ 92

lemma plain_append {t u : Bytes} : Plain (t ++ u) ↔ Plain t ∧ Plain u := List.forall_mem_append

theorem stringStep_plain {b : Byte} (h : ¬ b < 32 ∧ b ≠ 34 ∧ b ≠ 92) :
    stringStep (.text none) b = some ([b], some (.text none)) := by
  obtain ⟨hctl, hquote, hslash⟩ := h
  rw [stringStep, if_neg hquote, if_neg hslash, if_neg hctl]
  rfl

theorem stringRest_plain {t : Bytes} (h : Plain t) (rest : Bytes) :
    stringRest (.text none) (t ++ 34 :: rest) = some (t, rest) := by
  induction t with
  | nil => rfl
  | cons b t ih =>
    obtain ⟨hb, ht⟩ := List.forall_mem_cons.1 h
    simp only [List.cons_append, stringRest, stringStep_plain hb, ih ht]
    rfl

/-- **A plain text between quotes** is read as itself. -/
theorem reads_str {t : Bytes} (h : Plain t) : Reads value (34 :: (t ++ [34])) (.str t) := by
  intro n rest hn _
  obtain ⟨n, rfl⟩ := Nat.exists_eq_add_of_lt hn
  have hskip : skipBlanks (34 :: (t ++ [34]) ++ rest) = 34 :: (t ++ 34 :: rest) := by
    rw [List.cons_append, List.append_assoc, List.singleton_append]
    exact skipBlanks_of_not (by decide) _
  simp only [value, hskip, stringRest_plain h, Option.map_some]

theorem takeWhile_digits {ds rest : Bytes} (h : ∀ b ∈ ds, isDigit b = true) (hrest : Delim rest) :
    (ds ++ rest).takeWhile isDigit = ds ∧ (ds ++ rest).dropWhile isDigit = rest := by
  have hnone : rest.takeWhile isDigit = [] ∧ rest.dropWhile isDigit = rest := by
    cases rest with
    | nil => exact ⟨rfl, rfl⟩
    | cons b rest =>
      have hb : ¬ isDigit b = true := by
        rw [(hrest b rfl).1]
        decide
      exact ⟨List.takeWhile_cons_of_neg hb, List.dropWhile_cons_of_neg hb⟩
  rw [List.takeWhile_append_of_pos h, List.dropWhile_append_of_pos h, hnone.1, hnone.2, List.append_nil]
  exact ⟨rfl, rfl⟩

theorem digits_of_delim {ds rest : Bytes} (hne : ds ≠ []) (h : ∀ b ∈ ds, isDigit b = true)
    (hrest : Delim rest) : digits (ds ++ rest) = some (ds, rest) := by
  obtain ⟨htake, hdrop⟩ := takeWhile_digits h hrest
  rw [digits, htake, hdrop, if_neg hne]

theorem intPart_decimalNat (n : ℕ) {rest : Bytes} (hrest : Delim rest) :
    intPart (decimalNat n ++ rest) = some (decimalNat n, rest) := by
  by_cases hn : n = 0
  · subst hn
    rfl
  · have key := digits_of_delim (decimalNat_ne_nil n) (fun b hb => isDigit_of_mem_decimalNat hb) hrest
    unfold intPart
    split
    · rename_i s heq
      -- the number does not start with a zero
      have hhead := congrArg List.head? heq
      rw [List.head?_append_of_ne_nil _ (decimalNat_ne_nil n), List.head?_cons] at hhead
      exact absurd hhead (head_decimalNat hn)
    · exact key

/-- Neither a fraction nor an exponent follows. -/
theorem fracPart_of_delim {s : Bytes} (h : Delim s) : fracPart s = some ([], s) := by
  unfold fracPart
  split
  · exact absurd rfl (h 46 rfl).2.1
  · rfl

theorem expPart_of_delim {s : Bytes} (h : Delim s) : expPart s = some ([], s) := by
  unfold expPart
  split
  · exact absurd rfl (h 101 rfl).2.2.1
  · exact absurd rfl (h 69 rfl).2.2.2
  · rfl

lemma unsigned_decimalNat (n : ℕ) {rest : Bytes} (hrest : Delim rest) :
    unsigned (decimalNat n ++ rest) = some (decimalNat n, rest) := by
  simp [unsigned, intPart_decimalNat n hrest, fracPart_of_delim hrest, expPart_of_delim hrest]

theorem numberText_decimal (n : ℤ) {rest : Bytes} (hrest : Delim rest) :
    numberText (decimal n ++ rest) = some (decimal n, rest) := by
  have key := unsigned_decimalNat n.natAbs hrest
  unfold decimal
  split
  · rw [List.cons_append, numberText, key]
    rfl
  · unfold numberText
    split
    · rename_i s heq
      -- a digit is no sign
      have hmem : (45 : Byte) ∈ decimalNat n.natAbs := by
        have hhead := congrArg List.head? heq
        rw [List.head?_append_of_ne_nil _ (decimalNat_ne_nil _), List.head?_cons] at hhead
        exact List.mem_of_mem_head? hhead
      exact absurd (isDigit_of_mem_decimalNat hmem) (by decide)
    · exact key

theorem start_decimal {n : ℤ} {rest s : Bytes} {b : Byte} (h : decimal n ++ rest = b :: s) :
    isDigit b = true ∨ b = 45 := by
  have hhead := congrArg List.head? h
  rw [List.head?_append_of_ne_nil _ (decimal_ne_nil n), List.head?_cons] at hhead
  exact mem_decimal (List.mem_of_mem_head? hhead)

theorem literal_decimal (n : ℤ) {rest : Bytes} (hrest : Delim rest) :
    literal (decimal n ++ rest) = some (.num (decimal n), rest) := by
  unfold literal
  split
  · rename_i heq
    exact absurd (start_decimal heq) (by decide)
  · rename_i heq
    exact absurd (start_decimal heq) (by decide)
  · rename_i heq
    exact absurd (start_decimal heq) (by decide)
  · rw [numberText_decimal n hrest, Option.map_some]

/-- **A decimal number** is read as itself. -/
theorem reads_num (n : ℤ) : Reads value (decimal n) (.num (decimal n)) := by
  intro k rest hk hrest
  obtain ⟨k, rfl⟩ := Nat.exists_eq_add_of_lt hk
  have hskip : skipBlanks (decimal n ++ rest) = decimal n ++ rest := by
    obtain ⟨b, s, hb⟩ := List.exists_cons_of_ne_nil (List.append_ne_nil_of_left_ne_nil (decimal_ne_nil n) rest)
    have hblank : isBlank b = false := by
      rcases start_decimal hb with h | rfl
      · exact isBlank_of_isDigit h
      · decide
    rw [hb, skipBlanks_of_not hblank]
  rw [value, hskip]
  split
  · rename_i heq
    exact absurd (start_decimal heq) (by decide)
  · rename_i heq
    exact absurd (start_decimal heq) (by decide)
  · rename_i heq
    exact absurd (start_decimal heq) (by decide)
  · rw [literal_decimal n hrest, Option.map_some]

/-! ### Items -/

section Items

variable {α : Type*} {p : ℕ → Bytes → Option (α × Bytes)} {close : Byte}

theorem length_le_intercalate {t : Bytes} {ts : List Bytes} (h : t ∈ ts) :
    t.length ≤ ([44].intercalate ts).length := by
  induction ts with
  | nil => cases h
  | cons u ts ih =>
    by_cases hts : ts = []
    · subst hts
      obtain rfl := List.mem_singleton.1 h
      simp
    · rw [List.intercalate_cons_of_ne_nil hts, List.length_append, List.length_append]
      rcases List.mem_cons.1 h with rfl | h
      · omega
      · have := ih h
        omega

theorem length_list_le_intercalate (ts : List Bytes) : ts.length ≤ ([44].intercalate ts).length + 1 := by
  induction ts with
  | nil => exact Nat.zero_le _
  | cons u ts ih =>
    by_cases hts : ts = []
    · subst hts
      exact Nat.le_add_left _ _
    · rw [List.intercalate_cons_of_ne_nil hts, List.length_append, List.length_append, List.length_cons,
        List.length_singleton]
      omega

theorem list_reads (hclose : close = 93 ∨ close = 125) {n : ℕ} (rest : Bytes) {ts : List Bytes} {as : List α}
    (h : List.Forall₂ (Reads p) ts as) : ∀ {k : ℕ}, ts ≠ [] → (∀ t ∈ ts, t.length < n) → ts.length ≤ k →
      list (p n) close k ([44].intercalate ts ++ close :: rest) = some (as, skipBlanks rest) := by
  have hnot : isBlank close = false ∧ close ≠ 44 ∧ isDigit close = false ∧ close ≠ 46 ∧ close ≠ 101 ∧
      close ≠ 69 := by
    rcases hclose with rfl | rfl <;> decide
  obtain ⟨hblank, hcomma, hdelim⟩ := hnot
  induction h with
  | nil => exact fun hne => absurd rfl hne
  | @cons t a ts as ht hts ih =>
    intro k _ hlen hk
    obtain ⟨hlt, hlens⟩ := List.forall_mem_cons.1 hlen
    obtain ⟨k, rfl⟩ : ∃ k', k = k' + 1 := ⟨k - 1, by rw [List.length_cons] at hk; omega⟩
    rw [List.length_cons, Nat.succ_le_succ_iff] at hk
    by_cases hnil : ts = []
    · subst hnil
      cases hts
      have hread := ht n (close :: rest) hlt (delim_cons hdelim rest)
      rw [skipBlanks_of_not hblank] at hread
      simp only [List.intercalate_singleton, list, hread, if_neg hcomma, if_true]
    · have hread := ht n (44 :: ([44].intercalate ts ++ close :: rest)) hlt (delim_cons (by decide) _)
      rw [skipBlanks_of_not (by decide)] at hread
      rw [List.intercalate_cons_of_ne_nil hnil, List.append_assoc, List.append_assoc, List.singleton_append]
      simp only [list, hread, if_true, ih hnil hlens hk, Option.map_some]

theorem list_none {item : Bytes → Option (α × Bytes)} {s : Bytes} (h : item s = none) (k : ℕ) :
    list item close k s = none := by
  cases k with
  | zero => rfl
  | succ k => simp only [list, h]

/-- **Items between brackets** are read one by one, if none of them starts with the closing one. -/
theorem items_reads (hclose : close = 93 ∨ close = 125)
    (hp : ∀ n s, (∀ b ∈ (skipBlanks s).head?, b = close) → p n s = none) {ts : List Bytes} {as : List α}
    (h : List.Forall₂ (Reads p) ts as) {n : ℕ} (hn : ([44].intercalate ts).length + 1 < n) (rest : Bytes) :
    items (p n) close n ([44].intercalate ts ++ close :: rest) = some (as, skipBlanks rest) := by
  have hblank : isBlank close = false := by
    rcases hclose with rfl | rfl <;> decide
  by_cases hnil : ts = []
  · subst hnil
    cases h
    simp only [List.intercalate_nil, List.nil_append, items, skipBlanks_of_not hblank, if_true]
  · have hlens : ∀ t ∈ ts, t.length < n := fun t ht => by
      have := length_le_intercalate ht
      omega
    have hcount : ts.length ≤ n := by
      have := length_list_le_intercalate ts
      omega
    have key := list_reads hclose rest h hnil hlens hcount
    generalize [44].intercalate ts ++ close :: rest = s at key
    unfold items
    split
    · rename_i b s' hskip
      have hb : b ≠ close := by
        rintro rfl
        rw [list_none (hp n s fun c hc => by rw [hskip] at hc; simpa using hc.symm)] at key
        cases key
      rw [if_neg hb, key]
    · rename_i hskip
      rw [list_none (hp n s fun c hc => by rw [hskip] at hc; cases hc)] at key
      cases key

end Items

/-! ### Arrays and objects -/

theorem value_close (n : ℕ) (s : Bytes) (h : ∀ b ∈ (skipBlanks s).head?, b = 93) : value n s = none := by
  cases n with
  | zero => rfl
  | succ n =>
    rw [value]
    generalize skipBlanks s = s' at h
    cases s' with
    | nil => rfl
    | cons b s' =>
      obtain rfl := h b rfl
      rfl

theorem member_close (n : ℕ) (s : Bytes) (h : ∀ b ∈ (skipBlanks s).head?, b = 125) :
    member (value n) s = none := by
  unfold member
  generalize skipBlanks s = s' at h
  cases s' with
  | nil => rfl
  | cons b s' =>
    obtain rfl := h b rfl
    rfl

/-- **Values between square brackets** are read as an array. -/
theorem reads_arr {ts : List Bytes} {vs : List Json} (h : List.Forall₂ (Reads value) ts vs) :
    Reads value (91 :: ([44].intercalate ts ++ [93])) (.arr vs) := by
  intro n rest hn _
  obtain ⟨n, rfl⟩ := Nat.exists_eq_add_one_of_ne_zero (Nat.ne_zero_of_lt hn)
  have hlen : ([44].intercalate ts).length + 1 < n := by
    rw [List.length_cons, List.length_append, List.length_singleton] at hn
    omega
  have hskip : skipBlanks (91 :: ([44].intercalate ts ++ [93]) ++ rest) =
      91 :: ([44].intercalate ts ++ 93 :: rest) := by
    rw [List.cons_append, List.append_assoc, List.singleton_append]
    exact skipBlanks_of_not (by decide) _
  simp only [value, hskip, items_reads (.inl rfl) value_close h hlen rest, Option.map_some]

/-- **Members between curly brackets** are read as an object. -/
theorem reads_obj {ts : List Bytes} {ms : List (Bytes × Json)}
    (h : List.Forall₂ (Reads fun n => member (value n)) ts ms) :
    Reads value (123 :: ([44].intercalate ts ++ [125])) (.obj ms) := by
  intro n rest hn _
  obtain ⟨n, rfl⟩ := Nat.exists_eq_add_one_of_ne_zero (Nat.ne_zero_of_lt hn)
  have hlen : ([44].intercalate ts).length + 1 < n := by
    rw [List.length_cons, List.length_append, List.length_singleton] at hn
    omega
  have hskip : skipBlanks (123 :: ([44].intercalate ts ++ [125]) ++ rest) =
      123 :: ([44].intercalate ts ++ 125 :: rest) := by
    rw [List.cons_append, List.append_assoc, List.singleton_append]
    exact skipBlanks_of_not (by decide) _
  simp only [value, hskip, items_reads (.inr rfl) member_close h hlen rest, Option.map_some]

/-- **A plain key, a colon and a value** are read as a member. -/
theorem reads_member {k t : Bytes} {v : Json} (hk : Plain k) (ht : Reads value t v) :
    Reads (fun n => member (value n)) (34 :: (k ++ 34 :: 58 :: t)) (k, v) := by
  intro n rest hn hrest
  have hlen : t.length < n := by
    simp only [List.length_cons, List.length_append] at hn
    omega
  have htext : 34 :: (k ++ 34 :: 58 :: t) ++ rest = 34 :: (k ++ 34 :: (58 :: (t ++ rest))) := by simp
  rw [htext]
  simp only [member, skipBlanks_of_not (show isBlank 34 = false by decide), stringRest_plain hk,
    skipBlanks_of_not (show isBlank 58 = false by decide), ht n rest hlen hrest, Option.map_some]

/-! ### Texts that are no values -/

theorem value_unquoted {b : Byte} (hblank : isBlank b = false) (hquote : b ≠ 34) (hclose : b ≠ 125) (n : ℕ)
    (s : Bytes) : value n (123 :: b :: s) = none := by
  have hmember : ∀ n, member (value n) (b :: s) = none := by
    intro n
    unfold member
    rw [skipBlanks_of_not hblank]
    split
    · rename_i heq
      exact absurd (List.cons.inj heq).1 hquote
    · rfl
  cases n with
  | zero => rfl
  | succ n =>
    simp only [value, skipBlanks_of_not (show isBlank 123 = false by decide), items, skipBlanks_of_not hblank,
      if_neg hclose, list_none (hmember n) n, Option.map_none]

theorem value_single_none {k t : Bytes} (hk : Plain k) (ht : ∀ n, value n t = none) (n : ℕ) :
    value n (123 :: 34 :: (k ++ 34 :: 58 :: t)) = none := by
  have hmember : ∀ n, member (value n) (34 :: (k ++ 34 :: 58 :: t)) = none := by
    intro n
    simp only [member, skipBlanks_of_not (show isBlank 34 = false by decide), stringRest_plain hk,
      skipBlanks_of_not (show isBlank 58 = false by decide), ht n, Option.map_none]
  cases n with
  | zero => rfl
  | succ n =>
    have hclose : (34 : Byte) ≠ 125 := by decide
    simp only [value, skipBlanks_of_not (show isBlank 123 = false by decide), items,
      skipBlanks_of_not (show isBlank 34 = false by decide), if_neg hclose, list_none (hmember n) n,
      Option.map_none]

/-! ### UTF-8 -/

theorem isUtf8_append {s t : Bytes} (hs : IsUtf8 s) (ht : IsUtf8 t) : IsUtf8 (s ++ t) := by
  obtain ⟨cs, rfl⟩ := hs
  obtain ⟨ds, rfl⟩ := ht
  exact ⟨cs ++ ds, List.flatMap_append.symm⟩

lemma isUtf8_nil : IsUtf8 [] := ⟨[], rfl⟩

lemma utf8EncodeChar_ofNat : ∀ n < 128, String.utf8EncodeChar (Char.ofNat n) = [n.toUInt8] := by
  decide +kernel

theorem isUtf8_of_lt {s : Bytes} (h : ∀ b ∈ s, b < 128) : IsUtf8 s := by
  induction s with
  | nil => exact isUtf8_nil
  | cons b s ih =>
    obtain ⟨hb, hs⟩ := List.forall_mem_cons.1 h
    have hone : IsUtf8 [b] := by
      refine ⟨[Char.ofNat b.toNat], ?_⟩
      have hb' : b.toNat < 128 := hb
      rw [List.flatMap_singleton, utf8EncodeChar_ofNat _ hb']
      exact congrArg (fun c => [c]) UInt8.ofNat_toNat.symm
    exact isUtf8_append hone (ih hs)

/-! ### Texts that are written -/

/-- A text that can stand in a string as it is. -/
structure IsPlain (t : Bytes) : Prop where
  plain : Plain t
  utf8 : IsUtf8 t

lemma isPlain_append {t u : Bytes} (ht : IsPlain t) (hu : IsPlain u) : IsPlain (t ++ u) :=
  ⟨plain_append.2 ⟨ht.plain, hu.plain⟩, isUtf8_append ht.utf8 hu.utf8⟩

/-- The printable bytes that need no escape. -/
def isSafe (b : Byte) : Bool := (32 ≤ b ∧ b ≤ 33) ∨ (35 ≤ b ∧ b ≤ 91) ∨ (93 ≤ b ∧ b ≤ 126)

theorem isSafe_spec {b : Byte} (h : isSafe b = true) : (¬ b < 32 ∧ b ≠ 34 ∧ b ≠ 92) ∧ b < 128 := by
  have hnot : ∀ c : Byte, isSafe c = false → b ≠ c := by
    rintro c hc rfl
    rw [h] at hc
    cases hc
  have h34 := hnot 34 (by decide)
  have h92 := hnot 92 (by decide)
  simp only [isSafe, Bool.decide_or, Bool.decide_and, Bool.or_eq_true, Bool.and_eq_true, decide_eq_true_eq,
    UInt8.le_iff_toNat_le] at h
  have e32 : (32 : Byte).toNat = 32 := rfl
  have e33 : (33 : Byte).toNat = 33 := rfl
  have e35 : (35 : Byte).toNat = 35 := rfl
  have e91 : (91 : Byte).toNat = 91 := rfl
  have e93 : (93 : Byte).toNat = 93 := rfl
  have e126 : (126 : Byte).toNat = 126 := rfl
  have e128 : (128 : Byte).toNat = 128 := rfl
  refine ⟨⟨?_, h34, h92⟩, ?_⟩
  · rw [UInt8.lt_iff_toNat_lt]
    omega
  · rw [UInt8.lt_iff_toNat_lt]
    omega

lemma isPlain_of_safe {t : Bytes} (h : t.all isSafe = true) : IsPlain t := by
  have hbyte := fun b hb => isSafe_spec (List.all_eq_true.1 h b hb)
  exact ⟨fun b hb => (hbyte b hb).1, isUtf8_of_lt fun b hb => (hbyte b hb).2⟩

/-- The text `t` is UTF-8, and `p` reads it as `a`. -/
structure Writes {α : Type*} (p : ℕ → Bytes → Option (α × Bytes)) (t : Bytes) (a : α) : Prop where
  utf8 : IsUtf8 t
  reads : Reads p t a

lemma Writes.isJson {t : Bytes} {v : Json} (h : Writes value t v) : IsJson t :=
  ⟨h.utf8, by rw [h.reads.decode]; rfl⟩

lemma isUtf8_cons {b : Byte} (hb : b < 128) {s : Bytes} (hs : IsUtf8 s) : IsUtf8 (b :: s) :=
  isUtf8_append (s := [b]) (isUtf8_of_lt (List.forall_mem_singleton.2 hb)) hs

lemma isUtf8_concat {b : Byte} (hb : b < 128) {s : Bytes} (hs : IsUtf8 s) : IsUtf8 (s ++ [b]) :=
  isUtf8_append hs (isUtf8_of_lt (List.forall_mem_singleton.2 hb))

theorem isUtf8_intercalate {ts : List Bytes} (h : ∀ t ∈ ts, IsUtf8 t) : IsUtf8 ([44].intercalate ts) := by
  induction ts with
  | nil => exact isUtf8_nil
  | cons t ts ih =>
    obtain ⟨ht, hts⟩ := List.forall_mem_cons.1 h
    by_cases hnil : ts = []
    · subst hnil
      rwa [List.intercalate_singleton]
    · rw [List.intercalate_cons_of_ne_nil hnil]
      exact isUtf8_append (isUtf8_concat (by decide) ht) (ih hts)

theorem isUtf8_of_forall₂ {α : Type*} {p : ℕ → Bytes → Option (α × Bytes)} {ts : List Bytes} {as : List α}
    (h : List.Forall₂ (Writes p) ts as) : ∀ t ∈ ts, IsUtf8 t := by
  induction h with
  | nil => exact List.forall_mem_nil _
  | cons ht _ ih => exact List.forall_mem_cons.2 ⟨ht.utf8, ih⟩

section Writes

variable {t k : Bytes} {v : Json}

lemma writes_str (h : IsPlain t) : Writes value (34 :: (t ++ [34])) (.str t) :=
  ⟨isUtf8_cons (by decide) (isUtf8_concat (by decide) h.utf8), reads_str h.plain⟩

theorem isSafe_of_isDigit {b : Byte} (h : isDigit b = true) : isSafe b = true := by
  simp only [isDigit, Bool.decide_and, Bool.and_eq_true, decide_eq_true_eq, UInt8.le_iff_toNat_le] at h
  simp only [isSafe, Bool.decide_or, Bool.decide_and, Bool.or_eq_true, Bool.and_eq_true, decide_eq_true_eq,
    UInt8.le_iff_toNat_le]
  have e48 : (48 : Byte).toNat = 48 := rfl
  have e57 : (57 : Byte).toNat = 57 := rfl
  have e35 : (35 : Byte).toNat = 35 := rfl
  have e91 : (91 : Byte).toNat = 91 := rfl
  exact .inr (.inl ⟨by omega, by omega⟩)

theorem isPlain_decimal (n : ℤ) : IsPlain (decimal n) := by
  refine isPlain_of_safe (List.all_eq_true.2 fun b hb => ?_)
  rcases mem_decimal hb with h | rfl
  · exact isSafe_of_isDigit h
  · decide

lemma writes_num (n : ℤ) : Writes value (decimal n) (.num (decimal n)) :=
  ⟨(isPlain_decimal n).utf8, reads_num n⟩

theorem writes_member (hk : IsPlain k) (ht : Writes value t v) :
    Writes (fun n => member (value n)) (34 :: (k ++ 34 :: 58 :: t)) (k, v) :=
  ⟨isUtf8_cons (by decide) (isUtf8_append hk.utf8 (isUtf8_cons (by decide) (isUtf8_cons (by decide) ht.utf8))),
    reads_member hk.plain ht.reads⟩

theorem writes_arr {ts : List Bytes} {vs : List Json} (h : List.Forall₂ (Writes value) ts vs) :
    Writes value (91 :: ([44].intercalate ts ++ [93])) (.arr vs) :=
  ⟨isUtf8_cons (by decide) (isUtf8_concat (by decide) (isUtf8_intercalate (isUtf8_of_forall₂ h))),
    reads_arr (h.imp fun _ _ => Writes.reads)⟩

theorem writes_obj {ts : List Bytes} {ms : List (Bytes × Json)}
    (h : List.Forall₂ (Writes fun n => member (value n)) ts ms) :
    Writes value (123 :: ([44].intercalate ts ++ [125])) (.obj ms) :=
  ⟨isUtf8_cons (by decide) (isUtf8_concat (by decide) (isUtf8_intercalate (isUtf8_of_forall₂ h))),
    reads_obj (h.imp fun _ _ => Writes.reads)⟩

lemma Writes.blank_member {m : Bytes × Json} (h : Writes (fun n => member (value n)) t m) :
    Writes (fun n => member (value n)) (32 :: t) m :=
  ⟨isUtf8_cons (by decide) h.utf8, h.reads.blank_cons fun _ _ => member_blank _ _⟩

lemma Writes.blank_value (h : Writes value t v) : Writes value (32 :: t) v :=
  ⟨isUtf8_cons (by decide) h.utf8, h.reads.blank_cons value_blank⟩

lemma Writes.value_blank (h : Writes value t v) : Writes value (t ++ [32]) v :=
  ⟨isUtf8_concat (by decide) h.utf8, h.reads.append_blank⟩

end Writes

end Esp8266Rest.Lib.JsonText
