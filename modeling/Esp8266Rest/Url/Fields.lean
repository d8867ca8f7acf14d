import Esp8266Rest.Model.Respond

/-!
# `getValue` is a splitter

`getValue` walks over the text once, with a counter of the pieces found and the bounds of the last
one.  `getValueLoop_spec` says what the loop ends with; the three facts that callers use are

* `getValue_str` — the destination holds the piece `index` of the text, or the empty string;
* `getValue_ret` — the result is the length of that piece, and `-1` when it is empty or missing;
* `getValue_copy` — what was written first is `copied`: the piece `index`, and when there are fewer
  pieces the last one.
-/

namespace Esp8266Rest.Url

open Esp8266Rest.Lib.CStr Esp8266Rest.Model

/-- What `getValue` copies: the piece `k`, or the last piece when there is no piece `k`. -/
def copied (m : Bytes) (sep : Byte) (k : ℕ) : Bytes := piece m sep (min k ((pieces m sep).length - 1))

theorem copied_eq_piece {m : Bytes} {sep : Byte} {k : ℕ} (h : k < (pieces m sep).length) :
    copied m sep k = piece m sep k := by
  unfold copied
  rw [min_eq_left (by omega)]

lemma piece_of_le {m : Bytes} {sep : Byte} {k : ℕ} (h : (pieces m sep).length ≤ k) :
    piece m sep k = [] := by
  simp [piece, h]

theorem copied_of_ne_nil {m : Bytes} {sep : Byte} {k : ℕ} (h : piece m sep k ≠ []) :
    copied m sep k = piece m sep k := by
  by_cases hk : k < (pieces m sep).length
  · exact copied_eq_piece hk
  · exact absurd (piece_of_le (by omega)) h

theorem length_copied_le {m : Bytes} {sep : Byte} {n : ℕ} (h : ∀ t ∈ pieces m sep, t.length ≤ n)
    (k : ℕ) : (copied m sep k).length ≤ n := by
  have hlt : min k ((pieces m sep).length - 1) < (pieces m sep).length := by
    have := pieces_length_pos m sep
    omega
  unfold copied piece
  rw [List.getD_eq_getElem?_getD, List.getElem?_eq_getElem hlt, Option.getD_some]
  exact h _ (List.getElem_mem hlt)

/-! ### The loop -/

theorem getValueLoop_stop {sep : Byte} {index found : ℕ} (h : index < found) (rest : Bytes) (i : ℕ)
    (i0 i1 : ℤ) : getValueLoop sep index rest i found i0 i1 = (found, i0, i1) := by
  have h' : ¬ found ≤ index := by omega
  cases rest <;> simp only [getValueLoop, if_neg h']

/-- What the loop ends with: `n` pieces found, the last of them `t`, which stands in `data`. -/
structure Found (data : Bytes) (n : ℕ) (t : Bytes) (res : ℕ × ℤ × ℤ) : Prop where
  found : res.1 = n
  nonneg : 0 ≤ res.2.1
  size : res.2.2 - res.2.1 = t.length
  bound : res.2.2 ≤ data.length
  text : (data.drop res.2.1.toNat).take t.length = t

/-- What is found in front of a NUL is found in the whole memory. -/
theorem Found.text_of_cstr {data t : Bytes} {n : ℕ} {res : ℕ × ℤ × ℤ} (h : Found (cstr data) n t res) :
    (data.drop res.2.1.toNat).take t.length = t := by
  obtain ⟨-, hnonneg, hsize, hbound, htext⟩ := h
  obtain ⟨tail, htail⟩ := cstr_prefix_self data
  have hlen : t.length ≤ ((cstr data).drop res.2.1.toNat).length := by
    rw [List.length_drop]
    omega
  have hle : res.2.1.toNat ≤ (cstr data).length := by omega
  calc (data.drop res.2.1.toNat).take t.length
      = ((cstr data ++ tail).drop res.2.1.toNat).take t.length := by rw [htail]
    _ = ((cstr data).drop res.2.1.toNat).take t.length := by
      rw [List.drop_append_of_le_length hle, List.take_append_of_le_length hlen]
    _ = t := htext

/-- Behind a piece that is done with, one piece less is to be reached. -/
theorem reached_cons {index found : ℕ} (h : found < index) (t : Bytes) {ps : List Bytes}
    (hps : 0 < ps.length) : min (index - found) ((t :: ps).length - 1) =
      min (index - (found + 1)) (ps.length - 1) + 1 := by
  rw [List.length_cons]
  omega

/-- **The loop of `getValue`.**  `pre` is read and done with, `cur` is the begun piece.  Of the pieces
that are left it reaches number `j`, the asked one or the last. -/
theorem getValueLoop_spec (sep : Byte) (index : ℕ) (rest : Bytes) :
    ∀ (pre cur : Bytes) (found : ℕ) (i0 : ℤ), found ≤ index →
      let ps := (rest.splitOn sep).modifyHead (cur ++ ·)
      let j := min (index - found) (ps.length - 1)
      Found (pre ++ (cur ++ rest)) (found + j + 1) (ps.getD j [])
        (getValueLoop sep index rest (pre.length + cur.length) found i0 (pre.length - 1)) := by
  induction rest with
  | nil =>
    intro pre cur found i0 h
    simp only [getValueLoop, if_pos h]
    refine ⟨by simp, by simp, by simp, by simp, by simp⟩
  | cons b rest ih =>
    intro pre cur found i0 h
    by_cases hb : b = sep
    · subst hb
      simp only [getValueLoop, if_pos h, if_true, splitOn_cons_self]
      by_cases hlast : found = index
      · -- the asked piece ends here
        subst hlast
        rw [getValueLoop_stop (by omega)]
        refine ⟨by simp, by simp, by simp, by simp; omega, by simp⟩
      · have key := ih (pre ++ (cur ++ [b])) [] (found + 1) (pre.length - 1 + 1) (by omega)
        have hid : (rest.splitOn b).modifyHead (([] : Bytes) ++ ·) = rest.splitOn b := by
          cases rest.splitOn b <;> rfl
        have hpos : 0 < (rest.splitOn b).length := by
          unfold List.splitOn
          exact List.length_pos_iff.2 (by simp)
        simp only [hid] at key
        rw [List.modifyHead_cons, reached_cons (by omega) _ hpos, List.getD_cons_succ]
        have e1 : (pre ++ (cur ++ [b])).length + ([] : Bytes).length =
            pre.length + cur.length + 1 := by simp; omega
        have e2 : (((pre ++ (cur ++ [b])).length : ℕ) : ℤ) - 1 =
            ((pre.length + cur.length : ℕ) : ℤ) := by simp; omega
        have e3 : pre ++ (cur ++ [b]) ++ ([] ++ rest) = pre ++ (cur ++ b :: rest) := by simp
        rw [e1, e2, e3] at key
        obtain ⟨hfound, hnonneg, hsize, hbound, htext⟩ := key
        exact ⟨by rw [hfound]; omega, hnonneg, hsize, hbound, htext⟩
    · simp only [getValueLoop, if_pos h, if_neg hb, splitOn_cons_ne hb, List.modifyHead_modifyHead]
      have key := ih pre (cur ++ [b]) found i0 h
      have hcomp : ((cur ++ ·) ∘ (b :: ·) : Bytes → Bytes) = (cur ++ [b] ++ ·) := by
        funext t; simp
      have e1 : pre.length + (cur ++ [b]).length = pre.length + cur.length + 1 := by simp; omega
      have e2 : pre ++ (cur ++ [b] ++ rest) = pre ++ (cur ++ b :: rest) := by simp
      rw [e1, e2] at key
      rw [hcomp]
      exact key

theorem getValueLoop_start (data : Bytes) (sep : Byte) (index : ℕ) :
    Found (cstr data) (min index ((pieces data sep).length - 1) + 1) (copied data sep index)
      (getValueLoop sep index (cstr data) 0 0 0 (-1)) := by
  have key := getValueLoop_spec sep index (cstr data) [] [] 0 0 (by omega)
  have hid : ((cstr data).splitOn sep).modifyHead (([] : Bytes) ++ ·) = pieces data sep := by
    unfold pieces
    cases (cstr data).splitOn sep <;> rfl
  rw [hid] at key
  dsimp only at key
  rw [Nat.zero_add, Nat.sub_zero] at key
  exact key

/-! ### What callers use -/

variable (dst : Buffer) (data : Bytes) (sep : Byte) (index : ℕ)

/-- The memory behind the copy. -/
def behind (dst : Buffer) (t : Bytes) : Bytes := dst.mem.drop (t.length + 1)

theorem getValue_eq : getValue dst data sep index =
    if piece data sep index = [] then
      ⟨-1, ⟨dst.cap, (copied data sep index ++ 0 :: behind dst (copied data sep index)).set 0 0⟩,
        ⟨(copied data sep index).length + 1, dst.cap⟩⟩
    else
      ⟨(piece data sep index).length,
        ⟨dst.cap, piece data sep index ++ 0 :: behind dst (piece data sep index)⟩,
        ⟨(piece data sep index).length + 1, dst.cap⟩⟩ := by
  have hloop := getValueLoop_start data sep index
  have htext := hloop.text_of_cstr
  obtain ⟨hfound, -, hdiff, -, -⟩ := hloop
  unfold getValue
  generalize getValueLoop sep index (cstr data) 0 0 0 (-1) = res at htext hfound hdiff
  obtain ⟨found, i0, i1⟩ := res
  dsimp only at htext hfound hdiff
  have hsize : (i1 - i0).toNat = (copied data sep index).length := by omega
  simp only [hsize, htext]
  have hpos := pieces_length_pos data sep
  by_cases hp : piece data sep index = []
  · rw [if_pos hp]
    have hcond : found - 1 < index ∨ (copied data sep index).length = 0 := by
      by_cases hk : index < (pieces data sep).length
      · right; rw [copied_eq_piece hk, hp]; rfl
      · left; omega
    rw [if_pos hcond]
    rfl
  · rw [if_neg hp]
    have hk : index < (pieces data sep).length := by
      by_contra hk
      exact hp (piece_of_le (by omega))
    have hcond : ¬ (found - 1 < index ∨ (copied data sep index).length = 0) := by
      rw [copied_eq_piece hk]
      rintro (h | h)
      · omega
      · exact hp (List.length_eq_zero_iff.1 h)
    rw [if_neg hcond, copied_eq_piece hk]
    rfl

theorem getValue_ret : (getValue dst data sep index).ret =
    if piece data sep index = [] then -1 else ((piece data sep index).length : ℤ) := by
  rw [getValue_eq]
  split <;> rfl

theorem getValue_ret_ne : (getValue dst data sep index).ret ≠ -1 ↔ piece data sep index ≠ [] := by
  rw [getValue_ret]
  split
  · simp_all
  · rename_i h
    simp only [h, not_false_eq_true, iff_true, ne_eq]
    omega

theorem getValue_copy : (getValue dst data sep index).copy =
    ⟨(copied data sep index).length + 1, dst.cap⟩ := by
  rw [getValue_eq]
  split
  · rfl
  · rename_i h; rw [copied_of_ne_nil h]

lemma getValue_cap : (getValue dst data sep index).param.cap = dst.cap := by
  rw [getValue_eq]
  split <;> rfl

theorem zero_notMem_piece : (0 : Byte) ∉ piece data sep index := by
  intro h
  have hne : piece data sep index ≠ [] := List.ne_nil_of_mem h
  rw [← copied_of_ne_nil hne, ← (getValueLoop_start data sep index).text] at h
  exact zero_notMem_cstr data (List.mem_of_mem_drop (List.mem_of_mem_take h))

theorem getValue_str : (getValue dst data sep index).str = piece data sep index := by
  unfold Value.str
  rw [getValue_eq]
  split
  · rename_i h
    rw [h]
    cases copied data sep index <;> rfl
  · exact cstr_append_zero (zero_notMem_piece data sep index) _

/-! ### Fields of fields -/

lemma pieces_cstr (m : Bytes) (sep : Byte) : pieces (cstr m) sep = pieces m sep := by
  unfold pieces
  rw [cstr_idem]

lemma piece_param (v : Value) : piece v.param.mem sep index = piece v.str sep index := by
  unfold piece Value.str
  rw [pieces_cstr]

lemma copied_param (v : Value) : copied v.param.mem sep index = copied v.str sep index := by
  unfold copied piece Value.str
  rw [pieces_cstr]

/-! ### Texts that are put together from fields -/

theorem mem_intercalate {sep x : Byte} {ts : List Bytes} (h : x ∈ [sep].intercalate ts) :
    x = sep ∨ ∃ t ∈ ts, x ∈ t := by
  induction ts with
  | nil => cases h
  | cons t ts ih =>
    by_cases hts : ts = []
    · subst hts
      exact .inr ⟨t, List.mem_cons_self, by simpa using h⟩
    · rw [List.intercalate_cons_of_ne_nil hts, List.mem_append, List.mem_append, List.mem_singleton] at h
      rcases h with (h | h) | h
      · exact .inr ⟨t, List.mem_cons_self, h⟩
      · exact .inl h
      · exact (ih h).imp_right fun ⟨u, hu, hx⟩ => ⟨u, List.mem_cons_of_mem _ hu, hx⟩

/-- **Fields that are joined are the pieces**, if no field holds the separator or a NUL. -/
theorem pieces_intercalate {sep : Byte} (hsep : sep ≠ 0) {ts : List Bytes} (hne : ts ≠ [])
    (h : ∀ t ∈ ts, sep ∉ t ∧ (0 : Byte) ∉ t) : pieces ([sep].intercalate ts) sep = ts := by
  have h0 : (0 : Byte) ∉ [sep].intercalate ts := by
    intro hmem
    rcases mem_intercalate hmem with he | ⟨t, ht, hx⟩
    · exact hsep he.symm
    · exact (h t ht).2 hx
  unfold pieces
  rw [cstr_eq_self h0, List.splitOn_intercalate sep (fun t ht => (h t ht).1) hne]

end Esp8266Rest.Url
