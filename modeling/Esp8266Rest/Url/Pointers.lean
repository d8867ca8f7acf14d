import Esp8266Rest.Lib.RawMemory
import Esp8266Rest.Url.Fields

/-!
# `getValue` on pointers

`getValueAt` is `getValue` as the source has it, on addresses of a memory whose accesses are listed.  It
does what `getValue` does on buffers (`getValueAt_refines`), reads the text up to its NUL and writes the
destination only; so it is a splitter too (`getValueAt_splits`).
-/

namespace Esp8266Rest.Url

open Esp8266Rest.Lib.CStr Esp8266Rest.Lib.RawMemory Esp8266Rest.Model

/-- The loop of `getValue` at index `i`, with `k` turns left at most. -/
def getValueScan (data : ℕ) (separator : Byte) (maxIndex index : ℕ) :
    ℕ → ℕ → ℕ → ℤ → ℤ → Memory → (ℕ × ℤ × ℤ) × Memory
  | 0, _, found, i0, i1, m => ((found, i0, i1), m)
  | k + 1, i, found, i0, i1, m =>
    if found ≤ index then
      if m.byte (data + i) = separator ∨ i = maxIndex then
        getValueScan data separator maxIndex index k (i + 1) (found + 1) (i1 + 1) i (m.read (data + i))
      else getValueScan data separator maxIndex index k (i + 1) found i0 i1 (m.read (data + i))
    else ((found, i0, i1), m)

/-- `getValue(retParam, data, separator, index)` -/
def getValueAt (retParam data : ℕ) (separator : Byte) (index : ℕ) (m : Memory) : ℤ × Memory :=
  let (maxIndex, m) := strlen data m
  let ((found, i0, i1), m) := getValueScan data separator maxIndex index (maxIndex + 1) 0 0 0 (-1) m
  let size := (i1 - i0).toNat
  let m := Lib.RawMemory.strncpy retParam (data + i0.toNat) size m
  let m := m.write (retParam + size) 0
  if found - 1 < index ∨ size = 0 then (-1, m.write retParam 0) else (size, m)

section Refine

variable {data : ℕ} {t : Bytes}

/-- **The loop on pointers** is the loop on the text. -/
theorem getValueScan_spec (sep : Byte) (index : ℕ) (W : Set ℕ) (rest : Bytes) :
    ∀ {m : Memory}, StringAt m data t → ∀ {i : ℕ}, i ≤ t.length → t.drop i = rest →
    ∀ (found : ℕ) (i0 i1 : ℤ),
      let res := getValueScan data sep t.length index (rest.length + 1) i found i0 i1 m
      res.1 = getValueLoop sep index rest i found i0 i1 ∧ res.2.byte = m.byte ∧
        Touches (Set.Icc data (data + t.length)) W m res.2 := by
  induction rest with
  | nil =>
    intro m h i hi hrest found i0 i1
    have hend : i = t.length := by
      have := List.drop_eq_nil_iff.1 hrest
      omega
    have hmem : data + i ∈ Set.Icc data (data + t.length) := ⟨by omega, by omega⟩
    simp only [List.length_nil, getValueScan, getValueLoop, hend, or_true, if_true]
    split
    · exact ⟨rfl, rfl, touches_read (hend ▸ hmem) m⟩
    · exact ⟨rfl, rfl, .refl m⟩
  | cons b rest ih =>
    intro m h i hi hrest found i0 i1
    have hlt : i < t.length := by
      by_contra hge
      rw [List.drop_eq_nil_of_le (by omega)] at hrest
      cases hrest
    rw [List.drop_eq_getElem_cons hlt] at hrest
    obtain ⟨hb, hdrop⟩ := List.cons.inj hrest
    have hbyte : m.byte (data + i) = b := (h.byte hlt).trans hb
    have hne : i ≠ t.length := by omega
    have hmem : data + i ∈ Set.Icc data (data + t.length) := ⟨by omega, by omega⟩
    have hread : Touches (Set.Icc data (data + t.length)) W m (m.read (data + i)) := touches_read hmem m
    have hm : StringAt (m.read (data + i)) data t := ⟨h.inside, h.text, h.nul, h.free⟩
    dsimp only
    rw [List.length_cons, getValueScan, getValueLoop, hbyte]
    simp only [hne, or_false]
    by_cases hf : found ≤ index
    · rw [if_pos hf, if_pos hf]
      by_cases hs : b = sep
      · rw [if_pos hs, if_pos hs]
        obtain ⟨hres, hsame, htouch⟩ := ih hm (i := i + 1) hlt hdrop (found + 1) (i1 + 1) i
        exact ⟨hres, hsame, hread.trans htouch⟩
      · rw [if_neg hs, if_neg hs]
        obtain ⟨hres, hsame, htouch⟩ := ih hm (i := i + 1) hlt hdrop found i0 i1
        exact ⟨hres, hsame, hread.trans htouch⟩
    · rw [if_neg hf, if_neg hf]
      exact ⟨rfl, rfl, .refl m⟩

/-- **The copy of a part of the text**, with its NUL. -/
theorem copyOut {m : Memory} (h : StringAt m data t) {dst cap i0 size : ℕ} (hpart : i0 + size ≤ t.length)
    (hroom : size < cap) (hapart : dst + cap ≤ data ∨ data + t.length < dst) :
    let m' := (Lib.RawMemory.strncpy dst (data + i0) size m).write (dst + size) 0
    m'.slice dst cap = (t.drop i0).take size ++ 0 :: (m.slice dst cap).drop (size + 1) ∧
      Touches (Set.Icc data (data + t.length)) (Set.Ico dst (dst + cap)) m m' := by
  have hfree : ∀ j, j < size → m.byte (data + i0 + j) ≠ 0 := by
    intro j hj
    rw [Nat.add_assoc]
    exact h.byte_ne (by omega)
  have hR : ∀ j, j < size → data + i0 + j ∈ Set.Icc data (data + t.length) :=
    fun j hj => ⟨by omega, by omega⟩
  have hW : ∀ j, j ≤ size → dst + j ∈ Set.Ico dst (dst + cap) := fun j hj => ⟨by omega, by omega⟩
  obtain ⟨hbyte, htouch⟩ := Lib.RawMemory.strncpy_spec hfree (by omega) hR fun j hj => hW j (by omega)
  have hlen : ((t.drop i0).take size).length = size := by
    rw [List.length_take, List.length_drop]
    omega
  have hsize : size < (m.slice dst cap).length := by simpa using hroom
  have hdrop : (m.slice dst cap).drop size =
      (m.slice dst cap).get ⟨size, hsize⟩ :: (m.slice dst cap).drop (size + 1) :=
    List.drop_eq_getElem_cons hsize
  refine ⟨?_, htouch.trans (touches_write (hW size le_rfl) _ _)⟩
  rw [slice_write, slice_of_copied hroom.le hbyte, h.slice hpart, hdrop,
    List.set_append_right _ _ hlen.le, hlen, Nat.sub_self, List.set_cons_zero]

/-- **`getValue` on pointers is `getValue`** on the buffers there, when what it copies fits and the
destination lies apart from the text. -/
theorem getValueAt_refines {m : Memory} (h : StringAt m data t) {dst cap : ℕ} (sep : Byte) (index : ℕ)
    (hroom : (copied t sep index).length < cap) (hapart : dst + cap ≤ data ∨ data + t.length < dst) :
    let v := getValue ⟨cap, m.slice dst cap⟩ t sep index
    let res := getValueAt dst data sep index m
    res.1 = v.ret ∧ res.2.slice dst cap = v.param.mem ∧
      Touches (Set.Icc data (data + t.length)) (Set.Ico dst (dst + cap)) m res.2 := by
  obtain ⟨hlen, hbyte₁, htouch₁⟩ := strlen_spec (Set.Ico dst (dst + cap)) h
  have h₁ : StringAt (strlen data m).2 data t :=
    ⟨by rw [htouch₁.size]; exact h.inside, by rw [slice_congr hbyte₁]; exact h.text,
      by rw [hbyte₁]; exact h.nul, h.free⟩
  obtain ⟨hscan, hbyte₂, htouch₂⟩ := getValueScan_spec sep index (Set.Ico dst (dst + cap)) t h₁
    (Nat.zero_le _) List.drop_zero 0 0 (-1)
  obtain ⟨hfound, hnonneg, hsize, hbound, htext⟩ := getValueLoop_start t sep index
  have hself : cstr t = t := cstr_eq_self h.free
  rw [hself] at hfound hnonneg hsize hbound htext
  dsimp only
  unfold getValueAt getValue
  rw [hself]
  dsimp only
  rw [hlen]
  generalize getValueScan data sep t.length index (t.length + 1) 0 0 0 (-1) (strlen data m).2 = res
    at hscan hbyte₂ htouch₂
  generalize getValueLoop sep index t 0 0 0 (-1) = loop at hscan hfound hnonneg hsize hbound htext
  obtain ⟨⟨found, i0, i1⟩, m₂⟩ := res
  obtain rfl : (found, i0, i1) = loop := hscan
  dsimp only at hfound hnonneg hsize hbound htext hbyte₂ htouch₂ ⊢
  have hcopied : (i1 - i0).toNat = (copied t sep index).length := by omega
  have h₂ : StringAt m₂ data t :=
    ⟨by rw [htouch₂.size]; exact h₁.inside, by rw [slice_congr hbyte₂]; exact h₁.text,
      by rw [hbyte₂]; exact h₁.nul, h.free⟩
  have hslice : m₂.slice dst cap = m.slice dst cap := slice_congr (hbyte₂.trans hbyte₁) dst cap
  have hpart : i0.toNat + (i1 - i0).toNat ≤ t.length := by omega
  have hfits : (i1 - i0).toNat < cap := by omega
  obtain ⟨hout, htouch₃⟩ := copyOut h₂ hpart hfits hapart
  rw [hslice] at hout
  have htouch := (htouch₁.trans htouch₂).trans htouch₃
  split
  · have hmem : dst ∈ Set.Ico dst (dst + cap) := ⟨le_rfl, by omega⟩
    refine ⟨rfl, ?_, htouch.trans (touches_write hmem _ _)⟩
    have hzero := slice_write dst 0 cap 0
      ((Lib.RawMemory.strncpy dst (data + i0.toNat) (i1 - i0).toNat m₂).write (dst + (i1 - i0).toNat) 0)
    rw [Nat.add_zero] at hzero
    rw [hzero, hout]
  · exact ⟨rfl, hout, htouch⟩

/-- **`getValue` is the splitter** on pointers: it returns the length of the piece and stores it, or
returns `-1` and stores the empty string when there is no such piece or an empty one.  It writes the
destination and reads the text, up to its NUL. -/
theorem getValueAt_splits {m : Memory} (h : StringAt m data t) {dst cap : ℕ} (sep : Byte) (index : ℕ)
    (hroom : (copied t sep index).length < cap) (hapart : dst + cap ≤ data ∨ data + t.length < dst) :
    let part := (t.splitOn sep).getD index []
    let res := getValueAt dst data sep index m
    res.1 = (if part = [] then -1 else (part.length : ℤ)) ∧ part ++ [0] <+: res.2.slice dst cap ∧
      Touches (Set.Icc data (data + t.length)) (Set.Ico dst (dst + cap)) m res.2 := by
  obtain ⟨hret, hmem, htouch⟩ := getValueAt_refines h sep index hroom hapart
  have hpart : (t.splitOn sep).getD index [] = piece t sep index := by
    unfold piece pieces
    rw [cstr_eq_self h.free]
  dsimp only
  rw [hpart]
  refine ⟨by rw [hret, getValue_ret], ?_, htouch⟩
  rw [hmem, getValue_eq]
  split
  · rename_i hnil
    rw [hnil]
    cases copied t sep index <;> exact ⟨_, rfl⟩
  · exact ⟨_, by rw [List.append_assoc]; rfl⟩

end Refine

/-- The second field of `/event/7`, cut out of a memory with nothing else in it. -/
theorem getValueAt_splits_event :
    let m : Memory := { size := 32, byte := fun a => (ascii "/event/7").getD a 0, reads := [], writes := [] }
    let part := ((ascii "/event/7").splitOn slash).getD 2 []
    let res := getValueAt 16 0 slash 2 m
    res.1 = (if part = [] then -1 else (part.length : ℤ)) ∧ part ++ [0] <+: res.2.slice 16 4 ∧
      Touches (Set.Icc 0 (0 + (ascii "/event/7").length)) (Set.Ico 16 (16 + 4)) m res.2 :=
  getValueAt_splits ⟨by decide, by decide, by decide, by decide⟩ slash 2 (by decide) (.inr (by decide))

end Esp8266Rest.Url
