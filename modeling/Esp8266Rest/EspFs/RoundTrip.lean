import Esp8266Rest.EspFs.Image

/-!
# What the image tool writes, the reader reads

`espFsOpen` and `espFsRead` on the image of some files: a file that is stored as it is comes back in any
pieces (`image_roundTrip`), one that is stored compressed cannot be opened, and one that was empty is not
there.
-/

namespace Esp8266Rest.EspFs

open Esp8266Rest.Lib.CStr Esp8266Rest.Lib.Layout Esp8266Rest.Lib.Texts Esp8266Rest.Model

variable {flash : Mem}

/-! ### Aligned reads -/

theorem slice_four (flash : Mem) (p : ℤ) :
    flash.slice p 4 = [flash p, flash (p + 1), flash (p + 2), flash (p + 3)] := by
  have hzero : p + ((0 : ℕ) : ℤ) = p := Int.add_zero p
  unfold Mem.slice
  simp only [List.range_succ, List.range_zero, List.nil_append, List.map_cons, List.map_nil,
    List.cons_append, hzero]
  rfl

/-- **The bytes of an aligned word** are those that stand there. -/
theorem memcpyAligned_eq (flash : Mem) (src : ℤ) (len : ℕ) :
    memcpyAligned flash src len = flash.slice src len := by
  apply List.map_congr_left
  intro x _
  have hword := Codec.word.enc_dec_self (length_slice flash (src + x - (src + x) % 4) 4)
  dsimp only
  generalize Codec.word.dec (flash.slice (src + x - (src + x) % 4) 4) = w at hword
  rw [slice_four] at hword
  change [w.toUInt8, (w >>> 8).toUInt8, (w >>> 16).toUInt8, (w >>> 24).toUInt8] = _ at hword
  simp only [List.cons.injEq, and_true] at hword
  obtain ⟨h0, h1, h2, h3⟩ := hword
  -- which byte of the word it is
  split
  · rename_i hb
    rw [h0, hb, Int.sub_zero]
  · split
    · rename_i hb
      rw [h1, hb, Int.sub_add_cancel]
    · split
      · rename_i hb
        rw [h2, hb, Int.sub_add_cancel]
      · rename_i hb0 hb1 hb2
        have hb : (src + x) % 4 = 3 := by omega
        rw [h3, hb, Int.sub_add_cancel]

/-! ### Reading -/

/-- An open file, of which `k` bytes were read. -/
structure Reading (flash : Mem) (data : Bytes) (k : ℕ) (fh : EspFsFile) : Prop where
  length : (Codec.word.dec (flash.slice (fh.header + 8) 4)).toInt32.toInt = data.length
  plain : fh.decompressor = compressNone
  placed : Placed flash fh.posStart data
  posComp : fh.posComp = fh.posStart + k
  posDecomp : fh.posDecomp = k
  le : k ≤ data.length

/-- **One read** gives the next bytes, as many as there are. -/
theorem espFsRead_of_reading {data : Bytes} {k : ℕ} {fh : EspFsFile} (h : Reading flash data k fh) (len : ℕ) :
    Reading flash data (min (k + len) data.length) (espFsRead flash fh len).1 ∧
      (espFsRead flash fh len).2 = ((data.drop k).take len, (((data.drop k).take len).length : ℤ)) := by
  have hrest : (Codec.word.dec (memcpyAligned flash (fh.header + 8) 4)).toInt32.toInt -
      (fh.posComp - fh.posStart) = (data.length - k : ℕ) := by
    have hle := h.le
    rw [memcpyAligned_eq, h.length, h.posComp]
    omega
  have hlen : (if (len : ℤ) > (data.length - k : ℕ) then ((data.length - k : ℕ) : ℤ) else len) =
      ((data.drop k).take len).length := by
    rw [List.length_take, List.length_drop]
    split <;> omega
  have hle : k + ((data.drop k).take len).length ≤ data.length := by
    have := h.le
    rw [List.length_take, List.length_drop]
    omega
  have hbytes : memcpyAligned flash fh.posComp ((data.drop k).take len).length = (data.drop k).take len := by
    rw [memcpyAligned_eq, h.posComp, h.placed.slice hle, List.length_take, List.take_eq_take_iff]
    omega
  unfold espFsRead
  dsimp only
  rw [if_pos h.plain, hrest, hlen, Int.toNat_natCast, hbytes]
  refine ⟨⟨h.length, h.plain, h.placed, ?_, ?_, Nat.min_le_right _ _⟩, rfl⟩
  · show fh.posComp + _ = fh.posStart + _
    rw [h.posComp, List.length_take, List.length_drop]
    have := h.le
    omega
  · show fh.posDecomp + _ = _
    rw [h.posDecomp, List.length_take, List.length_drop]
    have := h.le
    omega

/-- A caller that reads pieces of these lengths: what it gets, and the results. -/
def readAll (flash : Mem) : EspFsFile → List ℕ → List (Bytes × ℤ)
  | _, [] => []
  | fh, len :: lens => (espFsRead flash fh len).2 :: readAll flash (espFsRead flash fh len).1 lens

/-- **Any pieces** make up the data. -/
theorem readAll_of_reading {data : Bytes} {k : ℕ} {fh : EspFsFile} (h : Reading flash data k fh)
    (lens : List ℕ) : (readAll flash fh lens).flatMap Prod.fst = (data.drop k).take lens.sum ∧
      ∀ r ∈ readAll flash fh lens, r.2 = r.1.length := by
  induction lens generalizing k fh with
  | nil => exact ⟨List.take_zero.symm, fun r hr => nomatch hr⟩
  | cons len lens ih =>
    obtain ⟨hnext, hread⟩ := espFsRead_of_reading h len
    obtain ⟨hrest, hresults⟩ := ih hnext
    refine ⟨?_, ?_⟩
    · rw [readAll, List.flatMap_cons, hrest, hread, List.sum_cons, List.take_add, List.drop_drop]
      by_cases hle : k + len ≤ data.length
      · rw [Nat.min_eq_left hle]
      · rw [Nat.min_eq_right (Nat.le_of_not_le hle), List.drop_length,
          List.drop_eq_nil_of_le (Nat.le_of_not_le hle)]
    · rw [readAll, List.forall_mem_cons]
      refine ⟨?_, hresults⟩
      rw [hread]

/-! ### The round trip -/

section RoundTrip

variable {compress : Bytes → Bytes} {compression : Int8}

theorem reading_of_entry {q : ℤ} {f : HostFile} (hf : Fits f) (h : EntryAt compress compression flash q f)
    (hplain : (storedAs compress compression f.data).1 = compressNone) {fh : EspFsFile}
    (hfh : opened compress compression q f = some fh) : Reading flash f.data 0 fh := by
  unfold opened at hfh
  rw [if_pos hplain] at hfh
  obtain rfl := Option.some.inj hfh
  have hdata := h.data
  have hcomp := toInt_fileLenComp compress compression hf
  rw [cdat_of_plain compress compression hplain] at hdata hcomp
  have hword : flash.slice (q + 8) 4 =
      Codec.word.enc (headerOf compress compression f).fileLenComp.toUInt32 := h.header.slice (k := 8) (by
    rw [espFsHeader.length_enc]
    decide)
  refine ⟨?_, rfl, hdata, (Int.add_zero _).symm, rfl, Nat.zero_le _⟩
  rw [hword, Codec.word.dec_enc_self]
  exact hcomp

/-- **Round trip.**  In flash that holds the image of files that the format has room for, `espFsOpen` ends
for every name.  It finds the first file with that name which was not empty, but for the slashes that the
name begins with: one that is stored as it is stands at a boundary of four and can be read in any pieces,
which make up its data, and one that is stored compressed is not opened. -/
theorem image_roundTrip {files : List HostFile} (hfits : ∀ f ∈ files, Fits f)
    (hflash : Placed flash espFsPos (mkespfsimage compress compression files)) (stack fileName : Bytes) :
    ∃ res, espFsOpen flash stack true (files.length + 1) fileName = some res ∧
      match lookup files ((cstr fileName).dropWhile (· = 47)) with
      | none => res = none
      | some f =>
        if (storedAs compress compression f.data).1 = compressNone then
          ∃ fh, res = some fh ∧ fh.header % 4 = 0 ∧ fh.posStart % 4 = 0 ∧ ∀ lens : List ℕ,
            (readAll flash fh lens).flatMap Prod.fst = f.data.take lens.sum ∧
            ∀ r ∈ readAll flash fh lens, r.2 = r.1.length
        else res = none := by
  obtain ⟨res, hopen, hres⟩ := findFile_placed stack ((cstr fileName).dropWhile (· = 47)) hfits (by decide)
    hflash (Nat.lt_succ_self _)
  refine ⟨res, hopen, ?_⟩
  cases hlookup : lookup files ((cstr fileName).dropWhile (· = 47)) with
  | none =>
    rw [hlookup] at hres
    exact hres
  | some f =>
    rw [hlookup] at hres
    obtain ⟨q, hq, hentry, rfl⟩ := hres
    have hf : Fits f := hfits f (List.mem_of_find?_eq_some hlookup)
    dsimp only
    by_cases hplain : (storedAs compress compression f.data).1 = compressNone
    · rw [if_pos hplain]
      have hsize : nameSize f % 4 = 0 := roundUp_mod _
      refine ⟨_, if_pos hplain, hq, ?_, fun lens => ?_⟩
      · show (q + headerSize + nameSize f) % 4 = 0
        unfold headerSize
        omega
      · exact readAll_of_reading (reading_of_entry hf hentry hplain (if_pos hplain)) lens
    · rw [if_neg hplain]
      exact if_neg hplain

end RoundTrip

/-- Two files, one with memory behind its name. -/
def twoFiles : List HostFile :=
  [⟨ascii "./a.txt" ++ [0, 7, 7, 7], ascii "hello"⟩, ⟨ascii "/img/c" ++ [0, 9, 9, 9], ascii "worlds"⟩]

/-- The second of two files, from an image without compression. -/
theorem image_roundTrip_two : ∃ res,
    espFsOpen (.ofText espFsPos (mkespfsimage id compressNone twoFiles)) [] true 3 (ascii "//img/c") = some res ∧
      ∃ fh, res = some fh ∧ fh.header % 4 = 0 ∧ fh.posStart % 4 = 0 ∧ ∀ lens : List ℕ,
        (readAll (.ofText espFsPos (mkespfsimage id compressNone twoFiles)) fh lens).flatMap Prod.fst =
          (ascii "worlds").take lens.sum ∧
        ∀ r ∈ readAll (.ofText espFsPos (mkespfsimage id compressNone twoFiles)) fh lens, r.2 = r.1.length :=
  image_roundTrip (by decide) (placed_ofText _ _) [] (ascii "//img/c")

end Esp8266Rest.EspFs
