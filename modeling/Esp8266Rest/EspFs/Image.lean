import Esp8266Rest.Model.EspFs

/-!
# Where things lie in an image

A file in an image is a header, its name and its data, each at a multiple of four (`placed_handleFile`).
So `espFsOpen` goes from one header to the next, and stops at the first file with the name that it looks
for, or at the header that `finishArchive` writes (`findFile_placed`).
-/

namespace Esp8266Rest.EspFs

open Esp8266Rest.Lib.CStr Esp8266Rest.Lib.Layout Esp8266Rest.Lib.Texts Esp8266Rest.Model

/-! ### Boundaries -/

lemma le_roundUp (n : ℕ) : n ≤ roundUp n := by
  unfold roundUp
  split <;> omega

lemma roundUp_mod (n : ℕ) : roundUp n % 4 = 0 := by
  unfold roundUp
  split <;> omega

lemma roundUp_le (n : ℕ) : roundUp n ≤ n + 3 := by
  unfold roundUp
  split <;> omega

/-! ### Files -/

/-- The name that a file has in the image. -/
def nameOf (f : HostFile) : Bytes := cstr (realName f.fileName)

/-- The length that its header gives the name. -/
def nameSize (f : HostFile) : ℕ := roundUp ((nameOf f).length + 1)

/-- A file that the format has room for: its name fits into `namebuf`, the memory behind the name can be
read to the next boundary, and its length is an `int32_t`. -/
structure Fits (f : HostFile) : Prop where
  readable : nameSize f ≤ (realName f.fileName).length
  short : (nameOf f).length < 256
  small : f.data.length < 2 ^ 31

instance (f : HostFile) : Decidable (Fits f) :=
  decidable_of_iff (nameSize f ≤ (realName f.fileName).length ∧ (nameOf f).length < 256 ∧
      f.data.length < 2 ^ 31) ⟨fun ⟨a, b, c⟩ => ⟨a, b, c⟩, fun h => ⟨h.1, h.2, h.3⟩⟩

section Image

variable (compress : Bytes → Bytes) (compression : Int8)

/-- The data in the image. -/
def cdat (f : HostFile) : Bytes := (storedAs compress compression f.data).2

def headerOf (f : HostFile) : EspFsHeader :=
  { magic := espFsMagic, flags := 0, compression := (storedAs compress compression f.data).1,
    nameLen := Int16.ofNat (nameSize f), fileLenComp := Int32.ofNat (cdat compress compression f).length,
    fileLenDecomp := Int32.ofNat f.data.length }

/-- What is written for a file that is not empty. -/
def entry (f : HostFile) : Bytes :=
  espFsHeader.enc (headerOf compress compression f) ++ ((realName f.fileName).take (nameSize f) ++
    (cdat compress compression f ++ List.replicate (roundUp (cdat compress compression f).length -
      (cdat compress compression f).length) 0))

theorem handleFile_eq (f : HostFile) : handleFile compress compression (realName f.fileName) f.data =
    if f.data = [] then [] else entry compress compression f := by
  unfold handleFile
  split
  · rfl
  · dsimp only
    rw [List.append_assoc, List.append_assoc]
    rfl

theorem length_cdat_le (f : HostFile) : (cdat compress compression f).length ≤ f.data.length := by
  unfold cdat storedAs
  split
  · exact le_rfl
  · split
    · exact le_rfl
    · rename_i h
      exact Nat.le_of_not_lt h

theorem cdat_of_plain {f : HostFile} (hplain : (storedAs compress compression f.data).1 = compressNone) :
    cdat compress compression f = f.data := by
  unfold storedAs at hplain
  unfold cdat storedAs
  split at hplain
  · rename_i h
    rw [if_pos h]
  · rename_i h
    rw [if_neg h]
    split at hplain
    · rename_i hlt
      rw [if_pos hlt]
    · have hne : compressHeatshrink ≠ compressNone := by decide
      exact absurd hplain hne

/-- Where the parts of a file stand. -/
structure EntryAt (flash : Mem) (p : ℤ) (f : HostFile) : Prop where
  header : Placed flash p (espFsHeader.enc (headerOf compress compression f))
  name : ∀ stack, cstr (flash.slice (p + headerSize) 256 ++ stack) = nameOf f
  data : Placed flash (p + headerSize + nameSize f) (cdat compress compression f)

theorem zero_mem_take {m : Bytes} (h : (cstr m).length < m.length) :
    (0 : Byte) ∈ m.take ((cstr m).length + 1) := by
  induction m with
  | nil => exact absurd h (Nat.not_lt_zero _)
  | cons b m ih =>
    by_cases hb : b = 0
    · rw [hb]
      exact List.mem_cons_self
    · rw [cstr_cons_ne hb, List.length_cons, List.length_cons] at h
      rw [cstr_cons_ne hb, List.length_cons, List.take_succ_cons]
      exact List.mem_cons_of_mem b (ih (Nat.lt_of_succ_lt_succ h))

/-- **The parts of a file** stand one behind the other. -/
theorem entryAt_of_placed {flash : Mem} {p : ℤ} {f : HostFile} (hf : Fits f)
    (h : Placed flash p (entry compress compression f)) : EntryAt compress compression flash p f := by
  have hsize : (espFsHeader.enc (headerOf compress compression f)).length = headerSize :=
    espFsHeader.length_enc _
  have hwidth : ((realName f.fileName).take (nameSize f)).length = nameSize f :=
    List.length_take_of_le hf.readable
  unfold entry at h
  rw [placed_append, placed_append, placed_append, hsize, hwidth] at h
  obtain ⟨hheader, hwritten, hdata, -⟩ := h
  refine ⟨hheader, fun stack => ?_, hdata⟩
  -- the name and its NUL
  have hle : (nameOf f).length + 1 ≤ nameSize f := le_roundUp _
  have hzero : (0 : Byte) ∈ (realName f.fileName).take ((nameOf f).length + 1) := by
    have hreadable := hf.readable
    unfold nameOf at hle ⊢
    exact zero_mem_take (by omega)
  have hshort : ((realName f.fileName).take ((nameOf f).length + 1)).length ≤ 256 := by
    have := hf.short
    rw [List.length_take]
    omega
  obtain ⟨rest, hrest⟩ : (realName f.fileName).take ((nameOf f).length + 1) <+:
      (realName f.fileName).take (nameSize f) := List.take_prefix_take_left hle
  rw [← hrest, placed_append] at hwritten
  have hslice := hwritten.1.prefix_slice hshort
  have hname : cstr (realName f.fileName) = cstr ((realName f.fileName).take ((nameOf f).length + 1)) :=
    cstr_of_prefix hzero (List.take_prefix _ _)
  rw [cstr_append_of_mem (hslice.subset hzero), cstr_of_prefix hzero hslice]
  exact hname.symm

theorem EntryAt.dec {compress compression} {flash : Mem} {p : ℤ} {f : HostFile}
    (h : EntryAt compress compression flash p f) :
    espFsHeader.dec (flash.slice p headerSize) = headerOf compress compression f := by
  have hheader := h.header
  unfold Placed at hheader
  rw [espFsHeader.length_enc] at hheader
  change flash.slice p headerSize = _ at hheader
  rw [hheader, espFsHeader.dec_enc_self]

theorem length_entry {f : HostFile} (hf : Fits f) : (entry compress compression f).length =
    headerSize + nameSize f + roundUp (cdat compress compression f).length := by
  have hsize : (espFsHeader.enc (headerOf compress compression f)).length = headerSize :=
    espFsHeader.length_enc _
  have hle := le_roundUp (cdat compress compression f).length
  unfold entry
  rw [List.length_append, List.length_append, List.length_append, hsize, List.length_take_of_le hf.readable,
    List.length_replicate]
  omega

/-! ### The header -/

section Header

variable {f : HostFile} (hf : Fits f)
include hf

theorem toInt_nameLen : (headerOf compress compression f).nameLen.toInt = nameSize f := by
  have hle := roundUp_le ((nameOf f).length + 1)
  have hshort := hf.short
  have hsize : nameSize f < 2 ^ 15 := by
    unfold nameSize
    omega
  exact Int16.toInt_ofNat_of_lt hsize

theorem toInt_fileLenComp : (headerOf compress compression f).fileLenComp.toInt =
    (cdat compress compression f).length := by
  have hle := length_cdat_le compress compression f
  have hsmall := hf.small
  exact Int32.toInt_ofNat_of_lt (by omega)

end Header

/-! ### The search -/

/-- The first file with the name that is in the image. -/
def lookup (files : List HostFile) (name : Bytes) : Option HostFile :=
  files.find? fun f => f.data ≠ [] ∧ nameOf f = name

theorem lookup_cons (f : HostFile) (files : List HostFile) (name : Bytes) :
    lookup (f :: files) name = if f.data ≠ [] ∧ nameOf f = name then some f else lookup files name := by
  unfold lookup
  rw [List.find?_cons]
  by_cases h : f.data ≠ [] ∧ nameOf f = name
  · rw [if_pos h, decide_eq_true h]
  · rw [if_neg h, decide_eq_false h]

/-- What `espFsOpen` returns for the file at `p`. -/
def opened (p : ℤ) (f : HostFile) : Option EspFsFile :=
  if (storedAs compress compression f.data).1 = compressNone then
    some { header := p, decompressor := compressNone, posDecomp := 0, posStart := p + headerSize + nameSize f,
           posComp := p + headerSize + nameSize f }
  else none

section Search

variable {compress compression} {flash : Mem} {p : ℤ} (stack name : Bytes)

/-- **One pass of the loop**, at a file. -/
theorem findFile_entry {f : HostFile} (hf : Fits f) (hp : p % 4 = 0)
    (h : EntryAt compress compression flash p f) (fuel : ℕ) :
    findFile flash stack true name (fuel + 1) p =
      if nameOf f = name then some (opened compress compression p f)
      else findFile flash stack true name fuel (p + (entry compress compression f).length) := by
  have hnext : ∀ q : ℤ, q = p + headerSize + (nameSize f + (cdat compress compression f).length) →
      (if q % 4 ≠ 0 then q + (4 - q % 4) else q) = p + (entry compress compression f).length := by
    intro q hq
    have hname : nameSize f % 4 = 0 := roundUp_mod _
    rw [length_entry compress compression hf, hq]
    unfold roundUp headerSize
    split <;> split <;> omega
  have hmagic : (headerOf compress compression f).magic = espFsMagic := rfl
  have hflags : ¬ (headerOf compress compression f).flags &&& flagLastfile ≠ 0 := by
    show ¬ (0 : Int8) &&& flagLastfile ≠ 0
    decide
  rw [findFile]
  dsimp only
  rw [h.dec, if_neg (not_not.2 hmagic), if_neg hflags, h.name stack,
    toInt_nameLen compress compression hf, toInt_fileLenComp compress compression hf, hnext _ rfl]
  by_cases hname : nameOf f = name
  · rw [if_pos hname, if_pos hname, if_pos rfl]
    unfold opened
    by_cases hplain : (storedAs compress compression f.data).1 = compressNone
    · have hcompression : (headerOf compress compression f).compression = compressNone := hplain
      rw [if_pos hplain, hcompression, if_pos rfl]
    · have hcompression : (headerOf compress compression f).compression ≠ compressNone := hplain
      rw [if_neg hplain, if_neg hcompression]
  · rw [if_neg hname, if_neg hname]

theorem findFile_last (h : Placed flash p finishArchive) (fuel : ℕ) :
    findFile flash stack true name (fuel + 1) p = some none := by
  have hheader : flash.slice p headerSize = finishArchive := h
  rw [findFile]
  dsimp only
  rw [hheader, if_neg (by decide), if_pos (by decide)]

/-- **The search finds the first file with the name**, and ends. -/
theorem findFile_placed {files : List HostFile} (hfits : ∀ f ∈ files, Fits f) (hp : p % 4 = 0)
    (h : Placed flash p (mkespfsimage compress compression files)) {fuel : ℕ} (hfuel : files.length < fuel) :
    ∃ res, findFile flash stack true name fuel p = some res ∧
      match lookup files name with
      | none => res = none
      | some f => ∃ q, q % 4 = 0 ∧ EntryAt compress compression flash q f ∧
          res = opened compress compression q f := by
  induction files generalizing p fuel with
  | nil =>
    obtain ⟨fuel, rfl⟩ := Nat.exists_eq_succ_of_ne_zero (Nat.ne_of_gt hfuel)
    exact ⟨none, findFile_last stack name h fuel, rfl⟩
  | cons f files ih =>
    have hf : Fits f := hfits f List.mem_cons_self
    have hrest : ∀ g ∈ files, Fits g := fun g hg => hfits g (List.mem_cons_of_mem f hg)
    rw [List.length_cons] at hfuel
    unfold mkespfsimage at h
    rw [List.flatMap_cons, List.append_assoc, handleFile_eq] at h
    by_cases hdata : f.data = []
    · -- an empty file is not there
      rw [if_pos hdata, List.nil_append] at h
      rw [lookup_cons, if_neg fun hfound => hfound.1 hdata]
      exact ih hrest hp h (by omega)
    · rw [if_neg hdata, placed_append] at h
      obtain ⟨hentry, hnext⟩ := h
      have hat := entryAt_of_placed compress compression hf hentry
      obtain ⟨fuel, rfl⟩ := Nat.exists_eq_succ_of_ne_zero (Nat.ne_of_gt (Nat.zero_lt_of_lt hfuel))
      rw [Nat.succ_eq_add_one, findFile_entry stack name hf hp hat fuel]
      by_cases hname : nameOf f = name
      · rw [if_pos hname, lookup_cons, if_pos ⟨hdata, hname⟩]
        exact ⟨_, rfl, p, hp, hat, rfl⟩
      · have halign : (p + (entry compress compression f).length) % 4 = 0 := by
          have hsize : nameSize f % 4 = 0 := roundUp_mod _
          have hpad := roundUp_mod (cdat compress compression f).length
          rw [length_entry compress compression hf]
          unfold headerSize
          omega
        rw [if_neg hname, lookup_cons, if_neg fun hfound => hname hfound.2]
        exact ih hrest halign hnext (by omega)

end Search

end Image

end Esp8266Rest.EspFs
