import Esp8266Rest.Lib.NorFlash
import Esp8266Rest.Config.Image
import Esp8266Rest.Config.Saved

/-!
# Power loss within a save

`flash_write` erases the sector and programs the record word by word from the front, the magic number
first.  So a save that is cut short behind its first word leaves a record that the next boot accepts,
although all behind the last word written is erased (`untorn_iff`).
-/

namespace Esp8266Rest.Config

open Esp8266Rest.Lib.CStr Esp8266Rest.Lib.Runs Esp8266Rest.Lib.Stored Esp8266Rest.Lib.NorFlash
  Esp8266Rest.Model

/-- The operations of `spi_flash_erase_sector` and `spi_flash_write` on the record. -/
def save (f : FlashData) : List Lib.NorFlash.Op := saveOps 4 256 f.bytes

/-- What the sector holds when the power is lost behind `j` operations of saving `new` over `old`. -/
def cutShort (old new : FlashData) (j : ℕ) : FlashData :=
  Image.record (run Lib.NorFlash.step old.bytes ((save new).take j))

lemma cutShort_zero (old new : FlashData) : cutShort old new 0 = old := Image.record_bytes old

theorem cutShort_succ (old new : FlashData) (k : ℕ) :
    cutShort old new (k + 1) = Image.record (torn new.bytes (4 * k)) := by
  have hlen : old.bytes.length = new.bytes.length := by
    rw [length_flashDataBytes, length_flashDataBytes]
  have hwords : new.bytes.length = 4 * 256 := length_flashDataBytes new
  unfold cutShort save
  rw [run_saveOps hlen hwords]

/-- **A save that is not cut short** is `flash_write`. -/
theorem cutShort_all (r : Rest) :
    cutShort r.board.flash r.board.flashData 257 = (flashWrite r).board.flash := by
  rw [cutShort_succ, torn_of_le (length_flashDataBytes _).le]
  exact Image.record_bytes _

/-! ### The next boot -/

/-- The next boot takes the record in the sector for the configuration `f`. -/
def Accepts (image f : FlashData) : Prop :=
  image.magic = magicNum ∧ copies (userInit image).rest.board = ⟨adapted f, f⟩

/-- The next boot finds no magic number and falls back to `initFlash`. -/
def Rejects (image : FlashData) : Prop :=
  image.magic ≠ magicNum ∧ copies (userInit image).rest.board = ⟨initFlash image, initFlash image⟩

theorem accepts_iff {image f : FlashData} : Accepts image f ↔ image = f ∧ f.magic = magicNum := by
  unfold Accepts
  rw [userInit_copies image image]
  constructor
  · rintro ⟨hm, h⟩
    have hv : loader.valid image = true := decide_eq_true hm
    unfold Loader.reload at h
    rw [if_pos hv, Copies.mk.injEq] at h
    obtain ⟨-, rfl⟩ := h
    exact ⟨rfl, hm⟩
  · rintro ⟨rfl, hm⟩
    have hv : loader.valid image = true := decide_eq_true hm
    refine ⟨hm, ?_⟩
    unfold Loader.reload
    rw [if_pos hv]
    rfl

theorem rejects_iff {image : FlashData} : Rejects image ↔ image.magic ≠ magicNum := by
  refine and_iff_left_of_imp fun hm => ?_
  have hv : ¬ loader.valid image = true := by simpa [loader] using hm
  rw [userInit_copies image image, Loader.reload, if_neg hv]
  rfl

/-- The boot behind `j` operations of the save takes the whole old configuration, the whole new one, or
none. -/
def Untorn (old new : FlashData) (j : ℕ) : Prop :=
  Accepts (cutShort old new j) old ∨ Accepts (cutShort old new j) new ∨ Rejects (cutShort old new j)

/-- All behind the first `m` bytes of the image is erased. -/
def ErasedFrom (f : FlashData) (m : ℕ) : Prop := ∀ b ∈ f.bytes.drop m, b = 255

/-- Behind `j` operations: nothing of the new magic number is written, or there is none, or only erased
bytes are missing of the new record, or the sector holds the old record again. -/
def NothingMissing (old new : FlashData) : ℕ → Prop
  | 0 => True
  | k + 1 => k = 0 ∨ new.magic ≠ magicNum ∨ ErasedFrom new (4 * k) ∨
      old.bytes.take (4 * k) = new.bytes.take (4 * k) ∧ ErasedFrom old (4 * k)

theorem magic_blank (n : ℕ) (hn : 4 ≤ n) : (Image.record (blank n)).magic ≠ magicNum := by
  obtain ⟨m, rfl⟩ : ∃ m, n = m + 4 := ⟨n - 4, by omega⟩
  have h : Image.int.dec (blank (m + 4)) = -1 := Image.int.dec_enc (-1) (blank m)
  rw [Image.record_magic, h]
  decide

theorem magic_torn (f : FlashData) {k : ℕ} (hk : k ≠ 0) :
    (Image.record (torn f.bytes (4 * k))).magic = f.magic := by
  obtain ⟨i, rfl⟩ := Nat.exists_eq_succ_of_ne_zero hk
  have h4 : 4 * (i + 1) = 4 + 4 * i := by omega
  rw [torn, h4, List.take_add, List.append_assoc]
  exact Image.magic_of_take f _

theorem record_torn_eq_iff {new f : FlashData} {m : ℕ} :
    Image.record (torn new.bytes m) = f ↔ f.bytes.take m = new.bytes.take m ∧ ErasedFrom f m := by
  have hlen : (torn new.bytes m).length = 1024 := (length_torn _ _).trans (length_flashDataBytes new)
  have hlen' : f.bytes.length = new.bytes.length := by
    rw [length_flashDataBytes, length_flashDataBytes]
  rw [Image.record_eq_iff hlen, torn_eq_iff hlen']
  rfl

/-- **A torn save is taken for a configuration** exactly when the magic number is written and something of
the record is missing. -/
theorem untorn_iff (old new : FlashData) (j : ℕ) : Untorn old new j ↔ NothingMissing old new j := by
  unfold Untorn
  rw [accepts_iff, accepts_iff, rejects_iff]
  cases j with
  | zero =>
    rw [cutShort_zero]
    refine iff_of_true ?_ trivial
    by_cases hm : old.magic = magicNum
    · exact .inl ⟨rfl, hm⟩
    · exact .inr (.inr hm)
  | succ k =>
    rw [cutShort_succ, NothingMissing]
    by_cases hk : k = 0
    · subst hk
      rw [Nat.mul_zero, torn_zero]
      refine iff_of_true (.inr (.inr (magic_blank _ ?_))) (.inl rfl)
      rw [length_flashDataBytes]
      decide
    · rw [magic_torn new hk, record_torn_eq_iff, record_torn_eq_iff]
      constructor
      · rintro (⟨h, -⟩ | ⟨h, -⟩ | hm)
        · exact .inr (.inr (.inr h))
        · exact .inr (.inr (.inl h.2))
        · exact .inr (.inl hm)
      · rintro (h | hm | h | h)
        · exact absurd h hk
        · exact .inr (.inr hm)
        · by_cases hm : new.magic = magicNum
          · exact .inr (.inl ⟨⟨rfl, h⟩, hm⟩)
          · exact .inr (.inr hm)
        · by_cases hm : new.magic = magicNum
          · have hsame : Image.record (torn new.bytes (4 * k)) = old := record_torn_eq_iff.2 h
            have hold : old.magic = magicNum := by rw [← hsame, magic_torn new hk, hm]
            exact .inl ⟨h, hold⟩
          · exact .inr (.inr hm)

/-- **The magic number alone**: the record of a fresh device is saved over itself and the power is lost
behind the first word. -/
theorem not_untorn_first_word : ¬ Untorn (initFlash .zero) (initFlash .zero) 2 := by
  have hmissing : ¬ ErasedFrom (initFlash .zero) 4 := by
    intro h
    have hssid : 0 ∈ (initFlash .zero).ssid.toList := by decide
    exact absurd (h 0 ((ssid_at _).subset hssid)) (by decide)
  unfold Untorn
  rw [accepts_iff, rejects_iff, cutShort_succ, magic_torn _ one_ne_zero, record_torn_eq_iff, or_self_left]
  rintro (⟨h, -⟩ | h)
  · exact hmissing h.2
  · exact h rfl

end Esp8266Rest.Config
