import Esp8266Rest.Config.Saved

/-!
# The first start of a device

A sector without the magic number is no configuration.  `initFlash` then sets two ports, the zone and the
server port in the record as it was read, and the rest of the record stays what the sector held; the
credentials handed to the SDK are taken from it too.  So the device starts with clean defaults exactly when
the sector already holds them (`cleanBoot_iff`).
-/

namespace Esp8266Rest.Config

open Esp8266Rest.Lib.CStr Esp8266Rest.Lib.Stored Esp8266Rest.Model

/-! ### The configured values -/

/-- An event without its padding. -/
def bare (e : PowerEvent) : PowerEvent := { e with padding := .replicate 3 0 }

/-- The configured values of a record: all but its padding. -/
def config (f : FlashData) : FlashData :=
  { f with powerEvents := f.powerEvents.map bare, settings := .replicate 412 0 }

/-! ### A start without a configuration -/

theorem userInit_of_bad {image : FlashData} (h : image.magic ≠ magicNum) :
    copies (userInit image).rest.board = ⟨initFlash image, initFlash image⟩ ∧
    (userInit image).stationConf =
      { StationConfig.zero with ssid := image.ssid, password := image.password } := by
  have hbad : loader.valid image = false := by simpa [loader] using h
  have hc := userInit_copies image image
  unfold Loader.reload at hc
  rw [hbad] at hc
  rw [if_neg Bool.false_ne_true] at hc
  have hram : (userInit image).rest.board.flashData = initFlash image := (copies_eq_iff.1 hc).1
  refine ⟨hc, ?_⟩
  rw [userInit_eq] at hram ⊢
  dsimp only at hram ⊢
  rw [hram]
  rfl

/-- **Clean defaults** after a start with `f` in the flash: they do not depend on what else the sector
holds (here in place of it `g`), no event is active, the names are terminated, and the credentials are
the built-in ones. -/
structure CleanBoot (f g : FlashData) : Prop where
  ram : config (userInit f).rest.board.flashData = config (userInit g).rest.board.flashData
  flash : config (userInit f).rest.board.flash = config (userInit g).rest.board.flash
  inactive : ∀ e ∈ (userInit f).rest.board.flashData.powerEvents.toList, e.active = 0
  names : ∀ p : Fin 8, 0 ∈ ((userInit f).rest.board.flashData.ports.get p).portName.toList
  ssid : cstr (userInit f).stationConf.ssid.toList = ssidDefault
  password : cstr (userInit f).stationConf.password.toList = ssidPassword

/-- The sector `f` holds the defaults that `initFlash` does not set, and agrees with `g` on all of it. -/
structure CleanImage (f g : FlashData) : Prop where
  same : f.ssid = g.ssid ∧ f.password = g.password ∧
    f.powerEvents.map bare = g.powerEvents.map bare ∧
    ∀ p : Fin 8, 2 ≤ (p : ℕ) → f.ports.get p = g.ports.get p
  inactive : ∀ e ∈ f.powerEvents.toList, e.active = 0
  names : ∀ p : Fin 8, 2 ≤ (p : ℕ) → 0 ∈ (f.ports.get p).portName.toList
  ssid : cstr f.ssid.toList = ssidDefault
  password : cstr f.password.toList = ssidPassword

theorem initFlash_ports (f : FlashData) (p : Fin 8) : (initFlash f).ports.get p =
    if (p : ℕ) = 0 then ⟨5, portOutput, portName (ascii "output1")⟩
    else if (p : ℕ) = 1 then ⟨0, portOutput, portName (ascii "output2")⟩
    else f.ports.get p := by
  obtain ⟨i, hi⟩ := p
  simp only [initFlash, get_eq_getElem, Fin.getElem_fin]
  rw [Vector.getElem_set, Vector.getElem_set]
  by_cases h1 : i = 1
  · simp [h1]
  · by_cases h0 : i = 0
    · simp [h0]
    · simp [h0, h1, Ne.symm h0, Ne.symm h1]

/-- What `initFlash` leaves open. -/
theorem config_initFlash_iff (f g : FlashData) : config (initFlash f) = config (initFlash g) ↔
    f.ssid = g.ssid ∧ f.password = g.password ∧ f.powerEvents.map bare = g.powerEvents.map bare ∧
      ∀ p : Fin 8, 2 ≤ (p : ℕ) → f.ports.get p = g.ports.get p := by
  have hports : (initFlash f).ports = (initFlash g).ports ↔
      ∀ p : Fin 8, 2 ≤ (p : ℕ) → f.ports.get p = g.ports.get p := by
    constructor
    · intro h p hp
      have hget := congrArg (fun v : Vector PortInfo 8 => v.get p) h
      simp only [initFlash_ports] at hget
      rwa [if_neg (by omega), if_neg (by omega), if_neg (by omega), if_neg (by omega)] at hget
    · intro h
      refine Vector.ext fun i hi => ?_
      change (initFlash f).ports.get ⟨i, hi⟩ = (initFlash g).ports.get ⟨i, hi⟩
      rw [initFlash_ports, initFlash_ports]
      by_cases h2 : 2 ≤ i
      · rw [h ⟨i, hi⟩ h2]
      · by_cases h0 : i = 0
        · simp [h0]
        · have h1 : i = 1 := by omega
          simp [h1]
  rw [← hports]
  constructor
  · intro h
    have hs : (config (initFlash f)).ssid = (config (initFlash g)).ssid := by rw [h]
    have hw : (config (initFlash f)).password = (config (initFlash g)).password := by rw [h]
    have he : (config (initFlash f)).powerEvents = (config (initFlash g)).powerEvents := by rw [h]
    have hp : (config (initFlash f)).ports = (config (initFlash g)).ports := by rw [h]
    exact ⟨hs, hw, he, hp⟩
  · rintro ⟨hs, hw, he, hp⟩
    have he' : (initFlash f).powerEvents.map bare = (initFlash g).powerEvents.map bare := he
    have hs' : (initFlash f).ssid = (initFlash g).ssid := hs
    have hw' : (initFlash f).password = (initFlash g).password := hw
    unfold config
    rw [he', hp, hs', hw']
    rfl

theorem initFlash_names_iff (f : FlashData) :
    (∀ p : Fin 8, 0 ∈ ((initFlash f).ports.get p).portName.toList) ↔
      ∀ p : Fin 8, 2 ≤ (p : ℕ) → 0 ∈ (f.ports.get p).portName.toList := by
  refine forall_congr' fun p => ?_
  rw [initFlash_ports]
  by_cases h0 : (p : ℕ) = 0
  · rw [if_pos h0]
    exact iff_of_true (by decide) fun h => by omega
  · by_cases h1 : (p : ℕ) = 1
    · rw [if_neg h0, if_pos h1]
      exact iff_of_true (by decide) fun h => by omega
    · rw [if_neg h0, if_neg h1]
      exact ⟨fun h _ => h, fun h => h (by omega)⟩

/-- **A device without a configuration starts clean** exactly when its sector already holds the defaults
that `initFlash` does not set. -/
theorem cleanBoot_iff {f g : FlashData} (hf : f.magic ≠ magicNum) (hg : g.magic ≠ magicNum) :
    CleanBoot f g ↔ CleanImage f g := by
  obtain ⟨hfc, hfs⟩ := userInit_of_bad hf
  obtain ⟨hgc, -⟩ := userInit_of_bad hg
  obtain ⟨hfram, hfflash⟩ := copies_eq_iff.1 hfc
  obtain ⟨hgram, hgflash⟩ := copies_eq_iff.1 hgc
  constructor
  · rintro ⟨ha, -, he, hn, hs, hw⟩
    rw [hfram, hgram, config_initFlash_iff] at ha
    rw [hfram] at he hn
    rw [hfs] at hs hw
    exact ⟨ha, he, (initFlash_names_iff f).1 hn, hs, hw⟩
  · rintro ⟨ha, he, hn, hs, hw⟩
    have hconfig := (config_initFlash_iff f g).2 ha
    refine ⟨by rwa [hfram, hgram], by rwa [hfflash, hgflash], ?_, ?_, ?_, ?_⟩
    · rw [hfram]
      exact he
    · rw [hfram]
      exact (initFlash_names_iff f).2 hn
    · rw [hfs]
      exact hs
    · rw [hfs]
      exact hw

/-! ### Two sectors -/

/-- A record of zeros but for the built-in credentials. -/
def withCredentials : FlashData :=
  { FlashData.zero with
    ssid := bytesToVector 32 ssidDefault, password := bytesToVector 64 ssidPassword }

/-- The same credentials in a sector with other settings, other padding and another port `0`. -/
def otherSettings : FlashData :=
  { withCredentials with
    magic := -1, serverPort := 8080, sntp := 5, settings := .replicate 412 255,
    powerEvents := .replicate 10 { PowerEvent.zero with padding := .replicate 3 255 },
    ports := modifyAt withCredentials.ports 0 fun _ => ⟨4, 1, .replicate 20 255⟩ }

/-- With the built-in credentials in the sector the device starts clean. -/
theorem cleanBoot_credentials : CleanBoot withCredentials otherSettings := by
  refine (cleanBoot_iff (by decide) (by decide)).2 ⟨⟨rfl, rfl, ?_, ?_⟩, ?_, ?_, ?_, ?_⟩
  · show (Vector.replicate 10 PowerEvent.zero).map bare = (Vector.replicate 10 _).map bare
    rw [Vector.map_replicate, Vector.map_replicate]
    rfl
  · decide
  · decide
  · decide
  · decide
  · decide

/-- A sector after `spi_flash_erase_sector`: all bits set. -/
def erased : FlashData :=
  { magic := -1, ssid := .replicate 32 255, password := .replicate 64 255,
    powerEvents := .replicate 10 ⟨⟨-1, -1⟩, ⟨-1, -1⟩, -1, -1, 255, .replicate 3 255⟩,
    ports := .replicate 8 ⟨-1, -1, .replicate 20 255⟩, sntp := -1, serverPort := -1,
    settings := .replicate 412 255 }

/-- **An erased sector** gives a device with all its events active. -/
theorem not_cleanBoot_erased : ¬ CleanBoot erased erased := by
  intro h
  have hbad : erased.magic ≠ magicNum := by decide
  have hram := (copies_eq_iff.1 (userInit_of_bad hbad).1).1
  have he := h.inactive
  rw [hram] at he
  have hmem : (⟨⟨-1, -1⟩, ⟨-1, -1⟩, -1, -1, 255, .replicate 3 255⟩ : PowerEvent) ∈
      (initFlash erased).powerEvents.toList := by decide
  exact absurd (he _ hmem) (by decide)

end Esp8266Rest.Config
