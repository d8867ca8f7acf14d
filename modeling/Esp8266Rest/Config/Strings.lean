import Mathlib.Data.List.GetD
import Esp8266Rest.Config.Boot
import Esp8266Rest.Config.Image
import Esp8266Rest.Outputs.Bounds

/-!
# The strings of the record stay terminated

`doSetWifi` copies 32 and 64 bytes of its buffers and `doSetPorts` at most 20 of a name, so each drops the
NUL of a text that fills its array.  `ownStrings_iff`: the strings stay terminated throughout a run, and
nothing is written outside an array, exactly if all texts are shorter than their arrays and all indices in
range.
-/

namespace Esp8266Rest.Config

open Esp8266Rest.Lib.CStr Esp8266Rest.Lib.Runs Esp8266Rest.Lib.Stored Esp8266Rest.Model
  Esp8266Rest.Url Esp8266Rest.Outputs

/-! ### Arrays of characters -/

theorem getD_ne_zero {m : Bytes} {i : ℕ} (h : i < (cstr m).length) : m.getD i 0 ≠ 0 := by
  have hget : m.getD i 0 = (cstr m)[i] := by
    rw [List.getD_eq_getElem _ _ (h.trans_le (length_cstr_le m))]
    exact ((cstr_prefix_self m).getElem h).symm
  intro h0
  have hmem : (0 : Byte) ∈ cstr m := by
    rw [← h0, hget]
    exact List.getElem_mem h
  exact zero_notMem_cstr m hmem

theorem getD_length_cstr (m : Bytes) : m.getD (cstr m).length 0 = 0 := by
  induction m with
  | nil => rfl
  | cons b m ih =>
    by_cases hb : b = 0
    · subst hb
      rfl
    · rw [cstr_cons_ne hb]
      simpa using ih

/-- An array holds a NUL exactly if the string of the memory it is taken from is shorter. -/
theorem zero_mem_bytesToVector_iff {n : ℕ} {m : Bytes} :
    0 ∈ (bytesToVector n m).toList ↔ (cstr m).length < n := by
  have hmem : 0 ∈ (bytesToVector n m).toList ↔ ∃ i : Fin n, m.getD i 0 = 0 := by
    simp [bytesToVector]
  rw [hmem]
  constructor
  · rintro ⟨i, hi⟩
    have hle : (cstr m).length ≤ i := by
      by_contra hlt
      exact getD_ne_zero (by omega) hi
    omega
  · intro h
    exact ⟨⟨_, h⟩, getD_length_cstr m⟩

theorem cstr_strncpy {n : ℕ} {t : Bytes} (h : (0 : Byte) ∉ t) : cstr (strncpy n t) = t.take n := by
  have htake : (0 : Byte) ∉ t.take n := fun h0 => h (List.mem_of_mem_take h0)
  unfold strncpy
  rw [cstr_append htake]
  cases n - t.length with
  | zero => simp
  | succ k => rw [List.replicate_succ, cstr_cons_zero, List.append_nil]

theorem zero_mem_portName_iff {t : Bytes} (h : (0 : Byte) ∉ t) :
    0 ∈ (portName t).toList ↔ t.length < 20 := by
  rw [portName, zero_mem_bytesToVector_iff, cstr_strncpy h, List.length_take]
  omega

theorem bytesToVector_toList {n : ℕ} {m : Bytes} (h : m.length = n) : (bytesToVector n m).toList = m := by
  subst h
  refine List.ext_getElem (by simp) fun i h1 h2 => ?_
  simp [bytesToVector]

theorem length_strncpy (n : ℕ) (t : Bytes) : (strncpy n t).length = n := by
  unfold strncpy
  rw [List.length_append, List.length_take, List.length_replicate]
  omega

theorem cstr_portName {t : Bytes} (h : (0 : Byte) ∉ t) (hlen : t.length < 20) :
    cstr (portName t).toList = t := by
  rw [portName, bytesToVector_toList (length_strncpy 20 t), cstr_strncpy h]
  exact List.take_of_length_le hlen.le

/-! ### The operations -/

section Operations

variable {conn : Conn} {f : FlashData}

theorem terminated_adapted (h : Terminated f) : Terminated (adapted f) := by
  unfold adapted
  split
  · exact ⟨h.ssid, h.password, h.portName⟩
  · exact h

lemma terminated_initFlash (h : Terminated f) : Terminated (initFlash f) :=
  ⟨h.ssid, h.password, (initFlash_names_iff f).2 fun p _ => h.portName p⟩

theorem terminated_initialized (h : Terminated f) : Terminated (initialized f) := by
  have hnames : ∀ p : Fin 8, 0 ∈ (portName (ascii "Output" ++ decimal (p : ℕ))).toList := by decide
  refine ⟨h.ssid, h.password, fun p => ?_⟩
  have hget : ((initialized f).ports.get p).portName = portName (ascii "Output" ++ decimal (p : ℕ)) := by
    simp [initialized, get_eq_getElem]
  rw [hget]
  exact hnames p

theorem terminated_setWifi_iff (h : Terminated f) : Terminated (setWifi conn f) ↔
    (field conn.url 2).length < 32 ∧ (field conn.url 3).length < 64 := by
  have hstr : ∀ (dst : Buffer) (k : ℕ), cstr (getValue dst conn.url slash k).param.mem = field conn.url k :=
    fun dst k => getValue_str dst conn.url slash k
  have hssid : 0 ∈ (setWifi conn f).ssid.toList ↔ (field conn.url 2).length < 32 := by
    rw [← hstr (conn.buffer 0 120)]
    exact zero_mem_bytesToVector_iff
  have hpassword : 0 ∈ (setWifi conn f).password.toList ↔ (field conn.url 3).length < 64 := by
    rw [← hstr (conn.buffer 1 120)]
    exact zero_mem_bytesToVector_iff
  rw [← hssid, ← hpassword]
  exact ⟨fun ht => ⟨ht.ssid, ht.password⟩, fun ht => ⟨ht.1, ht.2, h.portName⟩⟩

theorem terminated_namePort_iff (h : Terminated f) {n : Int32} {p : Fin 8} (hp : slot? 8 n = some p) :
    Terminated { f with ports := modifyAt f.ports n (namePort conn.url) } ↔
      (field conn.url 3).length < 20 := by
  have hmod : modifyAt f.ports n (namePort conn.url) =
      setAt f.ports p (namePort conn.url (f.ports.get p)) := by
    simp only [modifyAt, hp]
  have hname : 0 ∈ (namePort conn.url (f.ports.get p)).portName.toList ↔
      (field conn.url 3).length < 20 := zero_mem_portName_iff (zero_notMem_piece conn.url slash 3)
  rw [hmod, ← hname]
  constructor
  · intro ht
    have := ht.portName p
    rwa [get_setAt_self] at this
  · intro h0
    refine ⟨h.ssid, h.password, fun q => ?_⟩
    rw [get_setAt]
    by_cases hq : q = p
    · rw [if_pos hq]
      exact h0
    · rw [if_neg hq]
      exact h.portName q

end Operations

/-- The texts that a command stores are shorter than their arrays. -/
def TextsFit (name u : Bytes) : Prop :=
  (name = ascii "setwifi" → (field u 2).length < 32 ∧ (field u 3).length < 64) ∧
  (name = ascii "portinfo" → (field u 3).length < 20)

lemma textsFit_of_ne {name u : Bytes} (hs : name ≠ ascii "setwifi") (hp : name ≠ ascii "portinfo") :
    TextsFit name u := ⟨fun h => absurd h hs, fun h => absurd h hp⟩

/-- The strings of both copies are terminated. -/
structure BothTerminated (c : Copies FlashData) : Prop where
  ram : Terminated c.ram
  stored : Terminated c.stored

theorem terminated_ifGiven {c : Copies FlashData} {g : FlashData → FlashData} (u : Bytes)
    (h : Terminated c.ram) (hg : Terminated (g c.ram)) :
    Terminated (loader.step c (.edit (ifGiven u g))).ram := by
  by_cases hu : field u 2 = []
  · simpa only [Loader.step, ifGiven, if_pos hu] using h
  · simpa only [Loader.step, ifGiven, if_neg hu] using hg

/-- **Every operation** keeps the strings of the record terminated exactly if its texts fit. -/
theorem terminated_op_iff {c : Copies FlashData} (h : BothTerminated c) (conn : Conn) :
    ∀ entry ∈ opTable, IndexOk entry.1 conn.url →
      (Terminated (loader.step c (entry.2 conn)).ram ↔ TextsFit entry.1 conn.url) := by
  obtain ⟨hram, hstored⟩ := h
  have hother : ∀ {name : Bytes} {f : FlashData}, name ≠ ascii "setwifi" → name ≠ ascii "portinfo" →
      Terminated f → (Terminated f ↔ TextsFit name conn.url) :=
    fun hs hp hf => iff_of_true hf (textsFit_of_ne hs hp)
  simp only [opTable, List.forall_mem_cons, List.not_mem_nil, false_implies, implies_true, and_true]
  refine ⟨?_, ?_, ?_, ?_, ?_, ?_, ?_⟩ <;> intro hidx
  · refine (terminated_setWifi_iff hram).trans
      ⟨fun ht => ⟨fun _ => ht, fun he => ?_⟩, fun ht => ht.1 rfl⟩
    exact absurd he (by decide)
  · refine hother (by decide) (by decide) ?_
    change Terminated (loader.reload c).ram
    unfold Loader.reload
    split
    · exact terminated_adapted hstored
    · exact terminated_initFlash hstored
  · exact hother (by decide) (by decide) ⟨hram.ssid, hram.password, hram.portName⟩
  · rw [indexOk_of_some (n := numOfPorts) rfl] at hidx
    obtain ⟨p, hp⟩ := isPort_iff.1 hidx
    refine (terminated_namePort_iff hram hp).trans
      ⟨fun ht => ⟨fun he => ?_, fun _ => ht⟩, fun ht => ht.2 rfl⟩
    exact absurd he (by decide)
  · exact hother (by decide) (by decide) (terminated_initialized hram)
  all_goals
    refine hother (by decide) (by decide) (terminated_ifGiven _ hram ?_)
    exact ⟨hram.ssid, hram.password, hram.portName⟩

theorem terminated_stored {c : Copies FlashData} (h : Terminated c.stored) {op : Op FlashData}
    (hram : Terminated (loader.step c op).ram) : Terminated (loader.step c op).stored := by
  cases op with
  | reload =>
    change Terminated (loader.reload c).stored
    unfold Loader.reload
    split
    · exact h
    · exact terminated_initFlash h
  | edit f =>
    unfold Loader.step at hram ⊢
    cases hf : f c.ram with
    | none => simpa only [hf] using h
    | some a => simpa only [hf] using hram

/-! ### Runs -/

/-- The strings of the record are terminated in RAM and in flash, and every `%s` reads its own array. -/
structure OwnStrings (b : Board) : Prop where
  ram : Terminated b.flashData
  flash : Terminated b.flash
  readsOwn : ReadsOwn b.flashData

/-- A request stores no text that fills its array. -/
def Fits : Event → Prop
  | .request conn => TextsFit (command conn.url) conn.url
  | _ => True

section Steps

variable {r : Rest}

theorem terminated_event_iff (h : BothTerminated (copies r.board)) {e : Event} (hidx : Indexes e) :
    Terminated (step r e).board.flashData ↔ Fits e := by
  have hstep : Terminated (step r e).board.flashData ↔
      Terminated (run loader.step (copies r.board) (opsOf e)).ram := by
    rw [← copies_step]
    rfl
  rw [hstep]
  rcases opsOf_cases e with ⟨hops, hnone⟩ | ⟨conn, entry, hmem, rfl, hname, hops⟩
  · rw [hops]
    refine iff_of_true h.ram ?_
    rcases e with conn | ⟨t, tz⟩ | _
    · have hlookup := hnone conn rfl
      refine textsFit_of_ne ?_ ?_
      · intro hname
        rw [hname] at hlookup
        cases hlookup
      · intro hname
        rw [hname] at hlookup
        cases hlookup
    · trivial
    · trivial
  · have hentry : IndexOk entry.1 conn.url := hname ▸ hidx
    rw [hops, Fits, hname]
    exact terminated_op_iff h conn entry hmem hentry

theorem bothTerminated_step (h : BothTerminated (copies r.board)) {e : Event}
    (hram : Terminated (step r e).board.flashData) : BothTerminated (copies (step r e).board) := by
  refine ⟨hram, ?_⟩
  have hram' : Terminated (copies (step r e).board).ram := hram
  rw [copies_step] at hram' ⊢
  rcases opsOf_cases e with ⟨hops, -⟩ | ⟨conn, entry, -, -, -, hops⟩
  · rw [hops]
    exact h.stored
  · rw [hops] at hram' ⊢
    exact terminated_stored h.stored hram'

end Steps

/-- The invariant. -/
structure StringsInv (r : Rest) : Prop where
  bounds : BoundsInv r
  terminated : BothTerminated (copies r.board)

lemma StringsInv.ownStrings {r : Rest} (h : StringsInv r) : OwnStrings r.board :=
  ⟨h.terminated.ram, h.terminated.stored, h.terminated.ram.readsOwn⟩

theorem step_stringsInv {r : Rest} (h : StringsInv r) {e : Event} (hok : Indexes e ∧ Fits e) :
    StringsInv (step r e) :=
  ⟨step_boundsInv h.bounds hok.1,
    bothTerminated_step h.terminated ((terminated_event_iff h.terminated hok.1).2 hok.2)⟩

/-- **The strings stay terminated** throughout a run, with no write outside an array, exactly if every
index of it is one of its array and every text shorter than its array. -/
theorem ownStrings_iff {r : Rest} (hb : BoundsInv r) (hram : Terminated r.board.flashData)
    (hflash : Terminated r.board.flash) (es : List Event) :
    Throughout step (fun r => InBounds r ∧ OwnStrings r.board) r es ↔
      ∀ e ∈ es, Indexes e ∧ Fits e := by
  have hr : StringsInv r := ⟨hb, hram, hflash⟩
  rw [← along_event_iff step (s := r)]
  refine throughout_iff_along step (V := fun _ _ => True) (I := StringsInv)
    (fun _ _ h _ hok => step_stringsInv h hok) (fun r e h _ => ?_) hr ⟨hb.inBounds, hr.ownStrings⟩
    ((along_event_iff step).2 fun _ _ => trivial)
  constructor
  · rintro ⟨hin, hown⟩
    have hidx : Indexes e := (step_inBounds_iff h.bounds e).1 hin
    exact ⟨hidx, (terminated_event_iff h.terminated hidx).1 hown.ram⟩
  · intro hok
    have key := step_stringsInv h hok
    exact ⟨key.bounds.inBounds, key.ownStrings⟩

lemma terminated_zero : Terminated .zero := ⟨by decide, by decide, by decide⟩

lemma start_boundsInv : BoundsInv (.start .zero) := ⟨start_inBounds _, by rintro ⟨⟩⟩

/-- Names and credentials that leave room for their NUL. -/
theorem ownStrings_short : Throughout step (fun r => InBounds r ∧ OwnStrings r.board) (.start .zero)
    [.request (.get "/portinfo/0/a name of 19 bytes!"), .request (.get "/setwifi/home/secret")] := by
  refine (ownStrings_iff start_boundsInv terminated_zero terminated_zero _).2 ?_
  simp only [List.forall_mem_cons, List.not_mem_nil, false_implies, implies_true, and_true]
  refine ⟨⟨?_, ?_⟩, ?_, ?_⟩
  · exact (indexOk_of_some (n := numOfPorts) rfl).2 (by decide)
  · exact ⟨by decide, by decide⟩
  · exact indexOk_of_none rfl
  · exact ⟨by decide, by decide⟩

/-- **A name of 20 bytes** fills the array of the port. -/
theorem not_ownStrings_twenty : ¬ Throughout step (fun r => OwnStrings r.board) (.start .zero)
    [.request (.get "/portinfo/0/a name of twenty byt")] := by
  intro h
  have hend := run_of_throughout step h
  rw [run_cons, run_nil] at hend
  have hidx : Indexes (.request (.get "/portinfo/0/a name of twenty byt")) :=
    (indexOk_of_some (n := numOfPorts) rfl).2 (by decide)
  have hboth : BothTerminated (copies (Rest.start .zero).board) := ⟨terminated_zero, terminated_zero⟩
  have hfits := (terminated_event_iff hboth hidx).1 hend.ram
  exact absurd (hfits.2 (by decide)) (by decide)

end Esp8266Rest.Config
