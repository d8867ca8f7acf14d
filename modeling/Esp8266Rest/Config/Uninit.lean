import Esp8266Rest.Config.Strings
import Esp8266Rest.Http.Blocks

/-!
# Uninitialised memory in the record

The handlers cut the fields of a URL into local buffers that nothing has written before.  Two runs of a
request that differ in what these buffers held before leave the same record, the same sector and
the same outputs, unless the request is for `setwifi`: that copies 32 and 64 bytes of its buffers, with
what lies behind the NULs.  `uninit_unread_iff` says of which requests the record stays clean.
-/

namespace Esp8266Rest.Config

open Esp8266Rest.Lib.CStr Esp8266Rest.Lib.Runs Esp8266Rest.Lib.Stored Esp8266Rest.Model
  Esp8266Rest.Url Esp8266Rest.Outputs Esp8266Rest.Http

/-! ### What a buffer holds afterwards -/

/-- Where a call of `getValue` writes last, its NUL included. -/
def written (u : Bytes) (k : ℕ) : ℕ := (copied u slash k).length + 1

theorem bytesToVector_inj {n : ℕ} {m m' : Bytes} :
    bytesToVector n m = bytesToVector n m' ↔ ∀ i < n, m.getD i 0 = m'.getD i 0 := by
  unfold bytesToVector
  rw [Vector.ext_iff]
  simp only [Vector.getElem_ofFn]

section Buffer

variable (u : Bytes) (k : ℕ)

/-- **`getValue`** writes a prefix of the buffer and leaves the rest as it was. -/
theorem exists_getValue_mem : ∃ t : Bytes, t.length = written u k ∧
    ∀ dst : Buffer, (getValue dst u slash k).param.mem = t ++ dst.mem.drop (written u k) := by
  by_cases h : piece u slash k = []
  · refine ⟨(copied u slash k ++ [0]).set 0 0, by simp [written], fun dst => ?_⟩
    rw [getValue_eq, if_pos h]
    show (copied u slash k ++ ([0] ++ dst.mem.drop (written u k))).set 0 0 = _
    rw [← List.append_assoc, List.set_append_left _ _ (by simp)]
  · have hcopied : copied u slash k = piece u slash k := copied_of_ne_nil h
    refine ⟨piece u slash k ++ [0], by simp [written, hcopied], fun dst => ?_⟩
    rw [getValue_eq, if_neg h, List.append_assoc, written, hcopied]
    rfl

theorem getD_getValue_mem (dst : Buffer) {i : ℕ} (hi : written u k ≤ i) :
    (getValue dst u slash k).param.mem.getD i 0 = dst.mem.getD i 0 := by
  obtain ⟨t, ht, hmem⟩ := exists_getValue_mem u k
  rw [hmem, List.getD_append_right _ _ _ _ (by omega), List.getD_eq_getElem?_getD, List.getElem?_drop,
    List.getD_eq_getElem?_getD]
  congr 2
  omega

/-- **The first `n` bytes do not depend on what the buffer held** exactly if they are all written. -/
theorem bytesToVector_getValue_iff {n cap : ℕ} (hn : n ≤ cap) (j : ℕ) (arg : Ptr) :
    (∀ uninit uninit' : ℕ → ℕ → Byte,
      bytesToVector n (getValue ((⟨arg, u, uninit⟩ : Conn).buffer j cap) u slash k).param.mem =
      bytesToVector n (getValue ((⟨arg, u, uninit'⟩ : Conn).buffer j cap) u slash k).param.mem) ↔
      n ≤ written u k := by
  constructor
  · intro h
    by_contra hlt
    have hread : ∀ b : Byte, (getValue ((⟨arg, u, fun _ _ => b⟩ : Conn).buffer j cap) u slash
        k).param.mem.getD (written u k) 0 = b := by
      intro b
      rw [getD_getValue_mem u k _ (le_refl _)]
      simp [Conn.buffer, show written u k < cap by omega]
    have heq := bytesToVector_inj.1 (h (fun _ _ => 0) fun _ _ => 1) (written u k) (by omega)
    rw [hread, hread] at heq
    exact absurd heq (by decide)
  · intro hle uninit uninit'
    obtain ⟨t, ht, hmem⟩ := exists_getValue_mem u k
    refine bytesToVector_inj.2 fun i hi => ?_
    have hi' : i < t.length := by omega
    rw [hmem, hmem, List.getD_append _ _ _ _ hi', List.getD_append _ _ _ _ hi']

end Buffer

/-! ### Two runs of a request -/

/-- The two runs leave the same record, the same sector and the same outputs. -/
structure SameConfig (r r' : Rest) : Prop where
  flashData : r.board.flashData = r'.board.flashData
  flash : r.board.flash = r'.board.flash
  portsVal : r.board.portsVal = r'.board.portsVal
  gpioOut : r.board.gpioOut = r'.board.gpioOut
  rtcGpioOut : r.board.rtcGpioOut = r'.board.rtcGpioOut

theorem sameConfig_iff {r r' : Rest} (h : outputs r.board = outputs r'.board) :
    SameConfig r r' ↔ copies r.board = copies r'.board := by
  unfold outputs at h
  rw [OutputState.mk.injEq] at h
  obtain ⟨hp, hg, hr, -⟩ := h
  rw [copies, copies, Copies.mk.injEq]
  exact ⟨fun hs => ⟨hs.flashData, hs.flash⟩, fun hc => ⟨hc.1, hc.2, hp, hg, hr⟩⟩

section TwoRuns

variable (arg : Ptr) (u : Bytes) (uninit uninit' : ℕ → ℕ → Byte) (r : Rest)

theorem outputs_request : outputs (parseURLCommand ⟨arg, u, uninit⟩ r).board =
    outputs (parseURLCommand ⟨arg, u, uninit'⟩ r).board := by
  by_cases h : command u ∈ driving
  · simp only [driving, List.mem_cons, List.not_mem_nil, or_false] at h
    rcases h with h | h | h
    · rw [@request_flipinput ⟨arg, u, uninit⟩ r h, @request_flipinput ⟨arg, u, uninit'⟩ r h,
        doFlipinput_board, doFlipinput_board]
      rfl
    · rw [@request_open ⟨arg, u, uninit⟩ r h, @request_open ⟨arg, u, uninit'⟩ r h, doOpen_board,
        doOpen_board]
      rfl
    · rw [@request_setpin ⟨arg, u, uninit⟩ r h, @request_setpin ⟨arg, u, uninit'⟩ r h, doSetPin_board,
        doSetPin_board]
      rfl
  · have hq := @request_quiet ⟨arg, u, uninit⟩ r h
    have hq' := @request_quiet ⟨arg, u, uninit'⟩ r h
    exact hq.outputs.trans hq'.outputs.symm

/-- Every command but `setwifi` works on the record with strings only. -/
theorem recordOps_eq (h : command u ≠ ascii "setwifi") :
    recordOps ⟨arg, u, uninit⟩ (command u) = recordOps ⟨arg, u, uninit'⟩ (command u) := by
  have htable : ∀ entry ∈ opTable, entry.1 ≠ ascii "setwifi" →
      entry.2 ⟨arg, u, uninit⟩ = entry.2 ⟨arg, u, uninit'⟩ := by
    simp only [opTable, List.forall_mem_cons, List.not_mem_nil, false_implies, implies_true, and_true]
    exact fun hne => absurd rfl hne
  unfold recordOps
  cases hop : opTable.lookup (command u) with
  | none => rfl
  | some op =>
    obtain ⟨l₁, l₂, hl, -⟩ := List.lookup_eq_some_iff.1 hop
    have hmem : (command u, op) ∈ opTable := by rw [hl]; simp
    have heq : op ⟨arg, u, uninit⟩ = op ⟨arg, u, uninit'⟩ := htable _ hmem h
    rw [Option.map_some, Option.map_some, heq]

theorem copies_setwifi (h : command u = ascii "setwifi") :
    copies (parseURLCommand ⟨arg, u, uninit⟩ r).board =
      ⟨setWifi ⟨arg, u, uninit⟩ r.board.flashData, setWifi ⟨arg, u, uninit⟩ r.board.flashData⟩ := by
  have hop : recordOps ⟨arg, u, uninit⟩ (command u) =
      [.edit fun f => some (setWifi ⟨arg, u, uninit⟩ f)] := by
    rw [h]
    rfl
  rw [request_copies, hop]
  rfl

theorem setWifi_eq_iff (f : FlashData) :
    setWifi ⟨arg, u, uninit⟩ f = setWifi ⟨arg, u, uninit'⟩ f ↔
      bytesToVector 32 (getValue ((⟨arg, u, uninit⟩ : Conn).buffer 0 120) u slash 2).param.mem =
        bytesToVector 32 (getValue ((⟨arg, u, uninit'⟩ : Conn).buffer 0 120) u slash 2).param.mem ∧
      bytesToVector 64 (getValue ((⟨arg, u, uninit⟩ : Conn).buffer 1 120) u slash 3).param.mem =
        bytesToVector 64 (getValue ((⟨arg, u, uninit'⟩ : Conn).buffer 1 120) u slash 3).param.mem := by
  unfold setWifi
  rw [FlashData.mk.injEq]
  simp only [true_and, and_true]

end TwoRuns

/-- The copies of a `setwifi` request take nothing from behind its texts. -/
def WritesAll (u : Bytes) : Prop := 32 ≤ written u 2 ∧ 64 ≤ written u 3

section Request

variable (r : Rest) (arg : Ptr) (u : Bytes)

theorem sameConfig_request_iff (uninit uninit' : ℕ → ℕ → Byte) :
    SameConfig (step r (.request ⟨arg, u, uninit⟩)) (step r (.request ⟨arg, u, uninit'⟩)) ↔
      copies (parseURLCommand ⟨arg, u, uninit⟩ { r with sendBuff := [] }).board =
        copies (parseURLCommand ⟨arg, u, uninit'⟩ { r with sendBuff := [] }).board :=
  sameConfig_iff (outputs_request arg u uninit uninit' _)

/-- A `setwifi` request stores its buffers as far as they are copied. -/
theorem sameConfig_setwifi_iff (h : command u = ascii "setwifi") :
    (∀ uninit uninit', SameConfig (step r (.request ⟨arg, u, uninit⟩))
      (step r (.request ⟨arg, u, uninit'⟩))) ↔ WritesAll u := by
  simp only [sameConfig_request_iff, copies_setwifi arg u _ _ h, Copies.mk.injEq, and_self,
    setWifi_eq_iff, forall_and, bytesToVector_getValue_iff u _ (show 32 ≤ 120 by decide),
    bytesToVector_getValue_iff u _ (show 64 ≤ 120 by decide)]
  exact Iff.rfl

theorem sameConfig_of_ne (h : command u ≠ ascii "setwifi") (uninit uninit' : ℕ → ℕ → Byte) :
    SameConfig (step r (.request ⟨arg, u, uninit⟩)) (step r (.request ⟨arg, u, uninit'⟩)) := by
  rw [sameConfig_request_iff, request_copies, request_copies]
  exact congrArg (run loader.step (copies r.board)) (recordOps_eq arg u uninit uninit' h)

end Request

/-- **Uninitialised memory stays out of the configuration**, whatever the buffers held, exactly if the
request is not for `setwifi`, or its two texts and their NULs fill what is stored of the buffers. -/
theorem uninit_unread_iff (r : Rest) (arg : Ptr) (u : Bytes) :
    (∀ uninit uninit', SameConfig (step r (.request ⟨arg, u, uninit⟩))
      (step r (.request ⟨arg, u, uninit'⟩))) ↔
      (command u = ascii "setwifi" → WritesAll u) := by
  by_cases h : command u = ascii "setwifi"
  · rw [sameConfig_setwifi_iff r arg u h]
    exact ⟨fun hw _ => hw, fun hw => hw h⟩
  · exact iff_of_true (sameConfig_of_ne r arg u h) fun hc => absurd hc h

/-- **A password with a tail**: all fields of the request fit their buffers, and what these held before
is stored. -/
theorem not_uninit_unread_setwifi : ¬ ∀ (r : Rest) (arg : Ptr) (u : Bytes), FieldsFit u →
    ∀ uninit uninit', SameConfig (step r (.request ⟨arg, u, uninit⟩))
      (step r (.request ⟨arg, u, uninit'⟩)) := by
  intro h
  have hall := h (.start .zero) 1 (ascii "/setwifi/home/secret") (by decide)
  have hwrites := (sameConfig_setwifi_iff _ _ _ (by decide)).1 hall
  exact absurd hwrites.1 (by decide)

end Esp8266Rest.Config
