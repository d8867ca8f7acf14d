import Esp8266Rest.Model.Server

/-!
# The lines of a header block

The lines of a complete block are cut in place, by NULs at the line ends, behind the URL of a request
line and at its `?`.  `requestPath` says on the text of a line what those cuts leave of it, and
`handed_spec` that the loop hands over the lines of the text as they are, in order: a cut never
reaches the lines behind it.  So it handles the requests of the text (`lineLoop_spec`).
-/

namespace Esp8266Rest.Http

open Esp8266Rest.Lib.CStr Esp8266Rest.Model

def question : Byte := 63

/-- What ends a header block. -/
def blockEnd : Bytes := crlf ++ crlf

/-- What follows the first space of a line. -/
def afterMethod (l : Bytes) : Bytes := l.drop ((l.takeWhile (· ≠ space)).length + 1)

/-- The path that a line asks for: what stands between its first two spaces, up to a `?`. -/
def requestPath (l : Bytes) : Option Bytes :=
  if isRequestLine l = true ∧ space ∈ afterMethod l then
    some (((afterMethod l).takeWhile (· ≠ space)).takeWhile (· ≠ question))
  else none

/-- The requests for `paths`, one after the other. -/
def handle (arg : Ptr) (uninit : ℕ → ℕ → Byte) (paths : List Bytes) (r : Rest) : Rest :=
  paths.foldl (fun r url => parseURLCommand { conn := arg, url, uninit } r) r

@[simp] theorem handle_nil (arg : Ptr) (uninit : ℕ → ℕ → Byte) (r : Rest) :
    handle arg uninit [] r = r := rfl

lemma handle_singleton (arg : Ptr) (uninit : ℕ → ℕ → Byte) (url : Bytes) (r : Rest) :
    handle arg uninit [url] r = parseURLCommand { conn := arg, url, uninit } r := rfl

@[simp] theorem handle_append (arg : Ptr) (uninit : ℕ → ℕ → Byte) (ps qs : List Bytes) (r : Rest) :
    handle arg uninit (ps ++ qs) r = handle arg uninit qs (handle arg uninit ps r) :=
  List.foldl_append

/-! ### Cuts -/

section Cuts

variable (c : ServerConnData) {p i q : ℕ}

theorem cstr_cut (h : p ≤ i) : cstr ((c.cut i).from p) = (cstr (c.from p)).take (i - p) := by
  unfold ServerConnData.from ServerConnData.cut
  dsimp only
  rw [Vector.toList_setIfInBounds, List.drop_set, if_neg (by omega), cstr_set]

theorem from_cut (h : i < q) : (c.cut i).from q = c.from q := by
  unfold ServerConnData.from ServerConnData.cut
  dsimp only
  rw [Vector.toList_setIfInBounds, List.drop_set_of_lt h]

theorem cstr_from_add {k : ℕ} (h : k ≤ (cstr (c.from p)).length) :
    cstr (c.from (p + k)) = (cstr (c.from p)).drop k := by
  rw [← cstr_drop h]
  unfold ServerConnData.from
  rw [List.drop_drop, Nat.add_comm]

end Cuts

/-- The fields of a slot that handling a block does not touch. -/
structure SameSlot (c c' : ServerConnData) : Prop where
  conn : c'.conn = c.conn
  postLen : c'.postLen = c.postLen
  headPos : c'.priv.headPos = c.priv.headPos

lemma SameSlot.refl (c : ServerConnData) : SameSlot c c := ⟨rfl, rfl, rfl⟩

lemma SameSlot.trans {c c' c'' : ServerConnData} (h : SameSlot c c') (h' : SameSlot c' c'') :
    SameSlot c c'' :=
  ⟨h'.conn.trans h.conn, h'.postLen.trans h.postLen, h'.headPos.trans h.headPos⟩

lemma sameSlot_cut (c : ServerConnData) (i : ℕ) : SameSlot c (c.cut i) := ⟨rfl, rfl, rfl⟩

theorem cutURL_same (c : ServerConnData) (p : ℕ) : SameSlot c (c.cutURL p).1 := by
  unfold ServerConnData.cutURL
  dsimp only
  split
  · exact ⟨rfl, rfl, rfl⟩
  · split <;> exact ⟨rfl, rfl, rfl⟩

section Receive

variable (arg : Ptr) (uninit : ℕ → ℕ → Byte)

theorem serverParseHeaderURL_same (p : ℕ) (s : Session) :
    SameSlot s.slot (serverParseHeaderURL arg uninit p s).slot := by
  unfold serverParseHeaderURL
  split
  · dsimp only
    split <;> exact cutURL_same _ _
  · exact .refl _

/-- **The loop over the lines** keeps what each of its turns keeps. -/
theorem lineLoop_keeps {P : Session → Prop}
    (hline : ∀ p e s, strstr (cstr (s.slot.from p)) crlf = some e → P s →
      P (serverParseHeaderURL arg uninit p (s.endLine (p + e))))
    (p : ℕ) {s : Session} (h : P s) : P (lineLoop arg uninit p s) := by
  induction p, s using lineLoop.induct arg uninit with
  | case1 p s hp hnone =>
    rw [lineLoop, if_pos hp, hnone]
    exact h
  | case2 p s hp e he ih =>
    rw [lineLoop, if_pos hp, he]
    exact ih (hline p e s he h)
  | case3 p s hp =>
    rw [lineLoop, if_neg hp]
    exact h

theorem lineLoop_same (p : ℕ) (s : Session) : SameSlot s.slot (lineLoop arg uninit p s).slot := by
  refine lineLoop_keeps arg uninit (P := fun t => SameSlot s.slot t.slot) (fun p e t _ h => ?_) p (.refl _)
  have hline := serverParseHeaderURL_same arg uninit p (t.endLine (p + e))
  exact (h.trans (sameSlot_cut t.slot (p + e))).trans hline

end Receive

/-! ### A request line -/

theorem isRequestLine_cstr (m : Bytes) : isRequestLine (cstr m) = isRequestLine m := by
  have hget : (ascii "GET ").isPrefixOf (cstr m) = (ascii "GET ").isPrefixOf m := by
    rw [Bool.eq_iff_iff, List.isPrefixOf_iff_prefix, List.isPrefixOf_iff_prefix]
    exact prefix_cstr_iff (by decide)
  have hpost : (ascii "POST ").isPrefixOf (cstr m) = (ascii "POST ").isPrefixOf m := by
    rw [Bool.eq_iff_iff, List.isPrefixOf_iff_prefix, List.isPrefixOf_iff_prefix]
    exact prefix_cstr_iff (by decide)
  unfold isRequestLine
  rw [hget, hpost]

theorem space_mem_of_isRequestLine {l : Bytes} (h : isRequestLine l = true) : space ∈ l := by
  unfold isRequestLine at h
  rw [Bool.or_eq_true, List.isPrefixOf_iff_prefix, List.isPrefixOf_iff_prefix] at h
  rcases h with h | h
  · exact h.subset (by decide)
  · exact h.subset (by decide)

theorem takeWhile_cstr {m : Bytes} {b : Byte} (h : b ∈ cstr m) :
    m.takeWhile (· ≠ b) = (cstr m).takeWhile (· ≠ b) := by
  obtain ⟨t, ht⟩ := cstr_prefix_self m
  conv_lhs => rw [← ht]
  rw [List.takeWhile_append, if_neg]
  intro hlen
  have hall := List.takeWhile_eq_self_iff.1
    ((List.takeWhile_prefix _).eq_of_length hlen) b h
  simp at hall

section RequestLine

variable {c : ServerConnData} {p : ℕ} {l t : Bytes}

lemma cstr_cut_takeWhile (h : cstr (c.from p) = t) (b : Byte) :
    cstr ((c.cut (p + (t.takeWhile (· ≠ b)).length)).from p) = t.takeWhile (· ≠ b) := by
  rw [cstr_cut _ (by omega), h, Nat.add_sub_cancel_left, take_length_takeWhile]

theorem cstr_afterMethod (hl : cstr (c.from p) = l) (hspace : space ∈ l) :
    (c.from p).takeWhile (· ≠ space) = l.takeWhile (· ≠ space) ∧
      cstr (c.from (p + (l.takeWhile (· ≠ space)).length + 1)) = afterMethod l := by
  have hn := length_takeWhile_lt hspace
  subst hl
  refine ⟨takeWhile_cstr hspace, ?_⟩
  rw [Nat.add_assoc, cstr_from_add c hn, afterMethod]

/-- **What `ServerParseHeaderURL` makes of a request line** is the path it asks for, if the line has
one; what lies behind the line stays. -/
theorem cutURL_spec (hl : cstr (c.from p) = l) (hreq : isRequestLine l = true) :
    (if (c.cutURL p).2 then some (cstr ((c.cutURL p).1.from ((c.cutURL p).1.url.getD 0))) else none) =
        requestPath l ∧ ∀ q, p + l.length ≤ q → (c.cutURL p).1.from q = c.from q := by
  have hspace : space ∈ l := space_mem_of_isRequestLine hreq
  have hn := length_takeWhile_lt hspace
  obtain ⟨hmethod, hurl⟩ := cstr_afterMethod hl hspace
  have hlen : (afterMethod l).length = l.length - ((l.takeWhile (· ≠ space)).length + 1) := by
    rw [afterMethod, List.length_drop]
  unfold ServerConnData.cutURL requestPath
  dsimp only
  simp only [hmethod]
  set url := p + (l.takeWhile (· ≠ space)).length + 1
  have hfrom : ∀ q, ({ c with url := some url } : ServerConnData).from q = c.from q := fun _ => rfl
  simp only [hfrom, hurl, strstr_singleton]
  by_cases hsp : space ∈ afterMethod l
  · have hcond : isRequestLine l = true ∧ space ∈ afterMethod l := ⟨hreq, hsp⟩
    have he := length_takeWhile_lt hsp
    -- the cut at the second space
    have hcut := cstr_cut_takeWhile ((congrArg cstr (hfrom url)).trans hurl) space
    have hq : ascii "?" = [question] := rfl
    simp only [if_pos hsp, hcut, hq, strstr_singleton]
    by_cases hqu : question ∈ (afterMethod l).takeWhile (· ≠ space)
    · have hk := length_takeWhile_lt hqu
      simp only [if_pos hqu]
      refine ⟨?_, fun q hle => ?_⟩
      · rw [if_pos trivial, if_pos hcond]
        exact congrArg some (cstr_cut_takeWhile hcut question)
      · exact (from_cut _ (by omega)).trans ((from_cut _ (by omega)).trans (hfrom q))
    · have hall : ((afterMethod l).takeWhile (· ≠ space)).takeWhile (· ≠ question) =
          (afterMethod l).takeWhile (· ≠ space) :=
        List.takeWhile_eq_self_iff.2 fun b hb => by
          simpa using fun heq : b = question => hqu (heq ▸ hb)
      simp only [if_neg hqu]
      refine ⟨?_, fun q hle => ?_⟩
      · rw [if_pos trivial, if_pos hcond, hall]
        exact congrArg some hcut
      · exact (from_cut _ (by omega)).trans (hfrom q)
  · simp only [if_neg hsp]
    refine ⟨?_, fun q _ => rfl⟩
    simp [hsp]

end RequestLine

section Receive

variable (arg : Ptr) (uninit : ℕ → ℕ → Byte)

/-- **A line** is handled as the request it is, if it is one. -/
theorem serverParseHeaderURL_spec {p : ℕ} {l : Bytes} {s : Session} (hl : cstr (s.slot.from p) = l) :
    (serverParseHeaderURL arg uninit p s).rest = handle arg uninit (requestPath l).toList s.rest ∧
    ∀ q, p + l.length ≤ q →
      (serverParseHeaderURL arg uninit p s).slot.from q = s.slot.from q := by
  have hreq : isRequestLine (s.slot.from p) = isRequestLine l := by rw [← isRequestLine_cstr, hl]
  unfold serverParseHeaderURL
  by_cases h : isRequestLine l = true
  · obtain ⟨hpath, hfrom⟩ := cutURL_spec hl h
    rw [if_pos (hreq.trans h), ← hpath]
    by_cases hrun : (s.slot.cutURL p).2 = true
    · simp only [hrun, if_true, Option.toList_some, handle_singleton]
      exact ⟨rfl, hfrom⟩
    · rw [Bool.not_eq_true] at hrun
      simp only [hrun, Bool.false_eq_true, if_false]
      exact ⟨rfl, hfrom⟩
  · have hnone : requestPath l = none := if_neg fun hc => h hc.1
    have hneg : ¬ isRequestLine (s.slot.from p) = true := fun hc => h (hreq ▸ hc)
    rw [if_neg hneg, hnone]
    exact ⟨rfl, fun _ _ => rfl⟩

/-- The paths that the lines of a text ask for. -/
def requestPaths (text : Bytes) : List Bytes := (lines text).filterMap requestPath

/-- The lines of the text of a header block: an empty text has none. -/
def headerLines (text : Bytes) : List Bytes := if text = [] then [] else lines text

lemma headerLines_of_none {text : Bytes} (hne : text ≠ []) (h : strstr text crlf = none) :
    headerLines text = [text] := by
  rw [headerLines, if_neg hne, lines_of_none h]

theorem headerLines_of_some {text : Bytes} {k : ℕ} (h : strstr text crlf = some k)
    (hlt : k + 2 < text.length) :
    headerLines text = text.take k :: headerLines (text.drop (k + 2)) := by
  have hne : text ≠ [] := List.ne_nil_of_length_pos (by omega)
  have hrest : text.drop (k + 2) ≠ [] := by
    rw [Ne, List.drop_eq_nil_iff]
    omega
  rw [headerLines, headerLines, if_neg hne, if_neg hrest, lines_of_some h]

theorem requestPaths_eq (text : Bytes) : requestPaths text = (headerLines text).filterMap requestPath := by
  by_cases h : text = []
  · subst h
    rfl
  · rw [headerLines, if_neg h, requestPaths]

/-- The first CRLF in front of the end of a block ends a line that is not the last, or it is where
the end of the block starts. -/
theorem strstr_crlf_of_blockEnd {rem : Bytes}
    (h : strstr (rem ++ blockEnd) blockEnd = some rem.length) :
    (∃ e, strstr rem crlf = some e ∧ e + 2 < rem.length) ∨
      (strstr rem crlf = none ∧ strstr (rem ++ blockEnd) crlf = some rem.length) := by
  cases hcr : strstr rem crlf with
  | none =>
    refine .inr ⟨rfl, strstr_eq_some_iff.2 ⟨by simp, ?_, fun j hj hp => ?_⟩⟩
    · rw [List.drop_left]
      exact List.prefix_append _ _
    · rw [List.drop_append_of_le_length (by omega)] at hp
      by_cases hj2 : j + 2 ≤ rem.length
      · have hp' : crlf <+: rem.drop j :=
          List.prefix_of_prefix_length_le hp (List.prefix_append _ _) (by simp [crlf]; omega)
        exact strstr_eq_none_iff.1 hcr (hp'.isInfix.trans (List.drop_suffix j rem).isInfix)
      · -- one byte of the text, and then a CR
        obtain ⟨b, hb⟩ : ∃ b, rem.drop j = [b] := List.length_eq_one_iff.1 (by simp; omega)
        rw [hb] at hp
        simp [crlf, blockEnd, cr, lf] at hp
  | some e =>
    obtain ⟨he, hp, -⟩ := strstr_eq_some_iff.1 hcr
    have hle : e + 2 ≤ rem.length := strstr_le hcr
    refine .inl ⟨e, rfl, lt_of_le_of_ne hle fun heq => ?_⟩
    -- a CRLF at the very end of the text would be part of an earlier end of the block
    obtain ⟨-, -, hfirst⟩ := strstr_eq_some_iff.1 h
    have hdrop : rem.drop e = crlf :=
      (hp.eq_of_length (by simp [crlf]; omega)).symm
    refine hfirst e (by omega) ?_
    rw [List.drop_append_of_le_length he, hdrop, blockEnd, ← List.append_assoc]
    exact List.prefix_append _ _

/-- The texts that the loop over the lines hands to `ServerParseHeaderURL`, each as it is when it is handed
over. -/
def handed (p : ℕ) (s : Session) : List Bytes :=
  if p + 4 < s.slot.priv.headPos then
    match strstr (cstr (s.slot.from p)) crlf with
    | none => []
    | some e => cstr ((s.endLine (p + e)).slot.from p) ::
        handed (p + e + 2) (serverParseHeaderURL arg uninit p (s.endLine (p + e)))
  else []
termination_by s.slot.priv.headPos - p
decreasing_by
  rw [serverParseHeaderURL_headPos]
  simp only [Session.endLine, ServerConnData.cut]
  omega

/-- **The loop over the lines** does what the handed texts ask for, and nothing else. -/
theorem lineLoop_rest (p : ℕ) (s : Session) : (lineLoop arg uninit p s).rest =
    handle arg uninit ((handed arg uninit p s).filterMap requestPath) s.rest := by
  induction p, s using lineLoop.induct arg uninit with
  | case1 p s h hnone =>
    rw [lineLoop, handed, if_pos h, if_pos h, hnone]
    rfl
  | case2 p s h e he ih =>
    obtain ⟨hrest, -⟩ := serverParseHeaderURL_spec arg uninit (p := p) (s := s.endLine (p + e)) rfl
    rw [lineLoop, handed, if_pos h, if_pos h, he]
    dsimp only
    rw [ih, hrest, ← handle_append, List.filterMap_cons]
    cases requestPath (cstr ((s.endLine (p + e)).slot.from p)) <;> rfl
  | case3 p s h =>
    rw [lineLoop, handed, if_neg h, if_neg h]
    rfl

/-- What the loop finds at `p`: the text `rem` that is left of the block, and its end. -/
structure LinesLeft (rem : Bytes) (p : ℕ) (s : Session) : Prop where
  mem : cstr (s.slot.from p) = rem ++ blockEnd
  headPos : s.slot.priv.headPos = p + rem.length + 4
  first : strstr (rem ++ blockEnd) blockEnd = some rem.length

theorem LinesLeft.line {rem : Bytes} {p : ℕ} {s : Session} (h : LinesLeft rem p s) {k : ℕ}
    (hk : k ≤ rem.length) : cstr ((s.endLine (p + k)).slot.from p) = rem.take k := by
  show cstr ((s.slot.cut (p + k)).from p) = rem.take k
  rw [cstr_cut _ (by omega), h.mem, Nat.add_sub_cancel_left, List.take_append_of_le_length hk]

/-- **One turn of the loop**, on a line that is not the last: what is cut out of it does not reach the lines
behind it. -/
theorem LinesLeft.turn {rem : Bytes} {p : ℕ} {s : Session} (h : LinesLeft rem p s) {e : ℕ}
    (hle : e + 2 ≤ rem.length) : LinesLeft (rem.drop (e + 2)) (p + e + 2)
      (serverParseHeaderURL arg uninit p (s.endLine (p + e))) := by
  have hline := h.line (show e ≤ rem.length by omega)
  obtain ⟨-, hfrom⟩ := serverParseHeaderURL_spec arg uninit hline
  have hsame := serverParseHeaderURL_same arg uninit p (s.endLine (p + e))
  refine ⟨?_, ?_, ?_⟩
  · have hcut : (s.endLine (p + e)).slot.from (p + e + 2) = s.slot.from (p + e + 2) :=
      from_cut _ (by omega)
    rw [hfrom _ (by simp; omega), hcut, Nat.add_assoc, cstr_from_add _ (by rw [h.mem]; simp; omega), h.mem,
      List.drop_append_of_le_length hle]
  · have hpos : (s.endLine (p + e)).slot.priv.headPos = p + rem.length + 4 := h.headPos
    rw [hsame.headPos, hpos, List.length_drop]
    omega
  · have hfirst := strstr_drop h.first hle
    rwa [List.drop_append_of_le_length hle, ← List.length_drop] at hfirst

/-- **The lines of a block** are handed over as they are, each once and in their order. -/
theorem handed_spec {rem : Bytes} {p : ℕ} {s : Session} (h : LinesLeft rem p s) :
    handed arg uninit p s = headerLines rem := by
  have hpos := h.headPos
  induction hn : rem.length using Nat.strong_induction_on generalizing rem p s with
  | _ n ih =>
  by_cases hrem : rem = []
  · subst hrem
    rw [handed, if_neg (by simp at hpos; omega)]
    rfl
  have hlen : 0 < rem.length := List.length_pos_iff.2 hrem
  rw [handed, if_pos (by omega), h.mem]
  rcases strstr_crlf_of_blockEnd h.first with ⟨e, he, hlt⟩ | ⟨hnone, hlast⟩
  · -- a line that is not the last
    have hnext := h.turn arg uninit hlt.le
    rw [strstr_append he, headerLines_of_some he hlt]
    dsimp only
    rw [h.line (by omega), ih _ (by simp; omega) hnext hnext.headPos rfl]
  · -- the last line: behind it the loop is at its bound
    have hsame := serverParseHeaderURL_same arg uninit p (s.endLine (p + rem.length))
    have hdone : ¬ p + rem.length + 2 + 4 <
        (serverParseHeaderURL arg uninit p (s.endLine (p + rem.length))).slot.priv.headPos := by
      rw [hsame.headPos]
      change ¬ _ < s.slot.priv.headPos
      omega
    rw [hlast, headerLines_of_none hrem hnone]
    dsimp only
    rw [h.line le_rfl, List.take_length, handed, if_neg hdone]

/-- **The loop over the lines** handles the requests of the text in front of the end of the block. -/
theorem lineLoop_spec {rem : Bytes} {p : ℕ} {s : Session} (h : LinesLeft rem p s) :
    (lineLoop arg uninit p s).rest = handle arg uninit (requestPaths rem) s.rest := by
  rw [lineLoop_rest, handed_spec arg uninit h, requestPaths_eq]

end Receive

end Esp8266Rest.Http
