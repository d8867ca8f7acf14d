import Esp8266Rest.Model.RestAPI
import Esp8266Rest.Url.Fields

/-!
# The command of a URL

A URL is a list of fields between slashes: field `1` is the command, the others its arguments.
`cutTable` lists the fields that each command copies and the room it copies them to, and
`parseURLCommand_eq` says which command runs.
-/

namespace Esp8266Rest.Url

open Esp8266Rest.Lib.CStr Esp8266Rest.Model

/-! ### Fields and commands -/

/-- The field `k` of a URL. -/
def field (u : Bytes) (k : ℕ) : Bytes := piece u slash k

/-- The part `j` of a time `HH:MM` in field `k`. -/
def timePart (u : Bytes) (k j : ℕ) : Bytes := piece (field u k) colon j

/-- The command that a URL names. -/
def command (u : Bytes) : Bytes := field u 1

/-- A text that a handler cuts out: a field of the URL, or a part of a time. -/
inductive Cut where
  | field (k : ℕ)
  | timePart (k j : ℕ)
  deriving DecidableEq, Repr

/-- What `getValue` copies for a cut. -/
def Cut.copied (u : Bytes) : Cut → Bytes
  | .field k => Url.copied u slash k
  | .timePart k j => Url.copied (Url.field u k) colon j

/-- The cuts of a command in order, each with the size of the buffer it is copied to. -/
def cutTable : List (Bytes × List (Cut × ℕ)) :=
  [(ascii "flipinput", [(.field 2, 20)]),
    (ascii "open", [(.field 2, 50), (.field 2, 50)]),
    (ascii "setwifi", [(.field 2, 120), (.field 3, 120)]),
    (ascii "event", [(.field 2, 120), (.field 3, 120), (.field 4, 120),
      (.field 5, 120), (.timePart 5 0, 10), (.timePart 5 1, 10),
      (.field 6, 120), (.timePart 6 0, 10), (.timePart 6 1, 10), (.field 7, 120)]),
    (ascii "portinfo", [(.field 2, 120), (.field 3, 120)]),
    (ascii "sntp", [(.field 2, 10)]),
    (ascii "wifiport", [(.field 2, 10)]),
    (ascii "setpin", [(.field 2, 10), (.field 3, 10)])]

def cuts (command : Bytes) : List (Cut × ℕ) := (cutTable.lookup command).getD []

def Cut.toCopy (u : Bytes) (c : Cut × ℕ) : Copy := ⟨(c.1.copied u).length + 1, c.2⟩

/-- What the request for `u` copies: the name of its command, and what that command cuts out. -/
def requestCopies (u : Bytes) : List Copy :=
  ((Cut.field 1, 30) :: cuts (command u)).map (Cut.toCopy u)

/-- Every field that the request for `u` copies is shorter than its buffer. -/
def FieldsFit (u : Bytes) : Prop :=
  ∀ c ∈ (Cut.field 1, 30) :: cuts (command u), (c.1.copied u).length < c.2

instance (u : Bytes) : Decidable (FieldsFit u) := by unfold FieldsFit; infer_instance

lemma fieldsFit_iff {u : Bytes} : (∀ c ∈ requestCopies u, c.Fits) ↔ FieldsFit u := by
  simp only [requestCopies, List.forall_mem_map, FieldsFit, Copy.Fits, Cut.toCopy, Nat.succ_le_iff]

/-- The commands of the table, without the sentinel. -/
def commands : List RestPtrs := restPtrsTable.dropLast

def commandNames : List Bytes := commands.map RestPtrs.command

theorem forall_commands {P : RestPtrs → Prop} : (∀ p ∈ commands, P p) ↔
    P ⟨ascii "flipinput", doFlipinput⟩ ∧ P ⟨ascii "open", doOpen⟩ ∧ P ⟨ascii "status", doStatus⟩ ∧
    P ⟨ascii "setwifi", doSetWifi⟩ ∧ P ⟨ascii "getwifi", doGetWifi⟩ ∧
    P ⟨ascii "events", doGetEvents⟩ ∧ P ⟨ascii "event", doSetEvent⟩ ∧ P ⟨ascii "time", doGetTime⟩ ∧
    P ⟨ascii "portsinfo", doGetPorts⟩ ∧ P ⟨ascii "portinfo", doSetPorts⟩ ∧
    P ⟨ascii "initialize", doInitialize⟩ ∧ P ⟨ascii "sntp", doSNTP⟩ ∧
    P ⟨ascii "wifiport", doWifiport⟩ ∧ P ⟨ascii "scan", doScanWifi⟩ ∧ P ⟨ascii "setpin", doSetPin⟩ := by
  simp only [commands, restPtrsTable, List.dropLast_cons_cons, List.dropLast_singleton,
    List.forall_mem_cons, List.not_mem_nil, false_implies, implies_true, and_true]

/-! ### The search -/

theorem findCommand_append (param : Bytes) {table : List RestPtrs} {bound : ℕ}
    (hb : table.length ≤ bound) (hend : ∀ p ∈ table, p.command ≠ ascii "END") (rest : List RestPtrs) :
    findCommand param bound (table ++ rest) =
      (table.find? fun p => param = p.command).or
        (findCommand param (bound - table.length) rest) := by
  induction table generalizing bound with
  | nil => simp
  | cons p table ih =>
    obtain ⟨bound, rfl⟩ : ∃ k, bound = k + 1 := ⟨bound - 1, by simp at hb; omega⟩
    have hp : p.command ≠ ascii "END" := hend p (by simp)
    have hb' : table.length ≤ bound := by simpa using hb
    have := ih hb' fun q hq => hend q (List.mem_cons_of_mem _ hq)
    by_cases h : param = p.command
    · simp [findCommand, h]
    · simp [findCommand, h, hp, this]

/-- **The search finds the command of that name**; the bound of `15` turns ends it before `"END"`. -/
theorem findCommand_eq (param : Bytes) :
    findCommand param 15 restPtrsTable = commands.find? fun p => param = p.command := by
  have hend : ∀ p ∈ commands, p.command ≠ ascii "END" := by
    rw [forall_commands]
    decide
  have hlen : commands.length ≤ 15 := by decide
  have h := findCommand_append param hlen hend [⟨ascii "END", doStatus⟩]
  have h0 : findCommand param (15 - commands.length) [⟨ascii "END", doStatus⟩] = none := rfl
  rw [h0] at h
  have htable : commands ++ [⟨ascii "END", doStatus⟩] = restPtrsTable := rfl
  rw [htable, Option.or_none] at h
  exact h

theorem findCommand_eq_some {param : Bytes} {p : RestPtrs}
    (h : findCommand param 15 restPtrsTable = some p) : p ∈ commands ∧ p.command = param := by
  rw [findCommand_eq] at h
  refine ⟨List.mem_of_find?_eq_some h, ?_⟩
  have := List.find?_some h
  simpa [eq_comm] using this

theorem findCommand_isSome_iff {param : Bytes} :
    (findCommand param 15 restPtrsTable).isSome ↔ param ∈ commandNames := by
  rw [findCommand_eq, List.find?_isSome]
  simp [commandNames, eq_comm]

/-- The state in which a handler starts. -/
def dispatched (conn : Conn) (name : Bytes) (r : Rest) : Rest :=
  { r with log := { r.log with
      copies := r.log.copies ++ [⟨(copied conn.url slash 1).length + 1, 30⟩],
      handlers := r.log.handlers ++ [⟨conn.conn, name, conn.url⟩] } }

/-- The state after a search in vain. -/
def undispatched (conn : Conn) (r : Rest) : Rest :=
  { r with log := { r.log with
      copies := r.log.copies ++ [⟨(copied conn.url slash 1).length + 1, 30⟩] } }

/-- **`ParseURLCommand`** runs the command that field `1` names, if there is one. -/
theorem parseURLCommand_eq (conn : Conn) (r : Rest) : parseURLCommand conn r =
    match findCommand (command conn.url) 15 restPtrsTable with
    | some p => p.f conn (dispatched conn (command conn.url) r)
    | none => undispatched conn r := by
  unfold parseURLCommand
  dsimp only
  rw [getValue_str]
  change (match findCommand (command conn.url) 15 restPtrsTable with
    | some p => _ | none => _) = _
  cases h : findCommand (command conn.url) 15 restPtrsTable with
  | none =>
    simp only [Rest.noteCopy, getValue_copy]
    rfl
  | some p =>
    simp only [Rest.noteCopy, getValue_copy, (findCommand_eq_some h).2]
    rfl

end Esp8266Rest.Url
