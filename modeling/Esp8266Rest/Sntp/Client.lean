import Esp8266Rest.Sntp.Retries

/-!
# The client never stops

From the first `sntp_init` that gets a socket on, the client has something pending: a timeout or a lookup.
Each callback takes one off and goes on with one more (`GoesOn`), so one it stays, unless a datagram comes
in while a lookup waits (`Stray`): `sntp_recv` then has no timeout to stop.  All of this is so as long as
`sys_timeout` finds room for its entries (`HasRoom`); without room, there may be less.
-/

namespace Esp8266Rest.Sntp

open Esp8266Rest.Lib.CStr Esp8266Rest.Lib.Runs Esp8266Rest.Lib.Timeouts Esp8266Rest.Model

variable {s s' : Sntp}

/-- How many timeouts and lookups are pending. -/
def activities (s : Sntp) : ℕ := s.timeouts.length + s.lookups

/-- What is set at `now` is due in three seconds, but a request may wait up to an hour. -/
def InTime (now : ℕ) (t : Timeout SntpHandler) : Prop :=
  match t.handler with
  | .sntpRetry => t.due = now + 3000
  | .sntpRequest => now + 3000 ≤ t.due ∧ t.due ≤ now + 3600000

/-- The time of a run of `sntp_request`. -/
def requestTime? : ℕ × SntpAct → Option ℕ
  | (t, .lookup) => some t
  | _ => none

/-- The times at which `sntp_request` ran. -/
def requests (s : Sntp) : List ℕ := s.acts.filterMap requestTime?

theorem requests_act (a : SntpAct) (s : Sntp) :
    requests (s.act a) = requests s ++ (requestTime? (s.now, a)).toList := by
  unfold requests Sntp.act
  rw [List.filterMap_append]
  cases a <;> rfl

lemma mem_put_or {room : Bool} {t u : Timeout SntpHandler} {ts : List (Timeout SntpHandler)}
    (hu : u ∈ if room then put t ts else ts) : u = t ∨ u ∈ ts := by
  split at hu
  · exact mem_put.1 hu
  · exact .inr hu

/-- One more timeout is pending, if there is room, or one more lookup; `asked` are the requests on the
way. -/
structure GoesOn (room : Bool) (asked : List ℕ) (s s' : Sntp) : Prop where
  now : s'.now = s.now
  pcb : s'.sntpPcb = s.sntpPcb
  requested : requests s' = requests s ++ asked
  more : (∃ t, InTime s.now t ∧ s'.timeouts = (if room then put t s.timeouts else s.timeouts) ∧
      s'.lookups = s.lookups) ∨
    asked ≠ [] ∧ s'.timeouts = s.timeouts ∧ s'.lookups = s.lookups + 1

/-- `sys_timeout` finds room in this call. -/
def HasRoom (e : SntpEvent) : Prop :=
  match e.call with
  | .init _ stack | .timeout stack | .dnsFound _ stack | .recv _ stack => stack.room = true
  | .ntpTimer => True

instance (e : SntpEvent) : Decidable (HasRoom e) := by
  unfold HasRoom
  split <;> infer_instance

section More

variable {room : Bool} {asked : List ℕ}

lemma GoesOn.activities_eq (h : GoesOn true asked s s') : activities s' = activities s + 1 := by
  unfold activities
  rcases h.more with ⟨t, -, hts, hl⟩ | ⟨-, hts, hl⟩
  · rw [hts, hl, if_pos rfl, length_put]
    omega
  · rw [hts, hl]
    omega

lemma GoesOn.activities_le (h : GoesOn room asked s s') : activities s' ≤ activities s + 1 := by
  unfold activities
  rcases h.more with ⟨t, -, hts, hl⟩ | ⟨-, hts, hl⟩
  · rw [hts, hl]
    split
    · rw [length_put]
      omega
    · omega
  · rw [hts, hl]
    omega

/-- Without room, only a request adds something. -/
lemma GoesOn.activities_of_full (h : GoesOn false [] s s') : activities s' = activities s := by
  unfold activities
  rcases h.more with ⟨t, -, hts, hl⟩ | ⟨hne, -⟩
  · rw [hts, hl, if_neg Bool.false_ne_true]
  · exact absurd rfl hne

lemma GoesOn.pending (h : GoesOn room asked s s') {u : Timeout SntpHandler} (hu : u ∈ s'.timeouts) :
    InTime s.now u ∨ u ∈ s.timeouts := by
  rcases h.more with ⟨t, ht, hts, -⟩ | ⟨-, hts, -⟩
  · rw [hts] at hu
    rcases mem_put_or hu with rfl | hu
    · exact .inl ht
    · exact .inr hu
  · rw [hts] at hu
    exact .inr hu

end More

/-! ### The functions -/

/-- The next retry is in time. -/
def RetryInTime (s : Sntp) : Prop := 3000 ≤ s.sntpRetryTimeout.toNat ∧ s.sntpRetryTimeout.toNat ≤ 24000

theorem BacksOff.retryInTime (h : BacksOff s) (hpcb : s.sntpPcb = true) : RetryInTime s := by
  unfold RetryInTime
  rw [h.next hpcb]
  exact retryWait_bounds _

section Functions

variable (stack : Stack)

theorem sntpRetry_goesOn (s : Sntp) (h : RetryInTime s) : GoesOn stack.room [] s (sntpRetry stack s) := by
  obtain ⟨hlo, hhi⟩ := h
  have hdue : InTime s.now ⟨s.now + s.sntpRetryTimeout.toNat, .sntpRequest⟩ :=
    ⟨Nat.add_le_add_left hlo _, Nat.add_le_add_left (by omega) _⟩
  rw [sntpRetry_eq]
  exact ⟨rfl, rfl, requests_act _ s, .inl ⟨_, hdue, rfl, rfl⟩⟩

theorem sntpSendRequest_goesOn (addr : UInt32) (s : Sntp) :
    GoesOn stack.room [] s (sntpSendRequest stack addr s) := by
  unfold sntpSendRequest
  split
  · exact ⟨rfl, rfl, requests_act _ s, .inl ⟨⟨s.now + 3000, .sntpRetry⟩, rfl, rfl, rfl⟩⟩
  · have hdue : InTime s.now ⟨s.now + 3000, .sntpRequest⟩ := ⟨le_rfl, Nat.add_le_add_left (by omega) _⟩
    exact ⟨rfl, rfl, (List.append_nil _).symm, .inl ⟨_, hdue, rfl, rfl⟩⟩

theorem sntpDnsFound_goesOn (s : Sntp) (h : RetryInTime s) (ipaddr : Option UInt32) :
    GoesOn stack.room [] s (sntpDnsFound stack ipaddr s) := by
  cases ipaddr with
  | none => exact sntpRetry_goesOn stack s h
  | some addr => exact sntpSendRequest_goesOn stack addr s

theorem sntpRequest_goesOn (s : Sntp) : GoesOn stack.room [s.now] s (sntpRequest stack s) := by
  have hasked : requests (s.act .lookup) = requests s ++ [s.now] := requests_act _ s
  unfold sntpRequest
  cases stack.dns with
  | ok addr =>
    have h := sntpSendRequest_goesOn stack addr (s.act .lookup)
    refine ⟨h.now, h.pcb, ?_, .inl (h.more.resolve_right fun hmore => hmore.1 rfl)⟩
    rw [← hasked, ← List.append_nil (requests (s.act .lookup))]
    exact h.requested
  | inProgress => exact ⟨rfl, rfl, hasked, .inr ⟨List.cons_ne_nil _ _, rfl, rfl⟩⟩
  | other => exact ⟨rfl, rfl, hasked, .inl ⟨⟨s.now + 3000, .sntpRetry⟩, rfl, rfl, rfl⟩⟩

/-- The requests that a timeout makes when it expires at `now`. -/
def SntpHandler.asks (now : ℕ) : SntpHandler → List ℕ
  | .sntpRequest => [now]
  | .sntpRetry => []

theorem run_goesOn (s : Sntp) (h : RetryInTime s) (handler : SntpHandler) :
    GoesOn stack.room (SntpHandler.asks s.now handler) s (handler.run stack s) := by
  cases handler with
  | sntpRequest => exact sntpRequest_goesOn stack s
  | sntpRetry => exact sntpRetry_goesOn stack s h

/-- `sntp_recv` stops a timeout of each kind first. -/
def stopped (s : Sntp) : Sntp := sysUntimeout .sntpRequest (sysUntimeout .sntpRetry s)

theorem sntpRecv_goesOn (s : Sntp) (h : RetryInTime s) (p : Bytes) :
    GoesOn stack.room [] (stopped s) (sntpRecv stack p s) := by
  have hstopped : RetryInTime (stopped s) := h
  unfold sntpRecv
  cases sntpCheck p with
  | error err => cases err <;> exact sntpRetry_goesOn stack _ hstopped
  | ok ts =>
    have hdue : InTime s.now ⟨s.now + 3600000, .sntpRequest⟩ := ⟨Nat.add_le_add_left (by omega) _, le_rfl⟩
    exact ⟨rfl, rfl, requests_act _ s, .inl ⟨_, hdue, rfl, rfl⟩⟩

end Functions

theorem stopped_length (h : s.timeouts ≠ []) : (stopped s).timeouts.length + 1 ≤ s.timeouts.length := by
  obtain ⟨t, hmem⟩ := List.exists_mem_of_ne_nil _ h
  have hpos := List.length_pos_of_mem hmem
  have hretry := length_cancel_le SntpHandler.sntpRetry s.timeouts
  have hrequest := length_cancel_le SntpHandler.sntpRequest (cancel .sntpRetry s.timeouts)
  show (cancel .sntpRequest (cancel .sntpRetry s.timeouts)).length + 1 ≤ _
  by_cases hkind : ∃ u ∈ s.timeouts, u.handler = .sntpRetry
  · obtain ⟨u, hu, heq⟩ := hkind
    have hlen := length_cancel_of_mem hu
    rw [heq] at hlen
    omega
  · -- none is a retry, so all stay until the first request goes
    have hnone : ∀ u ∈ s.timeouts, u.handler ≠ .sntpRetry := fun u hu heq => hkind ⟨u, hu, heq⟩
    have hstay : cancel .sntpRetry s.timeouts = s.timeouts :=
      List.eraseP_of_forall_not fun u hu => by simpa using hnone u hu
    have heq : t.handler = .sntpRequest := by
      cases hh : t.handler with
      | sntpRequest => rfl
      | sntpRetry => exact absurd hh (hnone t hmem)
    have hlen := length_cancel_of_mem hmem
    rw [heq] at hlen
    rw [hstay]
    omega

lemma stopped_of_one (h : s.timeouts.length ≤ 1) : (stopped s).timeouts = [] := by
  by_cases hts : s.timeouts = []
  · show cancel _ (cancel _ s.timeouts) = []
    rw [hts]
    rfl
  · have hlen := stopped_length hts
    exact List.length_eq_zero_iff.1 (by omega)

/-! ### One call -/

/-- Nothing that is pending changes. -/
structure Rests (s s' : Sntp) : Prop where
  pcb : s'.sntpPcb = s.sntpPcb
  timeouts : s'.timeouts = s.timeouts
  lookups : s'.lookups = s.lookups
  requested : requests s' = requests s

lemma Rests.activities_eq (h : Rests s s') : activities s' = activities s := by
  unfold activities
  rw [h.timeouts, h.lookups]

/-- What a call takes off the pending things before it goes on, whether there is room then, and the
requests it makes on the way. -/
inductive Takes (s : Sntp) (e : SntpEvent) : Bool → List ℕ → Sntp → Prop
  | opened (tz : Int32) (stack : Stack) (hcall : e.call = .init tz stack) (hpcb : s.sntpPcb = false) :
    Takes s e stack.room [e.time] { s with now := e.time, sntpTz := tz, sntpRetryTimeout, sntpPcb := true }
  | timeout (stack : Stack) (t : Timeout SntpHandler) (timeouts : List (Timeout SntpHandler))
      (hcall : e.call = .timeout stack) (hts : s.timeouts = t :: timeouts) :
    Takes s e stack.room (SntpHandler.asks e.time t.handler) { s with now := e.time, timeouts }
  | found (ipaddr : Option UInt32) (stack : Stack) (hcall : e.call = .dnsFound ipaddr stack)
      (hlookups : s.lookups ≠ 0) :
    Takes s e stack.room [] { s with now := e.time, lookups := s.lookups - 1 }
  | datagram (p : Bytes) (stack : Stack) (hcall : e.call = .recv p stack) (hpcb : s.sntpPcb = true) :
    Takes s e stack.room [] (stopped { s with now := e.time })

lemma Takes.hasRoom {room : Bool} {asked : List ℕ} {s₀ : Sntp} {e : SntpEvent}
    (ht : Takes s e room asked s₀) (hroom : HasRoom e) : room = true := by
  unfold HasRoom at hroom
  cases ht with
  | opened tz stack hcall => rwa [hcall] at hroom
  | timeout stack t timeouts hcall => rwa [hcall] at hroom
  | found ipaddr stack hcall => rwa [hcall] at hroom
  | datagram p stack hcall => rwa [hcall] at hroom

/-- **What a call does**: nothing, or it takes something off and goes on with something new. -/
theorem step_goesOn (h : BacksOff s) (e : SntpEvent) :
    (s.step e).now = e.time ∧
      (Rests s (s.step e) ∨
        ∃ room asked s₀, Takes s e room asked s₀ ∧ GoesOn room asked s₀ (s.step e)) := by
  have hrests : Rests s { s with now := e.time } := ⟨rfl, rfl, rfl, rfl⟩
  apply Sntp.step_cases (P := fun s' => s'.now = e.time ∧
    (Rests s s' ∨ ∃ room asked s₀, Takes s e room asked s₀ ∧ GoesOn room asked s₀ s'))
  case still => exact ⟨rfl, .inl hrests⟩
  case init =>
    intro tz stack hcall
    rcases Bool.eq_false_or_eq_true s.sntpPcb with hpcb | hpcb
    · have hnow : ({ s with now := e.time } : Sntp).sntpPcb = true := hpcb
      rw [sntpInit_of_pcb hnow]
      exact ⟨rfl, .inl ⟨rfl, rfl, rfl, rfl⟩⟩
    · have hnow : ({ s with now := e.time } : Sntp).sntpPcb = false := hpcb
      rw [sntpInit_of_not_pcb hnow]
      split
      · have hon := sntpRequest_goesOn stack
          { s with now := e.time, sntpTz := tz, sntpRetryTimeout, sntpPcb := true }
        exact ⟨hon.now, .inr ⟨_, _, _, .opened tz stack hcall hpcb, hon⟩⟩
      · exact ⟨rfl, .inl ⟨rfl, rfl, rfl, rfl⟩⟩
  case timeout =>
    intro stack t timeouts hcall hts
    have hretry : RetryInTime s := h.retryInTime (h.pcb_of_timeouts (by simp [hts]))
    have hon := run_goesOn stack { s with now := e.time, timeouts } hretry t.handler
    exact ⟨hon.now, .inr ⟨_, _, _, .timeout stack t timeouts hcall hts, hon⟩⟩
  case dnsFound =>
    intro ipaddr stack hcall hlookups
    have hretry : RetryInTime s := h.retryInTime (h.pcb_of_lookups hlookups)
    have hon := sntpDnsFound_goesOn stack { s with now := e.time, lookups := s.lookups - 1 } hretry ipaddr
    exact ⟨hon.now, .inr ⟨_, _, _, .found ipaddr stack hcall hlookups, hon⟩⟩
  case recv =>
    intro p stack hcall hpcb
    have hon := sntpRecv_goesOn stack { s with now := e.time } (h.retryInTime hpcb) p
    exact ⟨hon.now, .inr ⟨_, _, _, .datagram p stack hcall hpcb, hon⟩⟩
  case ntpTimer =>
    intro _ _
    exact ⟨rfl, .inl ⟨rfl, rfl, rfl, rfl⟩⟩

/-! ### Strays -/

/-- A datagram comes in while a lookup waits, and there is room for the timeout that it sets. -/
def Stray (s : Sntp) (e : SntpEvent) : Prop :=
  s.lookups ≠ 0 ∧ ∃ p stack, e.call = .recv p stack ∧ stack.room = true

instance (s : Sntp) (e : SntpEvent) : Decidable (Stray s e) :=
  match e with
  | ⟨_, .recv p stack⟩ => decidable_of_iff (s.lookups ≠ 0 ∧ stack.room = true)
      ⟨fun h => ⟨h.1, p, stack, rfl, h.2⟩, fun h => ⟨h.1, by
        obtain ⟨-, _, _, hcall, hroom⟩ := h
        obtain ⟨-, rfl⟩ := SntpCall.recv.inj hcall
        exact hroom⟩⟩
  | ⟨_, .init _ _⟩ => isFalse fun ⟨_, _, _, hcall, _⟩ => nomatch hcall
  | ⟨_, .timeout _⟩ => isFalse fun ⟨_, _, _, hcall, _⟩ => nomatch hcall
  | ⟨_, .dnsFound _ _⟩ => isFalse fun ⟨_, _, _, hcall, _⟩ => nomatch hcall
  | ⟨_, .ntpTimer⟩ => isFalse fun ⟨_, _, _, hcall, _⟩ => nomatch hcall

/-- The strays of a run. -/
def strays (s : Sntp) (es : List SntpEvent) : List SntpEvent :=
  projected Sntp.step (fun s e => if Stray s e then [e] else []) s es

/-- The retries back off, something is pending once the socket is open, and the timeouts are in order. -/
structure Alive (s : Sntp) : Prop where
  backsOff : BacksOff s
  pending : s.sntpPcb = true → 1 ≤ activities s
  inOrder : InOrder s.timeouts

lemma alive_start : Alive .start := ⟨backsOff_start, fun h => absurd h Bool.false_ne_true, List.Pairwise.nil⟩

theorem Alive.timeouts_ne_nil (h : Alive s) (hpcb : s.sntpPcb = true) (hl : s.lookups = 0) :
    s.timeouts ≠ [] := by
  intro hts
  have hpending := h.pending hpcb
  unfold activities at hpending
  rw [hts, hl] at hpending
  exact absurd hpending (Nat.not_succ_le_zero 0)

theorem Takes.sublist {room : Bool} {asked : List ℕ} {s₀ : Sntp} {e : SntpEvent}
    (ht : Takes s e room asked s₀) : s₀.timeouts.Sublist s.timeouts := by
  cases ht with
  | opened => exact List.Sublist.refl _
  | timeout stack t timeouts hcall hts =>
    rw [hts]
    exact List.sublist_cons_self t timeouts
  | found => exact List.Sublist.refl _
  | datagram => exact (cancel_sublist _ _).trans (cancel_sublist _ _)

theorem GoesOn.inOrder {room : Bool} {asked : List ℕ} (hon : GoesOn room asked s s')
    (h : InOrder s.timeouts) : InOrder s'.timeouts := by
  rcases hon.more with ⟨t, -, hts, -⟩ | ⟨-, hts, -⟩
  · rw [hts]
    split
    · exact inOrder_put t h
    · exact h
  · rw [hts]
    exact h

theorem Takes.pcb {room : Bool} {asked : List ℕ} {s₀ : Sntp} {e : SntpEvent} (h : BacksOff s)
    (ht : Takes s e room asked s₀) : s₀.sntpPcb = true := by
  cases ht with
  | opened => rfl
  | timeout stack t timeouts hcall hts => exact h.pcb_of_timeouts (by simp [hts])
  | found ipaddr stack hcall hlookups => exact h.pcb_of_lookups hlookups
  | datagram p stack hcall hpcb => exact hpcb

/-- **No call adds to what is pending**, but for the one that opens the socket and for strays: before it
goes on, it has taken something off. -/
theorem activities_step_le (h : BacksOff s) (e : SntpEvent) :
    activities (s.step e) ≤ max 1 (activities s) + if Stray s e then 1 else 0 := by
  obtain ⟨-, hrests | ⟨room, asked, s₀, ht, hon⟩⟩ := step_goesOn h e
  · rw [hrests.activities_eq]
    exact (le_max_right 1 _).trans (Nat.le_add_right _ _)
  · have hle := hon.activities_le
    unfold activities at hle ⊢
    cases ht with
    | opened tz stack hcall hpcb =>
      obtain ⟨-, hts, hl⟩ := h.idle hpcb
      change _ ≤ s.timeouts.length + s.lookups + 1 at hle
      rw [hts, hl, List.length_nil] at hle
      omega
    | timeout stack t timeouts hcall hts =>
      change _ ≤ timeouts.length + s.lookups + 1 at hle
      rw [hts, List.length_cons]
      omega
    | found ipaddr stack hcall hlookups =>
      change _ ≤ s.timeouts.length + (s.lookups - 1) + 1 at hle
      omega
    | datagram p stack hcall hpcb =>
      change _ ≤ (stopped s).timeouts.length + s.lookups + 1 at hle
      have hstopped : (stopped s).timeouts.length ≤ s.timeouts.length :=
        (length_cancel_le _ _).trans (length_cancel_le _ _)
      by_cases hl : s.lookups = 0
      · by_cases hts : s.timeouts = []
        · rw [hts, List.length_nil] at hstopped
          omega
        · have hlen := stopped_length hts
          omega
      · cases hroom : stack.room with
        | true =>
          rw [if_pos ⟨hl, p, stack, hcall, hroom⟩]
          omega
        | false =>
          -- `sntp_recv` asks for nothing, and its timeout finds no room
          rw [hroom] at hon
          have heq := hon.activities_of_full
          unfold activities at heq
          change _ = (stopped s).timeouts.length + s.lookups at heq
          omega

theorem pcb_step (h : BacksOff s) (hpcb : s.sntpPcb = true) (e : SntpEvent) : (s.step e).sntpPcb = true := by
  obtain ⟨-, hrests | ⟨room, asked, s₀, ht, hon⟩⟩ := step_goesOn h e
  · exact hrests.pcb.trans hpcb
  · exact hon.pcb.trans (ht.pcb h)

/-- **Each call leaves something pending**, if there is room. -/
theorem alive_step (h : Alive s) {e : SntpEvent} (hroom : HasRoom e) : Alive (s.step e) := by
  obtain ⟨-, hrests | ⟨room, asked, s₀, ht, hon⟩⟩ := step_goesOn h.backsOff e
  · refine ⟨backsOff_step h.backsOff e, fun hopen => ?_, ?_⟩
    · rw [hrests.activities_eq]
      exact h.pending (hrests.pcb.symm.trans hopen)
    · rw [hrests.timeouts]
      exact h.inOrder
  · refine ⟨backsOff_step h.backsOff e, fun _ => ?_, hon.inOrder (h.inOrder.sublist ht.sublist)⟩
    obtain rfl := ht.hasRoom hroom
    rw [hon.activities_eq]
    exact Nat.le_add_left 1 _

/-- With one thing pending, a stray leaves two. -/
theorem activities_of_stray (h : BacksOff s) (hone : activities s = 1) {e : SntpEvent}
    (hstray : Stray s e) : activities (s.step e) = 2 := by
  obtain ⟨hl, p, stack, hcall, hroom⟩ := hstray
  have hpcb := h.pcb_of_lookups hl
  have hts : s.timeouts = [] := by
    unfold activities at hone
    exact List.length_eq_zero_iff.1 (by omega)
  obtain ⟨time, call⟩ := e
  obtain rfl : call = .recv p stack := hcall
  have hstep : s.step ⟨time, .recv p stack⟩ = sntpRecv stack p { s with now := time } := if_pos hpcb
  have hon := sntpRecv_goesOn stack { s with now := time } (h.retryInTime hpcb) p
  rw [hroom] at hon
  have hstopped : (stopped s).timeouts = [] := stopped_of_one (by simp [hts])
  have hsame : activities (stopped { s with now := time }) = activities s := by
    show (stopped s).timeouts.length + s.lookups = s.timeouts.length + s.lookups
    rw [hstopped, hts]
  rw [hstep, hon.activities_eq, hsame, hone]

/-! ### Runs -/

lemma alive_run {es : List SntpEvent} (hroom : ∀ e ∈ es, HasRoom e) : Alive (run Sntp.step .start es) :=
  run_of_throughout Sntp.step (throughout_of_step (P := Alive) Sntp.step (fun _ _ h he => alive_step h he)
    alive_start ((along_event_iff Sntp.step).2 hroom))

theorem activities_run_le (h : BacksOff s) (es : List SntpEvent) :
    activities (run Sntp.step s es) ≤ max 1 (activities s) + (strays s es).length := by
  induction es generalizing s with
  | nil => exact (le_max_right 1 _).trans (Nat.le_add_right _ _)
  | cons e es ih =>
    have hlen : (strays s (e :: es)).length =
        (if Stray s e then 1 else 0) + (strays (s.step e) es).length := by
      unfold strays
      rw [projected, List.length_append]
      split <;> rfl
    have hstep := activities_step_le h e
    have hrest := ih (backsOff_step h e)
    rw [run_cons, hlen]
    omega

/-- **The client never stops**: once the socket is open, a timeout or a lookup is pending, as long as there
was room for its timeouts, and there is at most one more than datagrams have come in while a lookup
waited. -/
theorem something_pending (es : List SntpEvent) :
    let s := run Sntp.step .start es
    ((∀ e ∈ es, HasRoom e) → s.sntpPcb = true → 1 ≤ activities s) ∧
      activities s ≤ 1 + (strays .start es).length := by
  intro s
  exact ⟨fun hroom => (alive_run hroom).pending, activities_run_le backsOff_start es⟩

/-- **One thing at a time**: never are two timeouts or lookups pending, exactly if no datagram comes in while
a lookup waits. -/
theorem one_pending_iff (es : List SntpEvent) :
    Throughout Sntp.step (fun s => activities s ≤ 1) .start es ↔
      Along Sntp.step (fun s e => ¬ Stray s e) .start es := by
  refine throughout_iff_along (V := fun _ _ => True) (I := fun s => BacksOff s ∧ activities s ≤ 1)
    Sntp.step ?_ ?_ ⟨backsOff_start, Nat.zero_le 1⟩ (Nat.zero_le 1) ((along_event_iff _).2 fun _ _ => trivial)
  · intro s e ⟨h, hone⟩ _ hstray
    have hle := activities_step_le h e
    rw [if_neg hstray] at hle
    exact ⟨backsOff_step h e, by omega⟩
  · intro s e ⟨h, hone⟩ _
    constructor
    · intro hle hstray
      have hpending : 1 ≤ activities s := (Nat.one_le_iff_ne_zero.2 hstray.1).trans (Nat.le_add_left _ _)
      have htwo := activities_of_stray h (by omega) hstray
      omega
    · intro hstray
      have hle := activities_step_le h e
      rw [if_neg hstray] at hle
      omega

end Esp8266Rest.Sntp
