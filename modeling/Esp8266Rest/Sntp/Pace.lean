import Esp8266Rest.Sntp.Client
import Mathlib.Data.List.Chain

/-!
# The pace of the requests

Whatever is pending, no more expiries are needed than there are timeouts, and one, to the next request
(`requests_again`), as long as `sys_timeout` finds room.

With a stack that runs a timeout when it is due (`OnTime`), `sntp_request` runs neither too often nor too
rarely.  Two requests are at least three seconds apart (`requests_apart`), unless a datagram comes in while
a lookup waits.  And from any moment on at which no lookup waits, the next one comes within an hour
(`request_within`), unless a datagram comes in before or there is no room for a timeout.
-/

namespace Esp8266Rest.Sntp

open Esp8266Rest.Lib.CStr Esp8266Rest.Lib.Runs Esp8266Rest.Lib.Timeouts Esp8266Rest.Model

variable {s s' : Sntp} {late : ℕ}

/-- The stack runs a timeout when it is due, at most `late` milliseconds behind. -/
structure OnTime (late : ℕ) (s : Sntp) (e : SntpEvent) : Prop where
  le : s.now ≤ e.time
  due : ∀ t ∈ s.timeouts, e.time ≤ t.due + late
  notEarly : ∀ stack t timeouts, e.call = .timeout stack → s.timeouts = t :: timeouts → t.due ≤ e.time

/-! ### The next callbacks -/

theorem Takes.requests_eq {room : Bool} {asked : List ℕ} {s₀ : Sntp} {e : SntpEvent}
    (ht : Takes s e room asked s₀) :
    requests s₀ = requests s := by
  cases ht <;> rfl

theorem requests_step (h : BacksOff s) (e : SntpEvent) :
    (requests s).length ≤ (requests (s.step e)).length := by
  obtain ⟨-, hrests | ⟨room, asked, s₀, ht, hon⟩⟩ := step_goesOn h e
  · rw [hrests.requested]
  · rw [hon.requested, ht.requests_eq, List.length_append]
    exact Nat.le_add_right _ _

theorem requests_run (h : BacksOff s) (es : List SntpEvent) :
    (requests s).length ≤ (requests (run Sntp.step s es)).length := by
  induction es generalizing s with
  | nil => exact le_rfl
  | cons e es ih => exact (requests_step h e).trans (ih (backsOff_step h e))

/-- A timeout that waits for a response. -/
def isRetry (t : Timeout SntpHandler) : Bool := t.handler = .sntpRetry

/-- As long as the first timeouts only retry, there is one less of them each time. -/
theorem requests_of_retries (h : Alive s) (hpcb : s.sntpPcb = true) (hl : s.lookups = 0)
    {fs : List SntpEvent} (hroom : ∀ e ∈ fs, HasRoom e) (hfs : ∀ e ∈ fs, ∃ stack, e.call = .timeout stack)
    (hlen : s.timeouts.countP isRetry < fs.length) :
    (requests s).length < (requests (run Sntp.step s fs)).length := by
  induction fs generalizing s with
  | nil => exact absurd hlen (Nat.not_lt_zero _)
  | cons e fs ih =>
    have hretry : RetryInTime s := h.backsOff.retryInTime hpcb
    have hroom' : HasRoom e := hroom e List.mem_cons_self
    have halive := alive_step h hroom'
    have hopen := pcb_step h.backsOff hpcb e
    obtain ⟨time, call⟩ := e
    obtain ⟨stack, rfl⟩ : ∃ stack, call = .timeout stack := hfs _ List.mem_cons_self
    cases hts : s.timeouts with
    | nil => exact absurd hts (h.timeouts_ne_nil hpcb hl)
    | cons t timeouts =>
      have hstep : s.step ⟨time, .timeout stack⟩ =
          t.handler.run stack { s with now := time, timeouts } := Sntp.step_timeout rfl hts
      rw [hts, List.countP_cons] at hlen
      cases hh : t.handler with
      | sntpRequest =>
        have hon := sntpRequest_goesOn stack { s with now := time, timeouts }
        have hrest := requests_run halive.backsOff fs
        rw [hh] at hstep
        rw [run_cons]
        refine Nat.lt_of_lt_of_le ?_ hrest
        rw [hstep]
        show _ < (requests (sntpRequest stack _)).length
        rw [hon.requested, List.length_append]
        exact Nat.lt_succ_self _
      | sntpRetry =>
        have hon := sntpRetry_goesOn stack { s with now := time, timeouts } hretry
        rw [hh] at hstep
        replace hstep : s.step ⟨time, .timeout stack⟩ =
            sntpRetry stack { s with now := time, timeouts } := hstep
        have hsame : requests (s.step ⟨time, .timeout stack⟩) = requests s := by
          rw [hstep, hon.requested]
          exact List.append_nil _
        have hcount : (s.step ⟨time, .timeout stack⟩).timeouts.countP isRetry = timeouts.countP isRetry := by
          have hfree : stack.room = true := hroom'
          rw [hstep, sntpRetry_eq]
          show (if stack.room then put _ timeouts else timeouts).countP isRetry = _
          rw [if_pos hfree, countP_put, List.countP_cons]
          rfl
        have hone : isRetry t = true := decide_eq_true hh
        rw [run_cons, ← hsame]
        apply ih halive hopen
        · rw [hstep, sntpRetry_eq]
          exact hl
        · exact fun e he => hroom e (List.mem_cons_of_mem _ he)
        · exact fun e he => hfs e (List.mem_cons_of_mem _ he)
        · rw [hcount]
          rw [hone, List.length_cons] at hlen
          simp only [if_true] at hlen
          omega

/-- **The next request comes**: whatever happened before, if no lookup waits, one more run of the stack's
timeouts than there are makes a request, as long as there is room for the timeouts. -/
theorem requests_again (es fs : List SntpEvent) (hroom : ∀ e ∈ es ++ fs, HasRoom e)
    (hpcb : (run Sntp.step .start es).sntpPcb = true)
    (hl : (run Sntp.step .start es).lookups = 0) (hfs : ∀ e ∈ fs, ∃ stack, e.call = .timeout stack)
    (hlen : (run Sntp.step .start es).timeouts.length < fs.length) :
    (requests (run Sntp.step .start es)).length < (requests (run Sntp.step .start (es ++ fs))).length := by
  obtain ⟨hbefore, hafter⟩ := List.forall_mem_append.1 hroom
  rw [run_append]
  exact requests_of_retries (alive_run hbefore) hpcb hl hafter hfs (List.countP_le_length.trans_lt hlen)

/-- A socket, and no answer. -/
theorem requests_again_unanswered :
    (requests (run Sntp.step .start [⟨0, .init 3 .willing⟩])).length <
      (requests (run Sntp.step .start ([⟨0, .init 3 .willing⟩] ++
        [⟨3000, .timeout .nameless⟩, ⟨6000, .timeout .nameless⟩]))).length := by
  apply requests_again
  · decide
  · rfl
  · rfl
  · simp
  · decide

/-! ### Within an hour -/

/-- No timeout is further away than an hour, and one that waits for a response three seconds. -/
def Timely (s : Sntp) : Prop := ∀ t ∈ s.timeouts,
  match t.handler with
  | .sntpRetry => t.due ≤ s.now + 3000
  | .sntpRequest => t.due ≤ s.now + 3600000

theorem InTime.timely {now : ℕ} {t : Timeout SntpHandler} (h : InTime now t) :
    match t.handler with
    | .sntpRetry => t.due ≤ now + 3000
    | .sntpRequest => t.due ≤ now + 3600000 := by
  unfold InTime at h
  cases hh : t.handler with
  | sntpRequest =>
    rw [hh] at h
    exact h.2
  | sntpRetry =>
    rw [hh] at h
    exact h.le

theorem Timely.goesOn {room : Bool} {asked : List ℕ} (h : Timely s) (hon : GoesOn room asked s s') :
    Timely s' := by
  intro u hu
  rw [hon.now]
  rcases hon.pending hu with ht | hmem
  · exact ht.timely
  · exact h u hmem

theorem Timely.later (h : Timely s) {time : ℕ} (htime : s.now ≤ time) : Timely { s with now := time } := by
  intro t ht
  have hle := h t ht
  show match t.handler with
    | .sntpRetry => t.due ≤ time + 3000
    | .sntpRequest => t.due ≤ time + 3600000
  cases hh : t.handler with
  | sntpRequest =>
    rw [hh] at hle
    exact hle.trans (Nat.add_le_add_right htime _)
  | sntpRetry =>
    rw [hh] at hle
    exact hle.trans (Nat.add_le_add_right htime _)

lemma Timely.fewer (h : Timely s) (hnow : s.now ≤ s'.now) (hsub : ∀ t ∈ s'.timeouts, t ∈ s.timeouts) :
    Timely s' := fun t ht => h.later hnow t (hsub t ht)

theorem Takes.now_eq {room : Bool} {asked : List ℕ} {s₀ : Sntp} {e : SntpEvent}
    (ht : Takes s e room asked s₀) :
    s₀.now = e.time := by
  cases ht <;> rfl

theorem timely_step (h : BacksOff s) (ht : Timely s) {e : SntpEvent} (htime : s.now ≤ e.time) :
    Timely (s.step e) := by
  obtain ⟨hnow, hrests | ⟨room, asked, s₀, htakes, hon⟩⟩ := step_goesOn h e
  · apply ht.fewer (htime.trans hnow.ge)
    rw [hrests.timeouts]
    exact fun t ht => ht
  · exact (ht.fewer (htime.trans htakes.now_eq.ge) fun t ht => htakes.sublist.subset ht).goesOn hon

/-- What is pending leads to a request before `last`, if a stack is at most `late` behind. -/
def LeadsOn (late last : ℕ) (t : Timeout SntpHandler) : Prop :=
  match t.handler with
  | .sntpRetry => t.due + late + 24000 ≤ last
  | .sntpRequest => t.due ≤ last

theorem LeadsOn.due_le {last : ℕ} {t : Timeout SntpHandler} (h : LeadsOn late last t) : t.due ≤ last := by
  unfold LeadsOn at h
  cases hh : t.handler with
  | sntpRequest =>
    rw [hh] at h
    exact h
  | sntpRetry =>
    rw [hh] at h
    simp only at h
    omega

/-- The wait for a request is still within `last`. -/
structure Waiting (late last : ℕ) (s : Sntp) : Prop where
  alive : Alive s
  pcb : s.sntpPcb = true
  lookups : s.lookups = 0
  leads : ∀ t ∈ s.timeouts, LeadsOn late last t
  now : s.now ≤ last + late

/-- **A call that makes no request** leaves what is pending within `last`. -/
theorem waiting_step {last : ℕ} (h : Waiting late last s) {e : SntpEvent} (htime : OnTime late s e)
    (hroom : HasRoom e) (hrecv : ∀ p stack, e.call ≠ .recv p stack)
    (hnone : (requests (s.step e)).length ≤ (requests s).length) :
    Waiting late last (s.step e) := by
  have hretry : RetryInTime s := h.alive.backsOff.retryInTime h.pcb
  obtain ⟨t, hmem⟩ := List.exists_mem_of_ne_nil _ (h.alive.timeouts_ne_nil h.pcb h.lookups)
  -- any timeout that is pending bounds the time of the call
  have hnow : e.time ≤ last + late := by
    have hdue := htime.due t hmem
    have hleads := (h.leads t hmem).due_le
    omega
  have halive := alive_step h.alive hroom
  have hopen := pcb_step h.alive.backsOff h.pcb e
  obtain ⟨heq, hrests | ⟨room, asked, s₀, ht, hon⟩⟩ := step_goesOn h.alive.backsOff e
  · refine ⟨halive, hopen, hrests.lookups.trans h.lookups, ?_, heq.trans_le hnow⟩
    rw [hrests.timeouts]
    exact h.leads
  · cases ht with
    | opened tz stack hcall hpcb => exact absurd (h.pcb.symm.trans hpcb) Bool.noConfusion
    | found ipaddr stack hcall hlookups => exact absurd h.lookups hlookups
    | datagram p stack hcall hpcb => exact absurd hcall (hrecv p stack)
    | timeout stack u timeouts hcall hts =>
      have hu : u ∈ s.timeouts := by simp [hts]
      have hrest : ∀ v ∈ timeouts, LeadsOn late last v := fun v hv => h.leads v (by simp [hts, hv])
      cases hh : u.handler with
      | sntpRequest =>
        rw [hon.requested, hh, List.length_append] at hnone
        exact absurd hnone (Nat.not_succ_le_self _)
      | sntpRetry =>
        -- the retry puts a request there, due in at most 24 seconds
        have hstep := Sntp.step_timeout hcall hts
        rw [hh] at hstep
        change s.step e = sntpRetry stack _ at hstep
        rw [sntpRetry_eq] at hstep
        have hdue := htime.due u hu
        have hleads := h.leads u hu
        unfold LeadsOn at hleads
        rw [hh] at hleads
        simp only at hleads
        have hnew : LeadsOn late last ⟨e.time + s.sntpRetryTimeout.toNat, .sntpRequest⟩ := by
          have := hretry.2
          unfold LeadsOn
          show e.time + s.sntpRetryTimeout.toNat ≤ last
          omega
        refine ⟨halive, hopen, ?_, ?_, heq.trans_le hnow⟩
        · rw [hstep]
          exact h.lookups
        · intro v hv
          rw [hstep] at hv
          rcases mem_put_or hv with rfl | hmem
          · exact hnew
          · exact hrest v hmem

theorem waiting_run {last : ℕ} (h : Waiting late last s) {fs : List SntpEvent}
    (htime : Along Sntp.step (OnTime late) s fs) (hroom : ∀ e ∈ fs, HasRoom e)
    (hrecv : ∀ e ∈ fs, ∀ p stack, e.call ≠ .recv p stack)
    (hnone : (requests (run Sntp.step s fs)).length ≤ (requests s).length) :
    Waiting late last (run Sntp.step s fs) := by
  induction fs generalizing s with
  | nil => exact h
  | cons e fs ih =>
    have hfirst := requests_step h.alive.backsOff e
    have hrest := requests_run (backsOff_step h.alive.backsOff e) fs
    rw [run_cons] at hnone
    have hstep := waiting_step h htime.1 (hroom e List.mem_cons_self) (hrecv e List.mem_cons_self)
      (hrest.trans hnone)
    exact ih hstep htime.2 (fun f hf => hroom f (List.mem_cons_of_mem _ hf))
      (fun f hf => hrecv f (List.mem_cons_of_mem _ hf)) (hnone.trans hfirst)

theorem timely_run {es : List SntpEvent} (htime : Along Sntp.step (OnTime late) .start es) :
    Timely (run Sntp.step .start es) := by
  have hstart : BacksOff .start ∧ Timely .start := ⟨backsOff_start, fun t ht => nomatch ht⟩
  have hstep : ∀ (s : Sntp) (e : SntpEvent), BacksOff s ∧ Timely s → OnTime late s e →
      BacksOff (s.step e) ∧ Timely (s.step e) :=
    fun s e h htime => ⟨backsOff_step h.1 e, timely_step h.1 h.2 htime.le⟩
  exact (run_of_throughout Sntp.step (throughout_of_step (P := fun s => BacksOff s ∧ Timely s)
    Sntp.step hstep hstart htime)).2

/-- **The next request comes within an hour**: if no lookup waits, no datagram comes in and there is room for
the timeouts, a run without a request takes no longer, but for what the stack is late with two timeouts. -/
theorem request_within (late : ℕ) (es fs : List SntpEvent) (hroom : ∀ e ∈ es ++ fs, HasRoom e)
    (htime : Along Sntp.step (OnTime late) .start (es ++ fs))
    (hpcb : (run Sntp.step .start es).sntpPcb = true) (hl : (run Sntp.step .start es).lookups = 0)
    (hrecv : ∀ e ∈ fs, ∀ p stack, e.call ≠ .recv p stack)
    (hnone : requests (run Sntp.step .start (es ++ fs)) = requests (run Sntp.step .start es)) :
    (run Sntp.step .start (es ++ fs)).now ≤ (run Sntp.step .start es).now + 3600000 + 2 * late := by
  obtain ⟨hbefore, hafter⟩ := List.forall_mem_append.1 hroom
  rw [along_append] at htime
  rw [run_append] at hnone ⊢
  have htimely := timely_run htime.1
  have hwaiting : Waiting late ((run Sntp.step .start es).now + 3600000 + late) (run Sntp.step .start es) := by
    refine ⟨alive_run hbefore, hpcb, hl, fun t ht => ?_, by omega⟩
    have hle := htimely t ht
    unfold LeadsOn
    cases hh : t.handler with
    | sntpRequest =>
      rw [hh] at hle
      simp only at hle ⊢
      omega
    | sntpRetry =>
      rw [hh] at hle
      simp only at hle ⊢
      omega
  have hlast := (waiting_run hwaiting htime.2 hafter hrecv (congrArg List.length hnone).le).now
  omega

/-- No answer: the timeout expires, and the client retries. -/
theorem request_within_unanswered :
    (run Sntp.step .start ([⟨0, .init 3 .willing⟩] ++ [⟨3000, .timeout .nameless⟩])).now ≤
      (run Sntp.step .start [⟨0, .init 3 .willing⟩]).now + 3600000 + 2 * 0 := by
  apply request_within 0
  · decide
  · refine ⟨⟨le_rfl, fun t ht => (nomatch ht), fun _ _ _ h => nomatch h⟩, ⟨?_, ?_, ?_⟩, trivial⟩
    · exact Nat.zero_le 3000
    · intro t ht
      obtain rfl := List.mem_singleton.1 ht
      exact le_rfl
    · intro stack t timeouts _ hts
      obtain ⟨rfl, -⟩ := List.cons.inj hts
      exact le_rfl
  · rfl
  · rfl
  · intro e he p stack
    obtain rfl := List.mem_singleton.1 he
    exact SntpCall.noConfusion
  · rfl

/-! ### Three seconds apart -/

/-- Three seconds at least. -/
def Apart (t u : ℕ) : Prop := t + 3000 ≤ u

/-- The requests are apart, and so will be the next one. -/
structure Spaced (s : Sntp) : Prop where
  apart : (requests s).IsChain Apart
  past : ∀ r ∈ (requests s).getLast?, r ≤ s.now
  ahead : ∀ r ∈ (requests s).getLast?, ∀ t ∈ s.timeouts, Apart r t.due

theorem InTime.le_due {now : ℕ} {t : Timeout SntpHandler} (h : InTime now t) : now + 3000 ≤ t.due := by
  unfold InTime at h
  cases hh : t.handler with
  | sntpRequest =>
    rw [hh] at h
    exact h.1
  | sntpRetry =>
    rw [hh] at h
    exact h.ge

/-- With nothing else pending, what comes next is far enough. -/
theorem GoesOn.spaced {room : Bool} {asked : List ℕ} (hon : GoesOn room asked s s') (hts : s.timeouts = [])
    (hapart : (requests s ++ asked).IsChain Apart) (hpast : ∀ r ∈ (requests s ++ asked).getLast?, r ≤ s.now) :
    Spaced s' := by
  rw [← hon.requested] at hapart hpast
  refine ⟨hapart, ?_, ?_⟩
  · rw [hon.now]
    exact hpast
  · intro r hr u hu
    have hle := hpast r hr
    rcases hon.pending hu with ht | hmem
    · have hdue := ht.le_due
      unfold Apart
      omega
    · rw [hts] at hmem
      nomatch hmem

theorem isChain_concat_of_last {l : List ℕ} {a : ℕ} (hl : l.IsChain Apart)
    (hlast : ∀ r ∈ l.getLast?, Apart r a) : (l ++ [a]).IsChain Apart := by
  rw [List.isChain_append]
  refine ⟨hl, List.isChain_singleton a, fun r hr b hb => ?_⟩
  obtain rfl : a = b := by simpa using hb
  exact hlast r hr

theorem spaced_step (h : BacksOff s) (hone : activities s ≤ 1) (hs : Spaced s) {e : SntpEvent}
    (htime : OnTime late s e) : Spaced (s.step e) := by
  have hpast : ∀ r ∈ (requests s).getLast?, r ≤ e.time := fun r hr => (hs.past r hr).trans htime.le
  unfold activities at hone
  obtain ⟨heq, hrests | ⟨room, asked, s₀, ht, hon⟩⟩ := step_goesOn h e
  · refine ⟨?_, ?_, ?_⟩
    · rw [hrests.requested]
      exact hs.apart
    · rw [hrests.requested, heq]
      exact hpast
    · rw [hrests.requested, hrests.timeouts]
      exact hs.ahead
  · cases ht with
    | opened tz stack hcall hpcb =>
      obtain ⟨hacts, hts, -⟩ := h.idle hpcb
      have hnone : requests s = [] := by
        unfold requests
        rw [hacts]
        rfl
      apply hon.spaced hts
      · show (requests s ++ [e.time]).IsChain Apart
        rw [hnone]
        exact List.isChain_singleton e.time
      · show ∀ r ∈ (requests s ++ [e.time]).getLast?, r ≤ e.time
        rw [hnone]
        intro r hr
        exact (Option.some.inj hr).ge
    | timeout stack t timeouts hcall hts =>
      have hmem : t ∈ s.timeouts := by simp [hts]
      have hnil : timeouts = [] := by
        rw [hts, List.length_cons] at hone
        exact List.length_eq_zero_iff.1 (by omega)
      have hearly := htime.notEarly stack t timeouts hcall hts
      have hlast : ∀ r ∈ (requests s).getLast?, Apart r e.time := by
        intro r hr
        have := hs.ahead r hr t hmem
        unfold Apart at this ⊢
        omega
      apply hon.spaced hnil
      · show (requests s ++ SntpHandler.asks e.time t.handler).IsChain Apart
        cases t.handler with
        | sntpRequest => exact isChain_concat_of_last hs.apart hlast
        | sntpRetry =>
          rw [SntpHandler.asks, List.append_nil]
          exact hs.apart
      · show ∀ r ∈ (requests s ++ SntpHandler.asks e.time t.handler).getLast?, r ≤ e.time
        cases t.handler with
        | sntpRequest =>
          intro r hr
          rw [SntpHandler.asks, List.getLast?_concat] at hr
          exact (Option.some.inj hr).ge
        | sntpRetry =>
          rw [SntpHandler.asks, List.append_nil]
          exact hpast
    | found ipaddr stack hcall hlookups =>
      have hnil : s.timeouts = [] := List.length_eq_zero_iff.1 (by omega)
      apply hon.spaced hnil
      · rw [List.append_nil]
        exact hs.apart
      · rw [List.append_nil]
        exact hpast
    | datagram p stack hcall hpcb =>
      have hnil : (stopped s).timeouts = [] := stopped_of_one (by omega)
      apply hon.spaced hnil
      · rw [List.append_nil]
        exact hs.apart
      · rw [List.append_nil]
        exact hpast

/-- **The requests are three seconds apart**, at least, however late the stack is with its timeouts, unless a
datagram comes in while a lookup waits. -/
theorem requests_apart (late : ℕ) (es : List SntpEvent)
    (htime : Along Sntp.step (fun s e => OnTime late s e ∧ ¬ Stray s e) .start es) :
    (requests (run Sntp.step .start es)).IsChain fun t u => t + 3000 ≤ u := by
  have hstart : (BacksOff .start ∧ activities .start ≤ 1) ∧ Spaced .start :=
    ⟨⟨backsOff_start, Nat.zero_le 1⟩, List.isChain_nil, fun r hr => (nomatch hr), fun r hr => nomatch hr⟩
  have hstep : ∀ (s : Sntp) (e : SntpEvent), (BacksOff s ∧ activities s ≤ 1) ∧ Spaced s →
      OnTime late s e ∧ ¬ Stray s e →
        (BacksOff (s.step e) ∧ activities (s.step e) ≤ 1) ∧ Spaced (s.step e) := by
    intro s e ⟨⟨h, hone⟩, hs⟩ ⟨htime, hstray⟩
    have hle := activities_step_le h e
    rw [if_neg hstray] at hle
    exact ⟨⟨backsOff_step h e, by omega⟩, spaced_step h hone hs htime⟩
  exact (run_of_throughout Sntp.step (throughout_of_step
    (P := fun s => (BacksOff s ∧ activities s ≤ 1) ∧ Spaced s) Sntp.step hstep hstart htime)).2.apart

/-- The first retry, on time. -/
theorem requests_apart_retry :
    (requests (run Sntp.step .start [⟨0, .init 3 .willing⟩, ⟨3000, .timeout .nameless⟩,
      ⟨6000, .timeout .willing⟩])).IsChain fun t u => t + 3000 ≤ u := by
  apply requests_apart 0
  refine ⟨⟨⟨le_rfl, ?_, ?_⟩, ?_⟩, ⟨⟨?_, ?_, ?_⟩, ?_⟩, ⟨⟨?_, ?_, ?_⟩, ?_⟩, trivial⟩
  · intro t ht
    nomatch ht
  · intro _ _ _ hcall
    nomatch hcall
  · rintro ⟨-, p, stack, hcall, -⟩
    nomatch hcall
  · exact Nat.zero_le 3000
  · intro t ht
    obtain rfl := List.mem_singleton.1 ht
    exact le_rfl
  · intro stack t timeouts _ hts
    obtain ⟨rfl, -⟩ := List.cons.inj hts
    exact le_rfl
  · rintro ⟨-, p, stack, hcall, -⟩
    nomatch hcall
  · show 3000 ≤ 6000
    decide
  · intro t ht
    obtain rfl := List.mem_singleton.1 ht
    exact le_rfl
  · intro stack t timeouts _ hts
    obtain ⟨rfl, -⟩ := List.cons.inj hts
    exact le_rfl
  · rintro ⟨-, p, stack, hcall, -⟩
    nomatch hcall

end Esp8266Rest.Sntp
