import Esp8266Rest.Sntp.Clock
import Esp8266Rest.Sntp.Pace

/-!
# Datagrams from strangers

`sntp_recv` does not look at the sender, and stops the pending timeouts before it looks at the datagram.
So whoever sends junk often enough keeps a client that waits from ever asking again (`junk_silences`), while
the stack runs every timeout in time.
-/

namespace Esp8266Rest.Sntp

open Esp8266Rest.Lib.CStr Esp8266Rest.Lib.Runs Esp8266Rest.Lib.Timeouts Esp8266Rest.Model

variable {s : Sntp}

/-- A datagram, when it comes in, and what the stack answers then. -/
structure Datagram where
  time : ℕ
  p : Bytes
  stack : Stack

def Datagram.event (d : Datagram) : SntpEvent := ⟨d.time, .recv d.p d.stack⟩

/-- `sntp_recv` makes nothing of it. -/
def Datagram.Junk (d : Datagram) : Prop := ∀ ts, sntpCheck d.p ≠ .ok ts

theorem response_of_junk {d : Datagram} (h : d.Junk) : response? d.event = none := by
  unfold response? Datagram.event
  cases hcheck : sntpCheck d.p with
  | ok ts => exact absurd hcheck (h ts)
  | error err => simp only [hcheck]

/-- The next datagram comes before the retry is due. -/
def Soon (d d' : Datagram) : Prop := d.time ≤ d'.time ∧ d'.time ≤ d.time + 3000

/-- A lone timeout, and no lookup. -/
def Lone (s : Sntp) : Prop := ∃ t, s.timeouts = [t] ∧ s.lookups = 0

lemma Lone.timeouts_le (h : Lone s) : s.timeouts.length ≤ 1 := by
  obtain ⟨t, hts, -⟩ := h
  rw [hts]
  exact le_rfl

/-- **Junk puts the next request off**, or leaves nothing that is due. -/
theorem few_of_junk (h : BacksOff s) (hpcb : s.sntpPcb = true) (hone : s.timeouts.length ≤ 1)
    {d : Datagram} (hjunk : d.Junk) :
    (s.step d.event).now = d.time ∧ requests (s.step d.event) = requests s ∧
      (s.step d.event).timeouts.length ≤ 1 ∧ ∀ t ∈ (s.step d.event).timeouts, d.time + 3000 ≤ t.due := by
  have hstep : s.step d.event = sntpRecv d.stack d.p { s with now := d.time } := if_pos hpcb
  have hon := sntpRecv_goesOn d.stack { s with now := d.time } (h.retryInTime hpcb) d.p
  have hstopped : (stopped s).timeouts = [] := stopped_of_one hone
  have hms := (h.retryInTime hpcb).1
  -- the datagram is no response, so `sntp_retry` sets a timeout, if there is room
  have hretry : sntpRecv d.stack d.p { s with now := d.time } =
      sntpRetry d.stack (stopped { s with now := d.time }) := by
    unfold sntpRecv
    cases hcheck : sntpCheck d.p with
    | ok ts => exact absurd hcheck (hjunk ts)
    | error err => cases err <;> rfl
  have htimeouts : (s.step d.event).timeouts =
      if d.stack.room then [⟨d.time + s.sntpRetryTimeout.toNat, .sntpRequest⟩] else [] := by
    rw [hstep, hretry, sntpRetry_eq]
    show (if d.stack.room then put _ (stopped s).timeouts else (stopped s).timeouts) = _
    rw [hstopped]
    rfl
  rw [htimeouts]
  refine ⟨?_, ?_, ?_, ?_⟩
  · rw [hstep]
    exact hon.now
  · rw [hstep, hon.requested, List.append_nil]
    rfl
  · split
    · exact le_rfl
    · exact Nat.zero_le 1
  · intro t ht
    split at ht
    · obtain rfl := List.mem_singleton.1 ht
      exact Nat.add_le_add_left hms _
    · nomatch ht

/-- **Junk silences the client**: with one timeout pending and no lookup, if only datagrams come in that are
no responses, the first before the timeout is due and each within three seconds of the one before, then no
timeout is ever due, no request is ever made and the clock is never set, however long it goes on. -/
theorem junk_silences (es : List SntpEvent) (ds : List Datagram) (hlone : Lone (run Sntp.step .start es))
    (hjunk : ∀ d ∈ ds, d.Junk)
    (hfirst : ∀ d ∈ ds.head?, (run Sntp.step .start es).now ≤ d.time ∧
      ∀ t ∈ (run Sntp.step .start es).timeouts, d.time ≤ t.due)
    (hsoon : ds.IsChain Soon) :
    Along Sntp.step (OnTime 0) (run Sntp.step .start es) (ds.map Datagram.event) ∧
      requests (run Sntp.step .start (es ++ ds.map Datagram.event)) =
        requests (run Sntp.step .start es) ∧
      (run Sntp.step .start (es ++ ds.map Datagram.event)).sntpTime =
        (run Sntp.step .start es).sntpTime := by
  rw [run_append]
  have hbacks := backsOff_run es
  have hpcb : (run Sntp.step .start es).sntpPcb = true := by
    obtain ⟨t, hts, -⟩ := hlone
    exact hbacks.pcb_of_timeouts (by simp [hts])
  have hone := hlone.timeouts_le
  clear hlone
  generalize run Sntp.step .start es = s at hbacks hpcb hone hfirst
  induction ds generalizing s with
  | nil => exact ⟨trivial, rfl, rfl⟩
  | cons d ds ih =>
    obtain ⟨hnow, hdue⟩ := hfirst d rfl
    have hd : d.Junk := hjunk d List.mem_cons_self
    obtain ⟨hnow', hreq, hone', hlate⟩ := few_of_junk hbacks hpcb hone hd
    have hontime : OnTime 0 s d.event := ⟨hnow, hdue, fun _ _ _ hcall => nomatch hcall⟩
    have hclock : (s.step d.event).sntpTime = s.sntpTime :=
      congrArg Prod.fst (clock_step (response_of_junk hd))
    have hnext : ∀ d' ∈ ds.head?, (s.step d.event).now ≤ d'.time ∧
        ∀ u ∈ (s.step d.event).timeouts, d'.time ≤ u.due := by
      intro d' hd'
      obtain ⟨hle, hle'⟩ := (List.isChain_cons.1 hsoon).1 d' hd'
      exact ⟨hnow'.trans_le hle, fun u hu => hle'.trans (hlate u hu)⟩
    obtain ⟨halong, hrest, htime⟩ := ih (fun d' hd' => hjunk d' (List.mem_cons_of_mem d hd'))
      (List.isChain_cons.1 hsoon).2 (s.step d.event) (backsOff_step hbacks _) (pcb_step hbacks hpcb _)
      hone' hnext
    refine ⟨⟨hontime, halong⟩, ?_, ?_⟩
    · exact hrest.trans hreq
    · exact htime.trans hclock

/-- Two datagrams of a byte or none, before the client retries. -/
def twoBytes : List Datagram := [⟨1000, [], .nameless⟩, ⟨3500, [1], .nameless⟩]

theorem junk_silences_two :
    Along Sntp.step (OnTime 0) (run Sntp.step .start [⟨0, .init 3 .willing⟩])
        (twoBytes.map Datagram.event) ∧
      requests (run Sntp.step .start ([⟨0, .init 3 .willing⟩] ++
          twoBytes.map Datagram.event)) =
        requests (run Sntp.step .start [⟨0, .init 3 .willing⟩]) ∧
      (run Sntp.step .start ([⟨0, .init 3 .willing⟩] ++
          twoBytes.map Datagram.event)).sntpTime =
        (run Sntp.step .start [⟨0, .init 3 .willing⟩]).sntpTime := by
  apply junk_silences
  · exact ⟨_, rfl, rfl⟩
  · intro d hd ts hts
    rcases List.mem_pair.1 hd with rfl | rfl
    · nomatch hts
    · nomatch hts
  · intro d hd
    obtain rfl := Option.some.inj hd
    refine ⟨Nat.zero_le 1000, fun t ht => ?_⟩
    obtain rfl := List.mem_singleton.1 ht
    show 1000 ≤ 3000
    decide
  · apply List.isChain_pair.2
    constructor <;> decide

end Esp8266Rest.Sntp
