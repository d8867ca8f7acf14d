import Esp8266Rest.Lib.Layout
import Esp8266Rest.Model.Sntp

/-!
# The messages

A datagram of the right length is a `struct sntp_msg`, one to one (`exists_msg`).  `sntp_recv` looks at the
mode and the stratum of the message and takes its receive timestamp (`sntpCheck_bytes`), so the client's own
request is no response, and a server's response sets the clock to the second that stands in it
(`unixTime_stampOf`), also when the count of 32 bits has run over.
-/

namespace Esp8266Rest.Sntp

open Esp8266Rest.Lib.CStr Esp8266Rest.Lib.Layout Esp8266Rest.Model

/-- `struct sntp_msg`, with its words as the numbers they stand for. -/
structure SntpMsg where
  liVnMode : UInt8
  stratum : UInt8
  poll : UInt8
  precision : UInt8
  rootDelay : UInt32
  rootDispersion : UInt32
  referenceIdentifier : UInt32
  referenceTimestamp : UInt32 × UInt32
  originateTimestamp : UInt32 × UInt32
  receiveTimestamp : UInt32 × UInt32
  transmitTimestamp : UInt32 × UInt32
  deriving DecidableEq, Repr

def timestamp : Codec (UInt32 × UInt32) := Codec.netWord.prod Codec.netWord

/-- The message as it is sent. -/
def sntpMsg : Codec SntpMsg :=
  (Codec.byte.prod (Codec.byte.prod (Codec.byte.prod (Codec.byte.prod (Codec.netWord.prod (Codec.netWord.prod
    (Codec.netWord.prod (timestamp.prod (timestamp.prod (timestamp.prod timestamp)))))))))).map
    ⟨fun ⟨a, b, c, d, x, y, z, r, o, v, t⟩ => ⟨a, b, c, d, x, y, z, r, o, v, t⟩,
      fun m => (m.liVnMode, m.stratum, m.poll, m.precision, m.rootDelay, m.rootDispersion,
        m.referenceIdentifier, m.referenceTimestamp, m.originateTimestamp, m.receiveTimestamp,
        m.transmitTimestamp),
      fun _ => rfl, fun _ => rfl⟩

def SntpMsg.bytes (m : SntpMsg) : Bytes := sntpMsg.enc m

lemma length_bytes (m : SntpMsg) : m.bytes.length = sntpMsgLen := sntpMsg.length_enc m

/-- **A datagram of 48 bytes is a message.** -/
theorem exists_msg {p : Bytes} (h : p.length = sntpMsgLen) : ∃ m : SntpMsg, p = m.bytes :=
  ⟨sntpMsg.dec p, (sntpMsg.enc_dec_self h).symm⟩

/-! ### What `sntp_recv` looks at -/

def SntpMsg.mode (m : SntpMsg) : UInt8 := m.liVnMode &&& sntpModeMask

/-- A server's response, or its broadcast. -/
def SntpMsg.FromServer (m : SntpMsg) : Prop := m.mode = sntpModeServer ∨ m.mode = sntpModeBroadcast

/-- A response with a time in it. -/
def SntpMsg.Accepted (m : SntpMsg) : Prop := m.FromServer ∧ m.stratum ≠ sntpStratumKod

instance (m : SntpMsg) : Decidable m.FromServer := by unfold SntpMsg.FromServer; infer_instance

instance (m : SntpMsg) : Decidable m.Accepted := by unfold SntpMsg.Accepted; infer_instance

/-- The bytes that `sntp_process` gets. -/
def SntpMsg.receiveTime (m : SntpMsg) : Bytes := Codec.netWord.enc m.receiveTimestamp.1

theorem sntpCheck_bytes (m : SntpMsg) : sntpCheck m.bytes =
    if m.FromServer then if m.stratum = sntpStratumKod then .error .kod else .ok m.receiveTime
    else .error .arg := by
  have hmode : m.bytes.getD sntpOffsetLiVnMode 0 = m.liVnMode := rfl
  have hstratum : m.bytes.getD sntpOffsetStratum 0 = m.stratum := rfl
  have htime : (m.bytes.drop sntpOffsetReceiveTime).take 4 = m.receiveTime := rfl
  unfold sntpCheck
  rw [if_pos (length_bytes m), hmode, hstratum, htime]
  rfl

/-- **What is accepted** are the messages of servers that are no kiss of death. -/
theorem sntpCheck_ok_iff {p ts : Bytes} : sntpCheck p = .ok ts ↔
    ∃ m : SntpMsg, p = m.bytes ∧ m.Accepted ∧ ts = m.receiveTime := by
  constructor
  · intro h
    have hlen : p.length = sntpMsgLen := by
      by_contra hne
      unfold sntpCheck at h
      rw [if_neg hne] at h
      nomatch h
    obtain ⟨m, rfl⟩ := exists_msg hlen
    rw [sntpCheck_bytes] at h
    by_cases hserver : m.FromServer
    · by_cases hkod : m.stratum = sntpStratumKod
      · rw [if_pos hserver, if_pos hkod] at h
        nomatch h
      · rw [if_pos hserver, if_neg hkod] at h
        exact ⟨m, rfl, ⟨hserver, hkod⟩, (Except.ok.inj h).symm⟩
    · rw [if_neg hserver] at h
      nomatch h
  · rintro ⟨m, rfl, ⟨hserver, hkod⟩, rfl⟩
    rw [sntpCheck_bytes, if_pos hserver, if_neg hkod]

/-- The client's own request is no response. -/
example : sntpCheck sntpInitializeRequest = .error .arg := by decide

/-! ### The time in it -/

theorem ntohl_enc (u : UInt32) : ntohl (Codec.netWord.enc u) = u := by
  have hu := u.toNat_lt
  rw [← UInt32.toNat_inj]
  simp [ntohl, Codec.netWord, Nat.shiftRight_eq_div_pow]
  omega

/-- The seconds of a timestamp count from 1900; `t` counts from 1970. -/
def stampOf (t : ℕ) : UInt32 := UInt32.ofNat (t + 2208988800)

theorem unixTime_stampOf {m : SntpMsg} {t : ℕ} (h : m.receiveTimestamp.1 = stampOf t) :
    unixTime m.receiveTime = Int32.ofNat t := by
  unfold unixTime SntpMsg.receiveTime
  rw [ntohl_enc, h]
  have hsub : stampOf t - diffSec1900To1970 = UInt32.ofNat t := by
    unfold stampOf diffSec1900To1970
    rw [UInt32.ofNat_add]
    exact UInt32.add_sub_cancel _ _
  rw [hsub]
  rfl

end Esp8266Rest.Sntp
