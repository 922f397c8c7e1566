import MicroKernel.Net.Netstack

set_option autoImplicit false

/-! # Which bytes an echo reply sends

The length of the data that `icmp_send_echo_reply` copies is computed from `total_length`, a
field of the received header that is compared with nothing: not with the length of the frame,
not with the header's own length, not with the 1514 bytes of the buffer. So the reply is what
it should be exactly when the sender was honest about `total_length`, or when one of the other
checks drops the frame (`replySafe_iff`).
-/

namespace MicroKernel.Net

open MicroKernel.Lib Bytes

/-! ## When a reply is built -/

/-- The frame is an IPv4 frame for this machine with a header that passes the checks of
`handle_ip_packet`, and it carries an echo request whose sender can be answered. Nothing here
reads `total_length`. -/
structure IsEchoRequest (s : Stack) (p : Bytes) (length : UInt16) : Prop where
  forUs : macAt p 0 = broadcastMac ∨ macAt p 0 = s.netConfig.macAddress
  ethertype : ntohs (field16 p 12) = 0x0800
  received : 34 ≤ length.toNat
  ihl : 20 ≤ ihlBytes p 14
  header : 14 + ihlBytes p 14 ≤ length.toNat
  checksum : checksumMatches p 14
  dst : ntohl (field32 p 30) = s.netConfig.ipAddress ∨ ntohl (field32 p 30) = 0xFFFFFFFF
  whole : ntohs (field16 p 20) &&& 0x3FFF = 0
  protocol : p 23 = 1
  type : p (14 + ihlBytes p 14) = 8
  route : (dstMac s (ntohl (field32 p 26))).isSome = true

/-- `payload_len` of `handle_ip_packet`. -/
def payloadLen (p : Bytes) : UInt16 := ntohs (field16 p 16) - UInt16.ofNat (ihlBytes p 14)

/-- The reply that is built from `p` when the sender's hardware address is `mac`. -/
def replyTo (s : Stack) (p : Bytes) (mac : Mac) : EchoReply :=
  let a := 14 + ihlBytes p 14
  let dataLen := payloadLen p - 8
  { frame := ⟨echoReplyBytes s mac (ntohl (field32 p 26)) (ntohs (field16 p (a + 4)))
      (ntohs (field16 p (a + 6))) p (a + 8) dataLen, 42 + dataLen.toNat⟩,
    data := a + 8, dataLen := dataLen.toNat }

theorem ihlBytes_le (p : Bytes) (a : Nat) : ihlBytes p a ≤ 60 := by
  have h : (p a &&& 0x0F).toNat ≤ 15 := by
    rw [UInt8.toNat_and]
    exact Nat.and_le_right
  unfold ihlBytes
  omega

theorem icmpSendEchoReply_eq (s : Stack) (dstIp : UInt32) (id seq : UInt16) (mem : Bytes)
    (data : Nat) (dataLen : UInt16) {r : EchoReply} :
    Output.echoReply r ∈ (icmpSendEchoReply s dstIp id seq mem data dataLen).2 ↔
      ∃ mac, dstMac s dstIp = some mac ∧
        r = { frame := ⟨echoReplyBytes s mac dstIp id seq mem data dataLen, 42 + dataLen.toNat⟩,
              data := data, dataLen := dataLen.toNat } := by
  unfold icmpSendEchoReply
  cases dstMac s dstIp with
  | none => simp
  | some mac => simp

theorem handleIcmpPacket_eq (s : Stack) (p : Bytes) (a : Nat) (length : UInt16) (srcIp : UInt32)
    {r : EchoReply} :
    Output.echoReply r ∈ (handleIcmpPacket s p a length srcIp).2 ↔
      8 ≤ length.toNat ∧ p a = 8 ∧ Output.echoReply r ∈ (icmpSendEchoReply s srcIp
        (ntohs (field16 p (a + 4))) (ntohs (field16 p (a + 6))) p (a + 8) (length - 8)).2 := by
  unfold handleIcmpPacket
  by_cases hl : length < 8
  · have : ¬ 8 ≤ length.toNat := by
      rw [UInt16.lt_iff_toNat_lt] at hl
      simpa using hl
    simp [hl, this]
  · have : 8 ≤ length.toNat := by
      rw [UInt16.lt_iff_toNat_lt] at hl
      simpa using hl
    by_cases ht : p a = 8
    · simp [hl, this, ht]
    · simp [hl, ht]

/-- No ARP packet is answered by an echo reply. -/
theorem not_mem_handleArpPacket (s : Stack) (p : Bytes) (a : Nat) (length : UInt16)
    (r : EchoReply) : Output.echoReply r ∉ (handleArpPacket s p a length).2 := by
  unfold handleArpPacket
  split
  · simp
  · split
    · simp
    · dsimp only
      split <;> simp

theorem handleIpPacket_eq (s : Stack) (p : Bytes) (a : Nat) (length : UInt16) {r : EchoReply} :
    Output.echoReply r ∈ (handleIpPacket s p a length).2 ↔
      20 ≤ length.toNat ∧ (20 ≤ ihlBytes p a ∧ ihlBytes p a ≤ length.toNat) ∧
        checksumMatches p a ∧
        (ntohl (field32 p (a + 16)) = s.netConfig.ipAddress
          ∨ ntohl (field32 p (a + 16)) = 0xFFFFFFFF) ∧
        ntohs (field16 p (a + 6)) &&& 0x3FFF = 0 ∧ p (a + 9) = 1 ∧
        Output.echoReply r ∈ (handleIcmpPacket s p (a + ihlBytes p a)
          (ntohs (field16 p (a + 2)) - UInt16.ofNat (ihlBytes p a))
          (ntohl (field32 p (a + 12)))).2 := by
  have hlen : length < 20 ↔ ¬ 20 ≤ length.toNat := by
    rw [UInt16.lt_iff_toNat_lt]
    exact Nat.not_le.symm
  unfold handleIpPacket
  -- one check after the other: where it drops the frame the right side is false as well
  by_cases h1 : length < 20
  · simp [h1, hlen.mp h1]
  by_cases h2 : ihlBytes p a < 20 ∨ length.toNat < ihlBytes p a
  · have : ¬ (20 ≤ ihlBytes p a ∧ ihlBytes p a ≤ length.toNat) := by omega
    simp [h1, h2, this]
  have h2' : 20 ≤ ihlBytes p a ∧ ihlBytes p a ≤ length.toNat := by omega
  have h1' : 20 ≤ length.toNat := by omega
  by_cases h3 : checksumMatches p a
  · by_cases h4 : ntohl (field32 p (a + 16)) = s.netConfig.ipAddress
        ∨ ntohl (field32 p (a + 16)) = 0xFFFFFFFF
    · have h4' : ¬ (ntohl (field32 p (a + 16)) ≠ s.netConfig.ipAddress
          ∧ ntohl (field32 p (a + 16)) ≠ 0xFFFFFFFF) := by tauto
      by_cases h5 : ntohs (field16 p (a + 6)) &&& 0x3FFF = 0
      · by_cases h6 : p (a + 9) = 1
        · simp [h1, h1', h2, h2', h3, h4, h4', h5, h6]
        · simp [h1, h2, h3, h4', h5, h6]
      · simp [h1, h2, h3, h4', h5]
    · have h4' : ntohl (field32 p (a + 16)) ≠ s.netConfig.ipAddress
          ∧ ntohl (field32 p (a + 16)) ≠ 0xFFFFFFFF := by tauto
      simp [h1, h2, h3, h4']
  · simp [h1, h2, h3]

/-- **When an echo reply is built, and which.** -/
theorem echoReply_iff (s : Stack) (p : Bytes) (length : UInt16) (r : EchoReply) :
    Output.echoReply r ∈ (netstackProcessPacket s p length).2 ↔
      IsEchoRequest s p length ∧ 8 ≤ (payloadLen p).toNat ∧
        ∃ mac, dstMac s (ntohl (field32 p 26)) = some mac ∧ r = replyTo s p mac := by
  by_cases hacc : Accepts s p length
  · rw [hacc.processPacket]
    by_cases hip : ntohs (field16 p 12) = 0x0800
    · rw [if_neg (by rw [hip]; decide), if_pos hip, handleIpPacket_eq, handleIcmpPacket_eq,
        icmpSendEchoReply_eq, hacc.payload_toNat]
      constructor
      · rintro ⟨h4, ⟨h5, h6⟩, h7, h8, h9, h10, h11, h12, mac, h13, h14⟩
        have hge := hacc.1
        exact ⟨⟨hacc.2, hip, by omega, h5, by omega, h7, h8, h9, h10, h12, by simp [h13]⟩, h11,
          mac, h13, h14⟩
      · rintro ⟨h, h11, mac, h13, h14⟩
        have h5 := h.received
        have h6 := h.header
        exact ⟨by omega, ⟨h.ihl, by omega⟩, h.checksum, h.dst, h.whole, h.protocol, h11, h.type,
          mac, h13, h14⟩
    · have hnot : ¬ IsEchoRequest s p length := fun h => hip h.ethertype
      simp only [hnot, false_and, iff_false]
      by_cases harp : ntohs (field16 p 12) = 0x0806
      · rw [if_pos harp]
        exact not_mem_handleArpPacket s p 14 (length - 14) r
      · rw [if_neg harp, if_neg hip]
        simp
  · have hnot : ¬ IsEchoRequest s p length := fun h =>
      hacc ⟨by have := h.received; omega, h.forUs⟩
    rw [processPacket_of_not_accepts hacc]
    simp [hnot]

/-! ## What the reply holds -/

/-- The data bytes of a reply are the bytes of the received memory at the index copied from. -/
theorem echoReplyBytes_data (s : Stack) (mac : Mac) (dstIp : UInt32) (id seq : UInt16)
    (mem : Bytes) (data : Nat) (dataLen : UInt16) {i : Nat} (hi : i < dataLen.toNat) :
    echoReplyBytes s mac dstIp id seq mem data dataLen (42 + i) = mem (data + i) := by
  unfold echoReplyBytes setField16
  rw [store16_outside _ _ (by omega), copy_inside _ _ _ (by omega) (by omega),
    Nat.add_sub_cancel_left]

/-- What is asked of the replies to a frame: every data byte is a byte that was received, there
are no more of them than were received behind the headers, and the frame fits the buffer. -/
def ReplySafe (s : Stack) (p : Bytes) (length : UInt16) : Prop :=
  ∀ r, Output.echoReply r ∈ (netstackProcessPacket s p length).2 →
    (∀ i, i < r.dataLen →
      r.frame.bytes (42 + i) = p (r.data + i) ∧ r.data + i < length.toNat) ∧
    r.dataLen ≤ length.toNat - (14 + ihlBytes p 14 + 8) ∧
    r.frame.length ≤ 1514

/-- `total_length` is at least the header, and what it promises behind the header was received
and fits the buffer. A message without data needs no more than its header. -/
def HonestLength (p : Bytes) (length : UInt16) : Prop :=
  let total := (ntohs (field16 p 16)).toNat
  ihlBytes p 14 ≤ total ∧ total ≤ ihlBytes p 14 + 1480 ∧
    (total ≤ ihlBytes p 14 + 8 ∨ 14 + total ≤ length.toNat)

theorem payloadLen_toNat (p : Bytes) :
    (payloadLen p).toNat = ((ntohs (field16 p 16)).toNat + 65536 - ihlBytes p 14) % 65536 := by
  have h1 := ihlBytes_le p 14
  have h2 := (ntohs (field16 p 16)).toNat_lt
  unfold payloadLen
  rw [UInt16.toNat_sub, UInt16.toNat_ofNat', Nat.mod_eq_of_lt (show ihlBytes p 14 < 2 ^ 16 by omega)]
  congr 1
  omega

/-- **Replies are safe exactly when `total_length` is honest**, or the frame is not answered. -/
theorem replySafe_iff (s : Stack) (p : Bytes) (length : UInt16) :
    ReplySafe s p length ↔ (IsEchoRequest s p length → HonestLength p length) := by
  have hihl := ihlBytes_le p 14
  have htot := (ntohs (field16 p 16)).toNat_lt
  have hpl := payloadLen_toNat p
  have hsub : 8 ≤ (payloadLen p).toNat → (payloadLen p - 8).toNat = (payloadLen p).toNat - 8 := by
    intro h8
    rw [UInt16.toNat_sub_of_le _ _ (UInt16.le_iff_toNat_le.mpr (by simpa using h8))]
    rfl
  constructor
  · intro hsafe hreq
    unfold HonestLength
    dsimp only
    by_cases h8 : 8 ≤ (payloadLen p).toNat
    · obtain ⟨mac, hmac⟩ := Option.isSome_iff_exists.mp hreq.route
      obtain ⟨-, h2, h3⟩ :=
        hsafe (replyTo s p mac) ((echoReply_iff s p length _).mpr ⟨hreq, h8, mac, hmac, rfl⟩)
      simp only [replyTo, hsub h8] at h2 h3
      omega
    · omega
  · intro hcond r hr
    obtain ⟨hreq, h8, mac, hmac, rfl⟩ := (echoReply_iff s p length r).mp hr
    have hhon := hcond hreq
    unfold HonestLength at hhon
    dsimp only at hhon
    have hlen := hsub h8
    refine ⟨fun i hi => ⟨echoReplyBytes_data _ _ _ _ _ _ _ _ hi, ?_⟩, ?_, ?_⟩
    · simp only [replyTo, hlen] at hi ⊢
      omega
    · simp only [replyTo, hlen]
      omega
    · simp only [replyTo, hlen]
      omega

/-- A stack that is configured as `10.0.2.15/24` and knows its gateway. -/
def stackQemu : Stack where
  netConfig :=
    { ipAddress := 0x0A00020F, netmask := 0xFFFFFF00, gateway := 0x0A000202, dnsServer := 0,
      macAddress := #v[0x52, 0x54, 0x00, 0x12, 0x34, 0x56] }
  arpCache := (Vector.replicate 32 { ip := 0, mac := Vector.replicate 6 0, valid := false }).set 0
    { ip := 0x0A000202, mac := #v[0x52, 0x55, 0x0A, 0x00, 0x02, 0x02], valid := true }
  ipIdentification := 0

/-- An echo request of 42 bytes from the gateway whose `total_length` is 1500. Its checksum is
stored the way the header check reads it. -/
def overlongRequest : Bytes := fun i =>
  ([0xFF, 0xFF, 0xFF, 0xFF, 0xFF, 0xFF, 0x52, 0x55, 0x0A, 0x00, 0x02, 0x02, 0x08, 0x00,
    0x45, 0x00, 0x05, 0xDC, 0x00, 0x00, 0x00, 0x00, 0x40, 0x01, 0x11, 0x5D,
    0x0A, 0x00, 0x02, 0x02, 0x0A, 0x00, 0x02, 0x0F,
    0x08, 0x00, 0xF7, 0xFF, 0x00, 0x00, 0x00, 0x00] : List UInt8).getD i 0

theorem isEchoRequest_overlong : IsEchoRequest stackQemu overlongRequest 42 :=
  ⟨by decide, by decide, by decide, by decide, by decide, by decide, by decide, by decide,
    by decide, by decide, by decide⟩

/-- The reply to it would send 1472 bytes, none of which was received. -/
theorem not_replySafe_overlong : ¬ ReplySafe stackQemu overlongRequest 42 := by
  intro h
  obtain ⟨mac, hmac⟩ := Option.isSome_iff_exists.mp isEchoRequest_overlong.route
  have hr := (echoReply_iff stackQemu overlongRequest 42 (replyTo stackQemu overlongRequest mac)).mpr
    ⟨isEchoRequest_overlong, by decide, mac, hmac, rfl⟩
  have h2 : (payloadLen overlongRequest - 8).toNat
      ≤ (42 : UInt16).toNat - (14 + ihlBytes overlongRequest 14 + 8) := (h _ hr).2.1
  exact absurd h2 (by decide)

end MicroKernel.Net
