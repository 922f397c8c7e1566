import MicroKernel.Net.Checksum

set_option autoImplicit false

/-! # A datagram sent is the datagram received

`netstack_receive_udp_low` finds every offset and length of a frame in the frame itself. For a
frame of `netstack_send_udp_low` it finds what was put in: the header check passes, as sender and
receiver agree on the order of the checksum's bytes, and the lengths leave the padding out
(`receiveUdp_send`).
-/

namespace MicroKernel.Net

open MicroKernel.Lib Bytes

/-! ## Fields of equal bytes -/

theorem field16_congr {p q : Bytes} {a : Nat} (h : ∀ i, i < 2 → p (a + i) = q (a + i)) :
    field16 p a = field16 q a := by
  have h0 : p a = q a := h 0 (by decide)
  have h1 := h 1 (by decide)
  rw [field16, field16, load16, load16, h0, h1]

theorem field32_congr {p q : Bytes} {a : Nat} (h : ∀ i, i < 4 → p (a + i) = q (a + i)) :
    field32 p a = field32 q a := by
  rw [field32, field32, load32_congr h]

theorem ipChecksum_congr {p q : Bytes} {a : Nat} {length : UInt16}
    (h : ∀ i, i < length.toNat → p (a + i) = q (a + i)) :
    ipChecksum p a length = ipChecksum q a length := by
  apply UInt16.toNat_inj.mp
  rw [ipChecksum_toNat, ipChecksum_toNat, words_congr h]

/-! ## The fields of a frame that was sent -/

/-- **A header of `setIpHeader` passes the check** of the receivers. -/
theorem checksumMatches_setIpHeader {p q : Bytes} (s : Stack) (totalLength : UInt16)
    (protocol : UInt8) (dstIp : UInt32)
    (h : ∀ x, 14 ≤ x → x < 34 → q x = setIpHeader p s totalLength protocol dstIp x) :
    ihlBytes q 14 = 20 ∧ checksumMatches q 14 := by
  have hihl : ihlBytes q 14 = 20 := by
    have h14 : q 14 = 0x45 := h 14 (by decide) (by decide)
    rw [ihlBytes, h14]
    rfl
  have hfield : field16 q 24 = ipChecksum (setIpFields p s totalLength protocol dstIp) 14 20 :=
    calc field16 q 24 = field16 (setIpHeader p s totalLength protocol dstIp) 24 :=
          field16_congr fun i hi => h (24 + i) (by omega) (by omega)
      _ = _ := field16_setField16 _ _ _
  -- with the field cleared again, the header is the one the sender took the sum of
  have hcleared : ∀ i, i < 20 → setField16 q 24 0 (14 + i)
      = setIpFields p s totalLength protocol dstIp (14 + i) := by
    intro i hi
    by_cases hin : 14 + i < 24 ∨ 26 ≤ 14 + i
    · rw [setField16_outside q 0 (by omega), h (14 + i) (by omega) (by omega), setIpHeader,
        setField16_outside _ _ (by omega)]
    · obtain rfl | rfl : i = 10 ∨ i = 11 := by omega
      · rfl
      · rfl
  have hsum : ipChecksum (setField16 q 24 0) 14 20
      = ipChecksum (setIpFields p s totalLength protocol dstIp) 14 20 := ipChecksum_congr hcleared
  refine ⟨hihl, ?_⟩
  rw [checksumMatches, hihl, hfield]
  exact hsum.symm

section sent

variable (s : Stack) (mac : Mac) (dstIp : UInt32) (srcPort dstPort : UInt16) (data : Bytes)
  (len : UInt32) (withChecksum : Bool)

/-- The frame without the checksum of the datagram, which the receiver does not read. -/
theorem udpBytes_fields {x : Nat} (hx : x < 40 ∨ 42 ≤ x) :
    udpBytes s mac dstIp srcPort dstPort data len withChecksum x
      = udpBytes s mac dstIp srcPort dstPort data len false x := by
  unfold udpBytes
  cases withChecksum with
  | false => rfl
  | true => exact setField16_outside _ _ (by omega)

theorem udpBytes_ports :
    field16 (udpBytes s mac dstIp srcPort dstPort data len false) 34 = htons srcPort ∧
      field16 (udpBytes s mac dstIp srcPort dstPort data len false) 36 = htons dstPort ∧
      field16 (udpBytes s mac dstIp srcPort dstPort data len false) 38
        = htons (8 + len.toUInt16) := by
  have hbefore : ∀ a, a + 2 ≤ 40 →
      field16 (udpBytes s mac dstIp srcPort dstPort data len false) a
        = field16 (setField16 (setField16 (setField16 (setIpHeader (setEthHeader (fun _ => 0) s mac)
            s (28 + len.toUInt16) 17 dstIp) 34 (htons srcPort)) 36 (htons dstPort)) 38
              (htons (8 + len.toUInt16))) a := by
    intro a ha
    refine field16_congr fun i hi => ?_
    unfold udpBytes
    simp (disch := omega) only [Bool.false_eq_true, if_false, setField16_outside, copy_outside]
  rw [hbefore 34 (by decide), hbefore 36 (by decide), hbefore 38 (by decide)]
  refine ⟨?_, ?_, field16_setField16 _ _ _⟩
  · rw [field16_congr fun i hi => setField16_outside _ _ (by omega),
      field16_congr fun i hi => setField16_outside _ _ (by omega), field16_setField16]
  · rw [field16_congr fun i hi => setField16_outside _ _ (by omega), field16_setField16]

theorem udpBytes_data {i : Nat} (hi : i < len.toNat) :
    udpBytes s mac dstIp srcPort dstPort data len false (42 + i) = data i := by
  unfold udpBytes
  rw [if_neg (by decide), copy_inside _ _ _ (by omega) (by omega), Nat.add_sub_cancel_left,
    Nat.zero_add]

theorem udpBytes_src :
    field32 (udpBytes s mac dstIp srcPort dstPort data len false) 26
      = htonl s.netConfig.ipAddress := by
  rw [field32_congr fun i hi => udpBytes_before s mac dstIp srcPort dstPort data len false
    (show 26 + i < 34 by omega)]
  unfold setIpHeader setIpFields
  rw [field32_congr fun i hi => setField16_outside _ _ (by omega),
    field32_congr fun i hi => setField16_outside _ _ (by omega),
    field32_congr fun i hi => setField32_outside _ _ (by omega), field32_setField32]

end sent

/-! ## Delivery -/

/-- The poll delivers the frame, as it was sent or with zeros at its end up to 60 bytes. -/
def Delivers (r : Poll) (f : Frame) : Prop :=
  (∀ i, i < f.length → r.bytes i = f.bytes i) ∧
    (r.length = f.length ∨
      (f.length ≤ 60 ∧ r.length = 60 ∧ ∀ i, f.length ≤ i → i < 60 → r.bytes i = 0))

/-- **The round that gets the frame accepts it.** -/
theorem acceptUdp_sent {s : Stack} {mac : Mac} {dstIp : UInt32} {srcPort dstPort : UInt16}
    {data : Bytes} {len : UInt32} {withChecksum : Bool} (hlen : len.toNat ≤ 1472) {r : Poll}
    (hr : Delivers r ⟨udpBytes s mac dstIp srcPort dstPort data len withChecksum,
      42 + len.toNat⟩) (buffer : Bytes) {buflen : UInt32} (hbuf : buflen.toNat < 2 ^ 31) :
    acceptUdp dstPort buffer buflen r = some
      { copied := (min len.toNat buflen.toNat : Nat)
        buffer := copy buffer 0 data 0 (min len.toNat buflen.toNat)
        srcIp := s.netConfig.ipAddress
        srcPort := srcPort } := by
  obtain ⟨hsame, hlength⟩ := hr
  dsimp only at hsame hlength
  have hfields : ∀ x, x < 42 + len.toNat → x < 40 ∨ 42 ≤ x →
      r.bytes x = udpBytes s mac dstIp srcPort dstPort data len false x := fun x h1 h2 =>
    (hsame x h1).trans (udpBytes_fields s mac dstIp srcPort dstPort data len withChecksum h2)
  have hbefore : ∀ x, x < 34 → r.bytes x
      = setIpHeader (setEthHeader (fun _ => 0) s mac) s (28 + len.toUInt16) 17 dstIp x :=
    fun x hx => (hfields x (by omega) (by omega)).trans
      (udpBytes_before s mac dstIp srcPort dstPort data len false hx)
  obtain ⟨hihl, hcheck⟩ := checksumMatches_setIpHeader s _ _ _ fun x _ hx => hbefore x hx
  obtain ⟨hsrcPort, hdstPort, hudpLength⟩ := udpBytes_ports s mac dstIp srcPort dstPort data len
  have hport : ∀ a, a + 2 ≤ 40 → field16 r.bytes a
      = field16 (udpBytes s mac dstIp srcPort dstPort data len false) a := fun a ha =>
    field16_congr fun i hi => hfields (a + i) (by omega) (by omega)
  have hsrcIp : field32 r.bytes 26 = htonl s.netConfig.ipAddress :=
    (field32_congr fun i hi => hfields (26 + i) (by omega) (by omega)).trans
      (udpBytes_src s mac dstIp srcPort dstPort data len)
  have hpl : (8 + len.toUInt16).toNat = 8 + len.toNat := by
    rw [UInt16.toNat_add, UInt32.toNat_toUInt16]
    show (8 + len.toNat % 2 ^ 16) % 2 ^ 16 = _
    omega
  have hethertype : 256 * (r.bytes 12).toNat + (r.bytes 13).toNat = 0x0800 := by
    rw [hbefore 12 (by decide), hbefore 13 (by decide)]
    rfl
  have hprotocol : r.bytes 23 = 17 := hbefore 23 (by decide)
  have hcap : toInt buflen = buflen.toNat := if_pos hbuf
  have hcopied : (if ((8 + len.toNat : Nat) : Int) - 8 < (buflen.toNat : Int) then
      ((8 + len.toNat : Nat) : Int) - 8 else (buflen.toNat : Int))
        = (min len.toNat buflen.toNat : Nat) := by
    split <;> omega
  have hmin : ((min len.toNat buflen.toNat : Nat) : Int) % 2 ^ 32
      = (min len.toNat buflen.toNat : Nat) := by omega
  have hbuffer : copy buffer 0 r.bytes 42 (min len.toNat buflen.toNat)
      = copy buffer 0 data 0 (min len.toNat buflen.toNat) := by
    funext x
    by_cases hx : x < min len.toNat buflen.toNat
    · rw [copy_inside _ _ _ (by omega) (by omega), copy_inside _ _ _ (by omega) (by omega),
        Nat.sub_zero, Nat.zero_add, hfields (42 + x) (by omega) (by omega),
        udpBytes_data s mac dstIp srcPort dstPort data len (by omega)]
    · rw [copy_outside _ _ _ (by omega), copy_outside _ _ _ (by omega)]
  -- the checks, one after the other
  unfold acceptUdp
  dsimp only
  rw [hihl, if_neg (by omega), if_neg (by omega), if_neg (by rw [hethertype]; decide),
    if_neg (by omega), if_neg (by rw [hprotocol]; decide), if_neg (not_not_intro hcheck),
    hport 34 (by decide), hport 36 (by decide), hport 38 (by decide), hsrcPort, hdstPort,
    hudpLength, ntohs_htons, ntohs_htons, ntohs_htons, if_neg (by simp), hpl, if_neg (by omega),
    hcap, hcopied, hmin, Int.toNat_natCast, hbuffer, hsrcIp, ntohl_htonl]

/-- Polls that deliver nothing are passed over. -/
theorem netstackReceiveUdpLow_wait {nic : Nic} (port : UInt16) (buffer : Bytes) (buflen : UInt32)
    {k waiting : Nat} (pollCount : Nat)
    (h : ∀ j, j < waiting → (nicRecv nic (k + j)).length ≤ 0) :
    netstackReceiveUdpLow nic port buffer buflen (waiting + pollCount) k
      = netstackReceiveUdpLow nic port buffer buflen pollCount (k + waiting) := by
  induction waiting generalizing k with
  | zero => rw [Nat.zero_add, Nat.add_zero]
  | succ waiting ih =>
      have hnone : acceptUdp port buffer buflen (nicRecv nic k) = none := if_pos (h 0 (by omega))
      rw [Nat.succ_add, netstackReceiveUdpLow, hnone]
      dsimp only
      rw [ih fun j hj => ?_, Nat.add_assoc, Nat.add_comm 1]
      have hj' := h (1 + j) (by omega)
      rwa [← Nat.add_assoc] at hj'

/-- **Encode and decode**: every datagram that is sent is received as it was sent, cut to the
buffer of the receiver. -/
theorem receiveUdp_send {s : Stack} {dstIp : UInt32} {len : UInt32}
    (hroute : (dstMac s dstIp).isSome = true) (hlen : len.toNat ≤ 1472) (initialized : Bool)
    (srcPort dstPort : UInt16) (data : Bytes) (withChecksum : Bool) :
    ∃ f, (netstackSendUdpLow initialized s dstIp srcPort dstPort data len withChecksum).frames
        = [f] ∧
      ∀ (nic : Nic) (buffer : Bytes) (buflen : UInt32) (k waiting pollCount : Nat),
        nic.initialized = true → buflen.toNat < 2 ^ 31 → waiting < pollCount →
        (∀ j, j < waiting → (nic.poll (k + j)).length ≤ 0) →
        Delivers (nic.poll (k + waiting)) f →
        netstackReceiveUdpLow nic dstPort buffer buflen pollCount k
          = (some
              { copied := (min len.toNat buflen.toNat : Nat)
                buffer := copy buffer 0 data 0 (min len.toNat buflen.toNat)
                srcIp := s.netConfig.ipAddress
                srcPort := srcPort },
            k + waiting + 1) := by
  obtain ⟨mac, hmac⟩ := Option.isSome_iff_exists.mp hroute
  have htotal : (42 + len).toNat = 42 + len.toNat := by
    rw [UInt32.toNat_add]
    show (42 + len.toNat) % 2 ^ 32 = _
    omega
  have hfits : ¬ 42 + len > 1514 := by
    rw [gt_iff_lt, UInt32.lt_iff_toNat_lt, htotal]
    show ¬ 1514 < 42 + len.toNat
    omega
  refine ⟨⟨udpBytes s mac dstIp srcPort dstPort data len withChecksum, 42 + len.toNat⟩, ?_, ?_⟩
  · unfold netstackSendUdpLow
    rw [if_neg hfits, hmac, ← htotal]
  · intro nic buffer buflen k waiting pollCount hinit hbuf hwait hnothing hdeliver
    have hrecv : ∀ j, nicRecv nic j = nic.poll j := fun j => if_pos hinit
    obtain ⟨rest, rfl⟩ : ∃ rest, pollCount = waiting + (rest + 1) :=
      ⟨pollCount - waiting - 1, by omega⟩
    rw [netstackReceiveUdpLow_wait dstPort buffer buflen (rest + 1)
        fun j hj => by rw [hrecv]; exact hnothing j hj,
      netstackReceiveUdpLow, hrecv, acceptUdp_sent hlen hdeliver buffer hbuf]

/-- Four bytes to the gateway, padded on their way, into the buffer of the DHCP client. -/
theorem receiveUdp_send_ping :
    ∃ f, (netstackSendUdpLow true stackQemu 0x0A000202 68 67 pingData 4 false).frames = [f] ∧
      netstackReceiveUdpLow
          ⟨true, fun _ => ⟨60, fun i => if i < f.length then f.bytes i else 0⟩⟩ 67 (fun _ => 0) 548
          512 0
        = (some
            { copied := 4
              buffer := copy (fun _ => 0) 0 pingData 0 4
              srcIp := 0x0A00020F
              srcPort := 68 }, 1) := by
  have hroute : (dstMac stackQemu 0x0A000202).isSome = true := by decide
  have hlen : (4 : UInt32).toNat ≤ 1472 := by decide
  obtain ⟨f, hf, hrecv⟩ := receiveUdp_send hroute hlen true 68 67 pingData false
  refine ⟨f, hf, ?_⟩
  have hflen : f.length = 46 := by
    have h46 := congrArg (List.map Frame.length) hf
    exact (List.cons.inj h46).1.symm
  have hdeliver : Delivers ⟨60, fun i => if i < f.length then f.bytes i else 0⟩ f := by
    refine ⟨fun i hi => if_pos hi, Or.inr ⟨by omega, rfl, fun i h1 h2 => if_neg (by omega)⟩⟩
  exact hrecv ⟨true, fun _ => ⟨60, fun i => if i < f.length then f.bytes i else 0⟩⟩
    (fun _ => 0) 548 0 0 512 rfl (by decide) (by decide) (fun j hj => by omega) hdeliver

end MicroKernel.Net
