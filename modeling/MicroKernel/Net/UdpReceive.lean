import MicroKernel.Net.UdpRoundTrip

set_option autoImplicit false

/-! # What a receiver of datagrams takes from the wire

`netstack_receive_udp_low` has one buffer for all its polls, and what `nic_recv` leaves of it
behind the received length is what an earlier frame or the stack has put there. The checks keep the
function off these bytes, for every header length and every UDP length that a frame may claim: so
two runs that receive the same frames accept the same (`receiveUdp_received`).
-/

namespace MicroKernel.Net

open MicroKernel.Lib Bytes

/-! ## The checks -/

/-- Where the UDP header is. -/
def udpOffset (p : Bytes) : Nat := 14 + ihlBytes p 14

/-- The length in the UDP header. -/
def udpLength (p : Bytes) : Nat := (ntohs (field16 p (udpOffset p + 4))).toNat

/-- A frame that is accepted for `port`. -/
structure Passes (port : UInt16) (r : Poll) : Prop where
  length : 42 ≤ r.length
  etherType : 256 * (r.bytes 12).toNat + (r.bytes 13).toNat = 0x0800
  ihl : 20 ≤ ihlBytes r.bytes 14
  protocol : r.bytes 23 = 17
  checksum : checksumMatches r.bytes 14
  dstPort : ntohs (field16 r.bytes (udpOffset r.bytes + 2)) = port
  udpMin : 8 ≤ udpLength r.bytes
  udpMax : (udpOffset r.bytes + udpLength r.bytes : Nat) ≤ r.length

/-- What is copied of a frame into a buffer of `buflen` bytes. -/
def copiedLength (p : Bytes) (buflen : UInt32) : Nat := min (udpLength p - 8) buflen.toNat

/-- What is returned for a frame that is accepted. -/
def receivedOf (buffer : Bytes) (buflen : UInt32) (p : Bytes) : Received where
  copied := copiedLength p buflen
  buffer := copy buffer 0 p (udpOffset p + 8) (copiedLength p buflen)
  srcIp := ntohl (field32 p 26)
  srcPort := ntohs (field16 p (udpOffset p))

theorem acceptUdp_of_passes {port : UInt16} {r : Poll} (h : Passes port r) (buffer : Bytes)
    {buflen : UInt32} (hbuf : buflen.toNat < 2 ^ 31) :
    acceptUdp port buffer buflen r = some (receivedOf buffer buflen r.bytes) := by
  have hlength := h.length
  have hmin := h.udpMin
  have hmax := h.udpMax
  have hihl := h.ihl
  have hcap : toInt buflen = buflen.toNat := if_pos hbuf
  have hcopied : (if ((udpLength r.bytes : Nat) : Int) - 8 < (buflen.toNat : Int) then
      ((udpLength r.bytes : Nat) : Int) - 8 else (buflen.toNat : Int))
        = (copiedLength r.bytes buflen : Nat) := by
    unfold copiedLength
    split <;> omega
  have hcount : ((copiedLength r.bytes buflen : Nat) : Int) % 2 ^ 32
      = (copiedLength r.bytes buflen : Nat) := by
    have hle : copiedLength r.bytes buflen ≤ buflen.toNat := Nat.min_le_right _ _
    omega
  have hoffset : 14 + ihlBytes r.bytes 14 = udpOffset r.bytes := rfl
  have hudp : (ntohs (field16 r.bytes (udpOffset r.bytes + 4))).toNat = udpLength r.bytes := rfl
  unfold acceptUdp
  dsimp only
  rw [if_neg (by omega), if_neg (by omega), if_neg (not_not_intro h.etherType),
    if_neg (by omega), if_neg (not_not_intro h.protocol), if_neg (not_not_intro h.checksum),
    hoffset, if_neg (not_not_intro h.dstPort), hudp, if_neg (by omega), hcap, hcopied, hcount,
    Int.toNat_natCast]
  rfl

theorem acceptUdp_of_not_passes {port : UInt16} {r : Poll} (h : ¬ Passes port r) (buffer : Bytes)
    (buflen : UInt32) : acceptUdp port buffer buflen r = none := by
  unfold acceptUdp
  dsimp only
  by_cases hempty : r.length ≤ 0
  · rw [if_pos hempty]
  by_cases hshort : r.length < 42
  · rw [if_neg hempty, if_pos hshort]
  rw [if_neg hempty, if_neg hshort]
  split
  · rfl
  next htype =>
    split
    · rfl
    next hihl =>
      split
      · rfl
      next hproto =>
        split
        · rfl
        next hcheck =>
          split
          · rfl
          next hport =>
            split
            · rfl
            next hlength =>
              rw [not_or] at hihl hlength
              have hmin : 8 ≤ udpLength r.bytes := by
                unfold udpLength udpOffset
                omega
              have hmax : (udpOffset r.bytes + udpLength r.bytes : Nat) ≤ r.length := by
                unfold udpLength udpOffset
                omega
              exact absurd ⟨Int.not_lt.mp hshort, not_not.mp htype, Nat.not_lt.mp hihl.1,
                not_not.mp hproto, not_not.mp hcheck, not_not.mp hport, hmin, hmax⟩ h

/-! ## Stale bytes -/

/-- Two polls give the same frame: only behind its end may the buffers differ. -/
structure SameFrame (r r' : Poll) : Prop where
  length : r.length = r'.length
  bytes : ∀ i : Nat, (i : Int) < r.length → r.bytes i = r'.bytes i

theorem SameFrame.symm {r r' : Poll} (h : SameFrame r r') : SameFrame r' r :=
  ⟨h.length.symm, fun i hi => (h.bytes i (h.length ▸ hi)).symm⟩

theorem SameFrame.ihlBytes {r r' : Poll} (h : SameFrame r r') (hlength : 42 ≤ r.length) :
    ihlBytes r'.bytes 14 = ihlBytes r.bytes 14 := by
  have h14 := h.bytes 14 (by omega)
  rw [MicroKernel.Net.ihlBytes, MicroKernel.Net.ihlBytes, h14]

/-- The header check reads the header only. -/
theorem SameFrame.checksumMatches {r r' : Poll} (h : SameFrame r r') (hlength : 42 ≤ r.length)
    (hihl : 20 ≤ MicroKernel.Net.ihlBytes r.bytes 14)
    (hfits : (14 + MicroKernel.Net.ihlBytes r.bytes 14 : Nat) ≤ r.length)
    (hcheck : checksumMatches r.bytes 14) : checksumMatches r'.bytes 14 := by
  have hsmall : (UInt16.ofNat (MicroKernel.Net.ihlBytes r.bytes 14)).toNat
      = MicroKernel.Net.ihlBytes r.bytes 14 := by
    have hlow := (r.bytes 14 &&& 0x0F).toNat_lt
    rw [UInt16.toNat_ofNat']
    unfold MicroKernel.Net.ihlBytes
    omega
  have hfield : field16 r'.bytes 24 = field16 r.bytes 24 :=
    field16_congr fun i hi => (h.bytes (24 + i) (by omega)).symm
  have hsum : ipChecksum (setField16 r'.bytes 24 0) 14
        (UInt16.ofNat (MicroKernel.Net.ihlBytes r.bytes 14))
      = ipChecksum (setField16 r.bytes 24 0) 14
        (UInt16.ofNat (MicroKernel.Net.ihlBytes r.bytes 14)) := by
    refine ipChecksum_congr fun i hi => ?_
    rw [hsmall] at hi
    by_cases hin : 14 + i < 24 ∨ 26 ≤ 14 + i
    · rw [setField16_outside _ _ (by omega), setField16_outside _ _ (by omega)]
      exact (h.bytes (14 + i) (by omega)).symm
    · obtain rfl | rfl : i = 10 ∨ i = 11 := by omega
      · rfl
      · rfl
  show field16 r'.bytes 24 = ipChecksum (setField16 r'.bytes 24 0) 14 _
  rw [h.ihlBytes hlength, hsum, hfield]
  exact hcheck

/-- **What is accepted has been received**: the checks and the data are below the length. -/
theorem SameFrame.passes {port : UInt16} {r r' : Poll} (h : SameFrame r r') (hp : Passes port r) :
    Passes port r' ∧ ∀ (buffer : Bytes) (buflen : UInt32),
      receivedOf buffer buflen r'.bytes = receivedOf buffer buflen r.bytes := by
  have hlength := hp.length
  have hmin := hp.udpMin
  have hmax := hp.udpMax
  have hoffset : udpOffset r'.bytes = udpOffset r.bytes :=
    congrArg (14 + ·) (h.ihlBytes hlength)
  have hihl : (14 + MicroKernel.Net.ihlBytes r.bytes 14 : Nat) = udpOffset r.bytes := rfl
  -- the fields of the UDP header are below its end
  have hfield : ∀ a, a ≤ 6 → field16 r'.bytes (udpOffset r.bytes + a)
      = field16 r.bytes (udpOffset r.bytes + a) := fun a ha =>
    field16_congr fun i hi => (h.bytes _ (by omega)).symm
  have hudp : udpLength r'.bytes = udpLength r.bytes := by
    unfold udpLength
    rw [hoffset, hfield 4 (by decide)]
  constructor
  · refine ⟨h.length ▸ hlength, ?_, ?_, ?_, ?_, ?_, ?_, ?_⟩
    · rw [← h.bytes 12 (by omega), ← h.bytes 13 (by omega)]
      exact hp.etherType
    · rw [h.ihlBytes hlength]
      exact hp.ihl
    · rw [← h.bytes 23 (by omega)]
      exact hp.protocol
    · exact h.checksumMatches hlength hp.ihl (by omega) hp.checksum
    · rw [hoffset, hfield 2 (by decide)]
      exact hp.dstPort
    · rw [hudp]
      exact hmin
    · rw [hoffset, hudp, ← h.length]
      exact hmax
  · intro buffer buflen
    have hcopied : copiedLength r'.bytes buflen = copiedLength r.bytes buflen := by
      unfold copiedLength
      rw [hudp]
    have hle : copiedLength r.bytes buflen ≤ udpLength r.bytes - 8 := Nat.min_le_left _ _
    have hbuffer : copy buffer 0 r'.bytes (udpOffset r.bytes + 8) (copiedLength r.bytes buflen)
        = copy buffer 0 r.bytes (udpOffset r.bytes + 8) (copiedLength r.bytes buflen) := by
      funext x
      by_cases hx : x < copiedLength r.bytes buflen
      · rw [copy_inside _ _ _ (by omega) (by omega), copy_inside _ _ _ (by omega) (by omega)]
        exact (h.bytes _ (by omega)).symm
      · rw [copy_outside _ _ _ (by omega), copy_outside _ _ _ (by omega)]
    have hip : field32 r'.bytes 26 = field32 r.bytes 26 :=
      field32_congr fun i hi => (h.bytes (26 + i) (by omega)).symm
    unfold receivedOf
    rw [hoffset, hcopied, hbuffer, hip]
    exact congrArg (Received.mk _ _ _) (congrArg ntohs (hfield 0 (by decide)))

theorem SameFrame.acceptUdp {r r' : Poll} (h : SameFrame r r') (port : UInt16) (buffer : Bytes)
    {buflen : UInt32} (hbuf : buflen.toNat < 2 ^ 31) :
    acceptUdp port buffer buflen r' = acceptUdp port buffer buflen r := by
  by_cases hp : Passes port r
  · obtain ⟨hp', hsame⟩ := h.passes hp
    rw [acceptUdp_of_passes hp buffer hbuf, acceptUdp_of_passes hp' buffer hbuf, hsame]
  · have hp' : ¬ Passes port r' := fun hp' => hp (h.symm.passes hp').1
    rw [acceptUdp_of_not_passes hp, acceptUdp_of_not_passes hp']

/-! ## The rounds -/

/-- Two cards give the same frames. -/
def SameFrames (nic nic' : Nic) : Prop := ∀ k, SameFrame (nicRecv nic k) (nicRecv nic' k)

theorem SameFrames.receiveUdp {nic nic' : Nic} (h : SameFrames nic nic') (port : UInt16)
    (buffer : Bytes) {buflen : UInt32} (hbuf : buflen.toNat < 2 ^ 31) (pollCount k : Nat) :
    netstackReceiveUdpLow nic' port buffer buflen pollCount k
      = netstackReceiveUdpLow nic port buffer buflen pollCount k := by
  induction pollCount generalizing k with
  | zero => rfl
  | succ pollCount ih =>
      unfold netstackReceiveUdpLow
      rw [(h k).acceptUdp port buffer hbuf, ih (k + 1)]

/-- What is accepted comes from one of the polls. -/
theorem receiveUdp_passes {nic : Nic} {port : UInt16} {buffer : Bytes} {buflen : UInt32}
    (hbuf : buflen.toNat < 2 ^ 31) {pollCount k : Nat} {out : Received}
    (h : (netstackReceiveUdpLow nic port buffer buflen pollCount k).1 = some out) :
    ∃ j, k ≤ j ∧ j < k + pollCount ∧ Passes port (nicRecv nic j) ∧
      out = receivedOf buffer buflen (nicRecv nic j).bytes := by
  induction pollCount generalizing k with
  | zero => exact absurd h (by nofun)
  | succ pollCount ih =>
      unfold netstackReceiveUdpLow at h
      by_cases hp : Passes port (nicRecv nic k)
      · rw [acceptUdp_of_passes hp buffer hbuf] at h
        exact ⟨k, Nat.le_refl k, by omega, hp, (Option.some.inj h).symm⟩
      · rw [acceptUdp_of_not_passes hp] at h
        obtain ⟨j, hkj, hj, hrest⟩ := ih h
        exact ⟨j, by omega, by omega, hrest⟩

/-- **A receiver decides on what it has received.** It does the same for the same frames,
whatever is behind them in its buffer; and what it returns is the data of a frame that passes the
checks, as much of it as fits the caller's buffer, from below the received length. -/
theorem receiveUdp_received {nic nic' : Nic} (hsame : SameFrames nic nic') (port : UInt16)
    (buffer : Bytes) {buflen : UInt32} (hbuf : buflen.toNat < 2 ^ 31) (pollCount k : Nat) :
    netstackReceiveUdpLow nic' port buffer buflen pollCount k
        = netstackReceiveUdpLow nic port buffer buflen pollCount k ∧
      ∀ out, (netstackReceiveUdpLow nic port buffer buflen pollCount k).1 = some out →
        ∃ j, k ≤ j ∧ j < k + pollCount ∧ Passes port (nicRecv nic j) ∧
          out.copied = (min (udpLength (nicRecv nic j).bytes - 8) buflen.toNat : Nat) ∧
          udpOffset (nicRecv nic j).bytes + 8 + out.copied ≤ (nicRecv nic j).length ∧
          (∀ i : Nat, out.buffer i = if (i : Int) < out.copied then
            (nicRecv nic j).bytes (udpOffset (nicRecv nic j).bytes + 8 + i) else buffer i) ∧
          out.srcIp = ntohl (field32 (nicRecv nic j).bytes 26) ∧
          out.srcPort = ntohs (field16 (nicRecv nic j).bytes (udpOffset (nicRecv nic j).bytes)) := by
  refine ⟨hsame.receiveUdp port buffer hbuf pollCount k, fun out hout => ?_⟩
  obtain ⟨j, hkj, hj, hp, rfl⟩ := receiveUdp_passes hbuf hout
  have hmin := hp.udpMin
  have hmax := hp.udpMax
  have hcopied : (receivedOf buffer buflen (nicRecv nic j).bytes).copied
      = (min (udpLength (nicRecv nic j).bytes - 8) buflen.toNat : Nat) := rfl
  refine ⟨j, hkj, hj, hp, hcopied, by omega, fun i => ?_, rfl, rfl⟩
  by_cases hi : (i : Int) < (receivedOf buffer buflen (nicRecv nic j).bytes).copied
  · rw [if_pos hi]
    show copy buffer 0 _ _ (copiedLength _ buflen) i = _
    unfold copiedLength
    rw [copy_inside _ _ _ (by omega) (by omega), Nat.sub_zero]
  · rw [if_neg hi]
    show copy buffer 0 _ _ (copiedLength _ buflen) i = _
    unfold copiedLength
    rw [copy_outside _ _ _ (by omega)]

/-- A card that gives one datagram again and again, with `stale` behind it. -/
def pingNic (stale : UInt8) : Nic where
  initialized := true
  poll _ := ⟨46, fun i =>
    if i < 46 then udpBytes stackQemu (macAt (fun _ => 0xFF) 0) 0x0A00020F 68 67 pingData 4 false i
    else stale⟩

theorem sameFrames_pingNic (stale stale' : UInt8) : SameFrames (pingNic stale) (pingNic stale') := by
  refine fun k => ⟨rfl, fun i hi => ?_⟩
  have hlt : i < 46 := Int.ofNat_lt.mp hi
  show (if i < 46 then _ else _) = if i < 46 then _ else _
  rw [if_pos hlt, if_pos hlt]

/-- Both cards deliver the datagram, into the buffer of the DHCP client. -/
theorem receiveUdp_received_ping :
    netstackReceiveUdpLow (pingNic 0xFF) 67 (fun _ => 0) 548 512 0
        = netstackReceiveUdpLow (pingNic 0) 67 (fun _ => 0) 548 512 0 ∧
      ∃ out, (netstackReceiveUdpLow (pingNic 0) 67 (fun _ => 0) 548 512 0).1 = some out := by
  obtain ⟨hsame, -⟩ := receiveUdp_received (sameFrames_pingNic 0 0xFF) 67 (fun _ => 0)
    (show (548 : UInt32).toNat < 2 ^ 31 by decide) 512 0
  refine ⟨hsame, ?_⟩
  have hdeliver : Delivers (nicRecv (pingNic 0) 0)
      ⟨udpBytes stackQemu (macAt (fun _ => 0xFF) 0) 0x0A00020F 68 67 pingData 4 false,
        42 + (4 : UInt32).toNat⟩ := ⟨fun i hi => if_pos hi, Or.inl rfl⟩
  have haccept := acceptUdp_sent (by decide) hdeliver (fun _ => 0)
    (show (548 : UInt32).toNat < 2 ^ 31 by decide)
  unfold netstackReceiveUdpLow
  rw [haccept]
  exact ⟨_, rfl⟩

end MicroKernel.Net
