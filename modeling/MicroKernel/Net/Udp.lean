import MicroKernel.Net.Netstack

set_option autoImplicit false

/-! # Sending and receiving datagrams (`drivers/net/netstack.c`)

`icmp_send_echo_request`, `netstack_send_udp_low` and `netstack_receive_udp_low`. A send function
gives the frames that it hands to `nic_send`, in order. What a poll of the card gives is a
parameter: the result of `nic_recv` and the buffer after it, of which the card wrote as many bytes
as the result says.

The senders fill the headers with the same assignments; these are `setEthHeader`, `setIpHeader`
and `setIcmp`.
-/

namespace MicroKernel.Net

open MicroKernel.Lib Bytes

/-! ## The card -/

/-- The result of `nic_recv` and the buffer after it. -/
structure Poll where
  length : Int
  bytes : Bytes

/-- The network card: whether it is initialised, and what poll number `k` gives. -/
structure Nic where
  initialized : Bool
  poll : Nat → Poll

/-- `nic_recv`. -/
def nicRecv (nic : Nic) (k : Nat) : Poll :=
  if nic.initialized then nic.poll k else ⟨-1, fun _ => 0⟩

/-- What a send function does: its result, the state after it, and the frames it sends. -/
structure Sending where
  result : Int
  stack : Stack
  frames : List Frame

/-! ## Headers -/

/-- The link header of an IPv4 frame. -/
def setEthHeader (p : Bytes) (s : Stack) (mac : Mac) : Bytes :=
  let p := setMac p 0 mac
  let p := setMac p 6 s.netConfig.macAddress
  setField16 p 12 (htons 0x0800)

/-- The IP header without its checksum. -/
def setIpFields (p : Bytes) (s : Stack) (totalLength : UInt16) (protocol : UInt8)
    (dstIp : UInt32) : Bytes :=
  let p := store8 p 14 0x45
  let p := store8 p 15 0
  let p := setField16 p 16 (htons totalLength)
  let p := setField16 p 18 (htons s.ipIdentification)
  let p := setField16 p 20 0
  let p := store8 p 22 64
  let p := store8 p 23 protocol
  let p := setField32 p 26 (htonl s.netConfig.ipAddress)
  let p := setField32 p 30 (htonl dstIp)
  setField16 p 24 0

/-- The IP header. -/
def setIpHeader (p : Bytes) (s : Stack) (totalLength : UInt16) (protocol : UInt8)
    (dstIp : UInt32) : Bytes :=
  let p := setIpFields p s totalLength protocol dstIp
  setField16 p 24 (ipChecksum p 14 20)

/-- An ICMP message without its checksum, its data at index `data` of `mem`. -/
def setIcmpFields (p : Bytes) (type : UInt8) (id seq : UInt16) (mem : Bytes) (data : Nat)
    (dataLen : UInt16) : Bytes :=
  let p := store8 p 34 type
  let p := store8 p 35 0
  let p := setField16 p 38 (htons id)
  let p := setField16 p 40 (htons seq)
  let p := setField16 p 36 0
  copy p 42 mem data dataLen.toNat

/-- An ICMP message. -/
def setIcmp (p : Bytes) (type : UInt8) (id seq : UInt16) (mem : Bytes) (data : Nat)
    (dataLen : UInt16) : Bytes :=
  let p := setIcmpFields p type id seq mem data dataLen
  setField16 p 36 (ipChecksum p 34 (8 + dataLen))

/-- The buffer of `icmp_send_echo_reply` is filled by the same assignments. -/
theorem echoReplyBytes_eq (s : Stack) (mac : Mac) (dstIp : UInt32) (id seq : UInt16)
    (mem : Bytes) (data : Nat) (dataLen : UInt16) :
    echoReplyBytes s mac dstIp id seq mem data dataLen
      = setIcmp (setIpHeader (setEthHeader (fun _ => 0) s mac) s (28 + dataLen) 1 dstIp) 0 id seq
          mem data dataLen := rfl

/-! ## Echo requests -/

/-- The four bytes of data of an echo request. -/
def pingData : Bytes := fun i => ([0x70, 0x69, 0x6E, 0x67] : List UInt8).getD i 0

/-- The buffer of `icmp_send_echo_request`. -/
def echoRequestBytes (s : Stack) (mac : Mac) (dstIp : UInt32) (id seq : UInt16) : Bytes :=
  let p : Bytes := fun _ => 0
  let p := setEthHeader p s mac
  let p := setIpHeader p s (28 + 4) 1 dstIp
  setIcmp p 8 id seq pingData 0 4

/-- `icmp_send_echo_request`. -/
def icmpSendEchoRequest (s : Stack) (dstIp : UInt32) (id seq : UInt16) : Stack × List Frame :=
  match dstMac s dstIp with
  | none => (s, [arpSendRequest s (nextHop s dstIp)])
  | some mac =>
      ({ s with ipIdentification := s.ipIdentification + 1 },
        [⟨echoRequestBytes s mac dstIp id seq, 46⟩])

/-! ## UDP -/

/-- `udp_checksum`: the pseudo header, the UDP header at 34, and the caller's data. -/
def udpChecksum (p : Bytes) (data : Bytes) (len : UInt32) : UInt16 :=
  let pseudo : Bytes := fun _ => 0
  let pseudo := setField32 pseudo 0 (field32 p 26)
  let pseudo := setField32 pseudo 4 (field32 p 30)
  let pseudo := store8 pseudo 8 0
  let pseudo := store8 pseudo 9 17
  let pseudo := setField16 pseudo 10 (htons (8 + len.toUInt16))
  let sum := checksumAccumulate pseudo 0 12 0
  let sum := checksumAccumulate p 34 8 sum
  let sum := checksumAccumulate data 0 len.toNat sum
  foldChecksum sum

/-- The buffer of `netstack_send_udp_low`. -/
def udpBytes (s : Stack) (mac : Mac) (dstIp : UInt32) (srcPort dstPort : UInt16) (data : Bytes)
    (len : UInt32) (withChecksum : Bool) : Bytes :=
  let p : Bytes := fun _ => 0
  let p := setEthHeader p s mac
  let p := setIpHeader p s (28 + len.toUInt16) 17 dstIp
  let p := setField16 p 34 (htons srcPort)
  let p := setField16 p 36 (htons dstPort)
  let p := setField16 p 38 (htons (8 + len.toUInt16))
  let p := setField16 p 40 0
  let p := copy p 42 data 0 len.toNat
  if withChecksum then setField16 p 40 (udpChecksum p data len) else p

/-- `netstack_send_udp_low`. The outcome of `ne2000_send_packet` is lost in `nic_send`, which
fails only without a card. -/
def netstackSendUdpLow (initialized : Bool) (s : Stack) (dstIp : UInt32)
    (srcPort dstPort : UInt16) (data : Bytes) (len : UInt32) (withChecksum : Bool) : Sending :=
  if 42 + len > 1514 then ⟨-1, s, []⟩
  else
    match dstMac s dstIp with
    | none => ⟨-1, s, [arpSendRequest s (nextHop s dstIp)]⟩
    | some mac =>
        { result := if initialized then 0 else -1
          stack := { s with ipIdentification := s.ipIdentification + 1 }
          frames := [⟨udpBytes s mac dstIp srcPort dstPort data len withChecksum,
            (42 + len).toNat⟩] }

/-- What `netstack_receive_udp_low` returns when it accepts a datagram: the number of bytes
copied, the caller's buffer, and the sender. -/
structure Received where
  copied : Int
  buffer : Bytes
  srcIp : UInt32
  srcPort : UInt16

/-- A `size_t` as an `int`. -/
def toInt (n : UInt32) : Int := if n.toNat < 2 ^ 31 then n.toNat else n.toNat - 2 ^ 32

/-- One round of `netstack_receive_udp_low`: what it does with the result of a poll. -/
def acceptUdp (port : UInt16) (buffer : Bytes) (buflen : UInt32) (r : Poll) : Option Received :=
  let pkt := r.bytes
  if r.length ≤ 0 then none
  else if r.length < 42 then none
  else if 256 * (pkt 12).toNat + (pkt 13).toNat ≠ 0x0800 then none
  else if ihlBytes pkt 14 < 20 ∨ r.length < 14 + ihlBytes pkt 14 then none
  else if pkt 23 ≠ 17 then none
  else if ¬ checksumMatches pkt 14 then none
  else
    let udp := 14 + ihlBytes pkt 14
    if ntohs (field16 pkt (udp + 2)) ≠ port then none
    else
      let udpPl : Int := (ntohs (field16 pkt (udp + 4))).toNat - 8
      let avail : Int := r.length - (udp + 8)
      if udpPl < 0 ∨ avail < udpPl then none
      else
        let copied := if udpPl < toInt buflen then udpPl else toInt buflen
        -- a negative count is a huge `size_t`
        some
          { copied := copied
            buffer := copy buffer 0 pkt (udp + 8) (copied % 2 ^ 32).toNat
            srcIp := ntohl (field32 pkt 26)
            srcPort := ntohs (field16 pkt udp) }

/-- `netstack_receive_udp_low`, from poll number `k` on: what it accepts, if anything, and the
number of the next poll. -/
def netstackReceiveUdpLow (nic : Nic) (port : UInt16) (buffer : Bytes) (buflen : UInt32) :
    Nat → Nat → Option Received × Nat
  | 0, k => (none, k)
  | pollCount + 1, k =>
      match acceptUdp port buffer buflen (nicRecv nic k) with
      | some r => (some r, k + 1)
      | none => netstackReceiveUdpLow nic port buffer buflen pollCount (k + 1)

end MicroKernel.Net
