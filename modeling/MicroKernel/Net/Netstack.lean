import MicroKernel.Net.Wire

set_option autoImplicit false

/-! # Receiving a frame (`drivers/net/netstack.c`)

`netstack_process_packet` and what it calls: the ARP cache, the ARP replies and requests, and
the path of an echo request through `handle_ip_packet` and `handle_icmp_packet` to
`icmp_send_echo_reply`. The functions take the received memory and the offset of the layer they
look at, as the C code takes a pointer; a length is the `uint16_t` that is passed along.

What is handed to the network card is collected in order (`Output`). The messages are left out.
-/

namespace MicroKernel.Net

open MicroKernel.Lib Bytes

/-! ## State -/

/-- `ARP_CACHE_SIZE`. -/
def arpCacheSize : Nat := 32

/-- `arp_cache_entry_t`; its time stamp is always `0`. -/
structure ArpCacheEntry where
  ip : UInt32
  mac : Mac
  valid : Bool

/-- `network_config_t`. -/
structure NetworkConfig where
  ipAddress : UInt32
  netmask : UInt32
  gateway : UInt32
  dnsServer : UInt32
  macAddress : Mac

/-- The global state of the stack. -/
structure Stack where
  netConfig : NetworkConfig
  arpCache : Vector ArpCacheEntry arpCacheSize
  ipIdentification : UInt16

/-- A frame handed to `nic_send`: the buffer and the number of its bytes that are sent. -/
structure Frame where
  bytes : Bytes
  length : Nat

/-- The `memcpy` that fills an echo reply: from which index of the received memory, and how
many bytes. -/
structure EchoReply where
  frame : Frame
  data : Nat
  dataLen : Nat

/-- What the stack sends. -/
inductive Output where
  | arp (frame : Frame)
  | echoReply (reply : EchoReply)

/-- `netstack_init`. The card gives its address when it is initialised. -/
def netstackInit (s : Stack) (nicMac : Option Mac) : Stack where
  netConfig :=
    { ipAddress := 0, netmask := 0, gateway := 0, dnsServer := 0,
      macAddress := nicMac.getD (Vector.replicate 6 0) }
  arpCache := s.arpCache.map fun e => { e with valid := false }
  ipIdentification := s.ipIdentification

/-! ## ARP -/

/-- `arp_lookup`. -/
def arpLookup (s : Stack) (ip : UInt32) : Option Mac :=
  (s.arpCache.toList.find? fun e => e.valid && e.ip == ip).map ArpCacheEntry.mac

/-- The loop of `arp_add_entry`: the slot of the address, else the first slot that is not
valid. -/
def arpFindSlot (ip : UInt32) : List ArpCacheEntry → Nat → Option Nat → Option Nat
  | [], _, slot => slot
  | e :: es, i, slot =>
      if e.valid && e.ip == ip then some i
      else arpFindSlot ip es (i + 1) (if !e.valid && slot.isNone then some i else slot)

/-- `arp_add_entry`. With neither the address nor a free slot in the cache, slot 0 is taken. -/
def arpAddEntry (s : Stack) (ip : UInt32) (mac : Mac) : Stack :=
  let slot := (arpFindSlot ip s.arpCache.toList 0 none).getD 0
  { s with arpCache := s.arpCache.setIfInBounds slot { ip := ip, mac := mac, valid := true } }

/-- The frame of `arp_send_request` and `arp_send_reply`, which differ in where it goes, in the
operation and in the target. -/
def arpFrame (s : Stack) (dstMac : Mac) (operation : UInt16) (targetMac : Mac)
    (targetIp : UInt32) : Frame :=
  let p : Bytes := fun _ => 0
  let p := setMac p 0 dstMac
  let p := setMac p 6 s.netConfig.macAddress
  let p := setField16 p 12 (htons 0x0806)
  let p := setField16 p 14 (htons 1)
  let p := setField16 p 16 (htons 0x0800)
  let p := store8 p 18 6
  let p := store8 p 19 4
  let p := setField16 p 20 (htons operation)
  let p := setMac p 22 s.netConfig.macAddress
  let p := setField32 p 28 (htonl s.netConfig.ipAddress)
  let p := setMac p 32 targetMac
  let p := setField32 p 38 (htonl targetIp)
  ⟨p, 42⟩

/-- `arp_send_request`. -/
def arpSendRequest (s : Stack) (targetIp : UInt32) : Frame :=
  arpFrame s broadcastMac 1 (Vector.replicate 6 0) targetIp

/-- `arp_send_reply`. -/
def arpSendReply (s : Stack) (targetIp : UInt32) (targetMac : Mac) : Frame :=
  arpFrame s targetMac 2 targetMac targetIp

/-- `handle_arp_packet` on the `length` bytes at `a`. -/
def handleArpPacket (s : Stack) (p : Bytes) (a : Nat) (length : UInt16) : Stack × List Output :=
  if length < 28 then (s, [])
  else if ntohs (field16 p a) ≠ 1 ∨ ntohs (field16 p (a + 2)) ≠ 0x0800 ∨ p (a + 4) ≠ 6
      ∨ p (a + 5) ≠ 4 then (s, [])
  else
    let op := ntohs (field16 p (a + 6))
    let sip := ntohl (field32 p (a + 14))
    let tip := ntohl (field32 p (a + 24))
    let s := arpAddEntry s sip (macAt p (a + 8))
    if op = 1 ∧ tip = s.netConfig.ipAddress then
      (s, [.arp (arpSendReply s sip (macAt p (a + 8)))])
    else (s, [])

/-! ## ICMP -/

/-- The next hop of a packet to `dstIp`. -/
def nextHop (s : Stack) (dstIp : UInt32) : UInt32 :=
  if (dstIp &&& s.netConfig.netmask) = (s.netConfig.ipAddress &&& s.netConfig.netmask)
      ∨ dstIp = 0xFFFFFFFF then dstIp
  else s.netConfig.gateway

/-- The hardware address that a packet to `dstIp` is sent to, if it is known. -/
def dstMac (s : Stack) (dstIp : UInt32) : Option Mac :=
  if dstIp = 0xFFFFFFFF then some broadcastMac else arpLookup s (nextHop s dstIp)

/-- The buffer of `icmp_send_echo_reply`, after the last write to it. -/
def echoReplyBytes (s : Stack) (mac : Mac) (dstIp : UInt32) (id seq : UInt16) (mem : Bytes)
    (data : Nat) (dataLen : UInt16) : Bytes :=
  let p : Bytes := fun _ => 0
  let p := setMac p 0 mac
  let p := setMac p 6 s.netConfig.macAddress
  let p := setField16 p 12 (htons 0x0800)
  let p := store8 p 14 0x45
  let p := store8 p 15 0
  let p := setField16 p 16 (htons (28 + dataLen))
  let p := setField16 p 18 (htons s.ipIdentification)
  let p := setField16 p 20 0
  let p := store8 p 22 64
  let p := store8 p 23 1
  let p := setField32 p 26 (htonl s.netConfig.ipAddress)
  let p := setField32 p 30 (htonl dstIp)
  let p := setField16 p 24 0
  let p := setField16 p 24 (ipChecksum p 14 20)
  let p := store8 p 34 0
  let p := store8 p 35 0
  let p := setField16 p 38 (htons id)
  let p := setField16 p 40 (htons seq)
  let p := setField16 p 36 0
  let p := copy p 42 mem data dataLen.toNat
  setField16 p 36 (ipChecksum p 34 (8 + dataLen))

/-- `icmp_send_echo_reply`, its data at index `data` of the received memory. -/
def icmpSendEchoReply (s : Stack) (dstIp : UInt32) (id seq : UInt16) (mem : Bytes) (data : Nat)
    (dataLen : UInt16) : Stack × List Output :=
  match dstMac s dstIp with
  | none => (s, [.arp (arpSendRequest s (nextHop s dstIp))])
  | some mac =>
      ({ s with ipIdentification := s.ipIdentification + 1 },
        [.echoReply
          { frame := ⟨echoReplyBytes s mac dstIp id seq mem data dataLen, 42 + dataLen.toNat⟩,
            data := data, dataLen := dataLen.toNat }])

/-- `handle_icmp_packet`. -/
def handleIcmpPacket (s : Stack) (p : Bytes) (a : Nat) (length : UInt16) (srcIp : UInt32) :
    Stack × List Output :=
  if length < 8 then (s, [])
  else if p a = 8 then
    icmpSendEchoReply s srcIp (ntohs (field16 p (a + 4))) (ntohs (field16 p (a + 6))) p (a + 8)
      (length - 8)
  else (s, [])

/-! ## IP and Ethernet -/

/-- `ihl_bytes`. -/
def ihlBytes (p : Bytes) (a : Nat) : Nat := (p a &&& 0x0F).toNat * 4

/-- The header check of `handle_ip_packet`: the checksum field as the machine reads it against
the checksum of the header with that field cleared. -/
def checksumMatches (p : Bytes) (a : Nat) : Prop :=
  field16 p (a + 10) = ipChecksum (setField16 p (a + 10) 0) a (UInt16.ofNat (ihlBytes p a))

instance (p : Bytes) (a : Nat) : Decidable (checksumMatches p a) :=
  inferInstanceAs (Decidable (_ = _))

/-- `handle_ip_packet`. The difference `ntohs(total_length) - ihl_bytes` is cut to 16 bits. -/
def handleIpPacket (s : Stack) (p : Bytes) (a : Nat) (length : UInt16) : Stack × List Output :=
  if length < 20 then (s, [])
  else if ihlBytes p a < 20 ∨ length.toNat < ihlBytes p a then (s, [])
  else if ¬ checksumMatches p a then (s, [])
  else
    let dst := ntohl (field32 p (a + 16))
    if dst ≠ s.netConfig.ipAddress ∧ dst ≠ 0xFFFFFFFF then (s, [])
    else if ntohs (field16 p (a + 6)) &&& 0x3FFF ≠ 0 then (s, [])
    else
      let payloadLen := ntohs (field16 p (a + 2)) - UInt16.ofNat (ihlBytes p a)
      if p (a + 9) = 1 then
        handleIcmpPacket s p (a + ihlBytes p a) payloadLen (ntohl (field32 p (a + 12)))
      else (s, [])

/-- `netstack_process_packet`. -/
def netstackProcessPacket (s : Stack) (p : Bytes) (length : UInt16) : Stack × List Output :=
  if length < 14 then (s, [])
  else
    let type := ntohs (field16 p 12)
    if macAt p 0 ≠ broadcastMac ∧ macAt p 0 ≠ s.netConfig.macAddress then (s, [])
    else if type = 0x0806 then handleArpPacket s p 14 (length - 14)
    else if type = 0x0800 then handleIpPacket s p 14 (length - 14)
    else (s, [])

/-! ## The frames that are looked at -/

section accepts

variable {s : Stack} {p : Bytes} {length : UInt16}

/-- The frame has an Ethernet header and is for this machine. -/
def Accepts (s : Stack) (p : Bytes) (length : UInt16) : Prop :=
  14 ≤ length.toNat ∧ (macAt p 0 = broadcastMac ∨ macAt p 0 = s.netConfig.macAddress)

theorem Accepts.payload_toNat (h : Accepts s p length) :
    (length - 14).toNat = length.toNat - 14 := by
  rw [UInt16.toNat_sub_of_le _ _ (UInt16.le_iff_toNat_le.mpr (by simpa using h.1))]
  rfl

/-- A frame that is accepted goes to the handler of its type. -/
theorem Accepts.processPacket (h : Accepts s p length) :
    netstackProcessPacket s p length
      = if ntohs (field16 p 12) = 0x0806 then handleArpPacket s p 14 (length - 14)
        else if ntohs (field16 p 12) = 0x0800 then handleIpPacket s p 14 (length - 14)
        else (s, []) := by
  have hlen : ¬ length < 14 := by
    rw [UInt16.lt_iff_toNat_lt]
    exact Nat.not_lt.mpr h.1
  have hmac : ¬ (macAt p 0 ≠ broadcastMac ∧ macAt p 0 ≠ s.netConfig.macAddress) :=
    fun hn => h.2.elim hn.1 hn.2
  unfold netstackProcessPacket
  rw [if_neg hlen, if_neg hmac]

/-- All other frames are dropped without a trace. -/
theorem processPacket_of_not_accepts (h : ¬ Accepts s p length) :
    netstackProcessPacket s p length = (s, []) := by
  unfold netstackProcessPacket
  by_cases hlen : length < 14
  · rw [if_pos hlen]
  · rw [if_neg hlen, if_pos]
    rw [UInt16.lt_iff_toNat_lt] at hlen
    exact not_or.mp fun hmac => h ⟨Nat.not_lt.mp hlen, hmac⟩

end accepts

end MicroKernel.Net
