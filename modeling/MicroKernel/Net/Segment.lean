import MicroKernel.Net.ArpCache
import MicroKernel.Net.UdpRoundTrip

set_option autoImplicit false

/-! # Machines on one segment

Any number of machines run the stack on one Ethernet. Each of them sends echo requests, datagrams and
ARP requests when it likes, and answers what it receives; a frame may be lost, delivered late, more
than once and to any of the machines, and the card may deliver more bytes than were sent.

There is one lemma for each kind of frame that the stack sends, about the machine that receives it
(`processPacket_arpFrame`, `processPacket_icmp`, `processPacket_udp`). `Segment.Honest` is the invariant
of the caches and of the frames.
-/

namespace MicroKernel.Net

open MicroKernel.Lib Bytes

/-! ## Reading a frame -/

section read

variable {p q : Bytes} {a : Nat}

theorem macAt_congr (h : ∀ i, i < 6 → p (a + i) = q (a + i)) : macAt p a = macAt q a := by
  apply Vector.ext
  intro i hi
  simpa [macAt] using h i hi

theorem macAt_setMac (p : Bytes) (a : Nat) (mac : Mac) : macAt (setMac p a mac) a = mac := by
  apply Vector.ext
  intro i hi
  simp only [macAt, setMac, Vector.getElem_ofFn]
  rw [dif_pos (by omega)]
  simp [Vector.get]

theorem setMac_outside (p : Bytes) {a x : Nat} (mac : Mac) (h : x < a ∨ a + 6 ≤ x) :
    setMac p a mac x = p x := dif_neg (by omega)

/-- The assignments behind that of a field leave it what it is. -/
theorem field16_of_set {v : UInt16} (h : ∀ i, i < 2 → p (a + i) = setField16 q a v (a + i)) :
    field16 p a = v := (field16_congr h).trans (field16_setField16 q a v)

theorem field32_of_set {v : UInt32} (h : ∀ i, i < 4 → p (a + i) = setField32 q a v (a + i)) :
    field32 p a = v := (field32_congr h).trans (field32_setField32 q a v)

theorem macAt_of_set {mac : Mac} (h : ∀ i, i < 6 → p (a + i) = setMac q a mac (a + i)) :
    macAt p a = mac := (macAt_congr h).trans (macAt_setMac q a mac)

end read

/-- The memory and the length of a received frame: that of the frame `f`, perhaps with more behind. -/
structure Carries (f : Frame) (p : Bytes) (length : UInt16) : Prop where
  length : f.length ≤ length.toNat
  bytes : ∀ i, i < f.length → p i = f.bytes i

section carries

variable {f : Frame} {p : Bytes} {length : UInt16}

theorem Carries.read16 (h : Carries f p length) {a : Nat} (ha : a + 2 ≤ f.length) :
    field16 p a = field16 f.bytes a := field16_congr fun i hi => h.bytes (a + i) (by omega)

theorem Carries.read32 (h : Carries f p length) {a : Nat} (ha : a + 4 ≤ f.length) :
    field32 p a = field32 f.bytes a := field32_congr fun i hi => h.bytes (a + i) (by omega)

theorem Carries.readMac (h : Carries f p length) {a : Nat} (ha : a + 6 ≤ f.length) :
    macAt p a = macAt f.bytes a := macAt_congr fun i hi => h.bytes (a + i) (by omega)

end carries

/-! ## The fields of the frames that are sent -/

section fields

variable (s : Stack) (mac targetMac : Mac) (op : UInt16) (targetIp : UInt32)

theorem arpFrame_fields :
    macAt (arpFrame s mac op targetMac targetIp).bytes 0 = mac ∧
      macAt (arpFrame s mac op targetMac targetIp).bytes 6 = s.netConfig.macAddress ∧
      field16 (arpFrame s mac op targetMac targetIp).bytes 12 = htons 0x0806 ∧
      field16 (arpFrame s mac op targetMac targetIp).bytes 14 = htons 1 ∧
      field16 (arpFrame s mac op targetMac targetIp).bytes 16 = htons 0x0800 ∧
      (arpFrame s mac op targetMac targetIp).bytes 18 = 6 ∧
      (arpFrame s mac op targetMac targetIp).bytes 19 = 4 ∧
      field16 (arpFrame s mac op targetMac targetIp).bytes 20 = htons op ∧
      macAt (arpFrame s mac op targetMac targetIp).bytes 22 = s.netConfig.macAddress ∧
      field32 (arpFrame s mac op targetMac targetIp).bytes 28 = htonl s.netConfig.ipAddress ∧
      field32 (arpFrame s mac op targetMac targetIp).bytes 38 = htonl targetIp := by
  unfold arpFrame
  dsimp only
  refine ⟨?_, ?_, ?_, ?_, ?_, rfl, rfl, ?_, ?_, ?_, field32_setField32 _ _ _⟩
  -- each field is read through the assignments behind it
  all_goals first | apply macAt_of_set | apply field16_of_set | apply field32_of_set
  all_goals
    intro i hi
    simp (disch := omega) only [setField32_outside, setField16_outside, setMac_outside, store8_ne]
    rfl

/-- The link header of `setEthHeader` and the IP header of `setIpHeader`. -/
theorem ipHeader_fields (totalLength : UInt16) (protocol : UInt8) (dstIp : UInt32) {p : Bytes}
    (h : ∀ x, x < 34 → p x = setIpHeader (setEthHeader (fun _ => 0) s mac) s totalLength protocol dstIp x) :
    macAt p 0 = mac ∧ macAt p 6 = s.netConfig.macAddress ∧ field16 p 12 = htons 0x0800 ∧
      field16 p 16 = htons totalLength ∧ field16 p 20 = 0 ∧ p 23 = protocol ∧
      field32 p 26 = htonl s.netConfig.ipAddress ∧ field32 p 30 = htonl dstIp := by
  refine ⟨?_, ?_, ?_, ?_, ?_, h 23 (by decide), ?_, ?_⟩
  all_goals first | apply macAt_of_set | apply field16_of_set | apply field32_of_set
  all_goals
    intro i hi
    rw [h _ (by omega)]
    unfold setIpHeader setIpFields setEthHeader
    simp (disch := omega) only [setField32_outside, setField16_outside, setMac_outside, store8_ne]
    rfl

end fields

/-! ## What a machine makes of them -/

/-- The machine takes frames for the hardware address. -/
def Stack.Hears (t : Stack) (mac : Mac) : Prop := mac = broadcastMac ∨ mac = t.netConfig.macAddress

instance (t : Stack) (mac : Mac) : Decidable (t.Hears mac) := inferInstanceAs (Decidable (_ ∨ _))

theorem Stack.hears_broadcast (t : Stack) : t.Hears broadcastMac := Or.inl rfl

theorem Stack.hears_own (t : Stack) : t.Hears t.netConfig.macAddress := Or.inr rfl

/-- The frame of `icmp_send_echo_request` and `icmp_send_echo_reply`. -/
def icmpFrame (s : Stack) (mac : Mac) (dstIp : UInt32) (type : UInt8) (id seq : UInt16) (mem : Bytes)
    (data : Nat) (dataLen : UInt16) : Frame :=
  ⟨setIcmp (setIpHeader (setEthHeader (fun _ => 0) s mac) s (28 + dataLen) 1 dstIp) type id seq mem data
    dataLen, 42 + dataLen.toNat⟩

section process

variable {s t : Stack} {mac targetMac : Mac} {p : Bytes} {length : UInt16}

theorem accepts_iff_hears (h14 : 14 ≤ length.toNat) (hmac : macAt p 0 = mac) :
    Accepts t p length ↔ t.Hears mac := by
  rw [← hmac]
  exact and_iff_right h14

theorem Carries.arp_fields {op : UInt16} {targetIp : UInt32}
    (h : Carries (arpFrame s mac op targetMac targetIp) p length) :
    macAt p 0 = mac ∧ field16 p 12 = htons 0x0806 ∧ field16 p 14 = htons 1 ∧
      field16 p 16 = htons 0x0800 ∧ p 18 = 6 ∧ p 19 = 4 ∧ field16 p 20 = htons op ∧
      macAt p 22 = s.netConfig.macAddress ∧ field32 p 28 = htonl s.netConfig.ipAddress ∧
      field32 p 38 = htonl targetIp := by
  obtain ⟨hdst, -, htype, hhw, hproto, hhlen, hplen, hop, hsmac, hsip, htip⟩ :=
    arpFrame_fields s mac targetMac op targetIp
  have hle : ∀ {k}, k ≤ 42 → k ≤ (arpFrame s mac op targetMac targetIp).length := id
  exact ⟨(h.readMac (hle (by decide))).trans hdst, (h.read16 (hle (by decide))).trans htype,
    (h.read16 (hle (by decide))).trans hhw, (h.read16 (hle (by decide))).trans hproto,
    (h.bytes _ (hle (by decide))).trans hhlen, (h.bytes _ (hle (by decide))).trans hplen,
    (h.read16 (hle (by decide))).trans hop, (h.readMac (hle (by decide))).trans hsmac,
    (h.read32 (hle (by decide))).trans hsip, (h.read32 (hle (by decide))).trans htip⟩

/-- **An ARP packet**: the sender is added to the cache, and a request for the own address answered. -/
theorem processPacket_arpFrame {op : UInt16} {targetIp : UInt32}
    (h : Carries (arpFrame s mac op targetMac targetIp) p length) :
    netstackProcessPacket t p length
      = if t.Hears mac then
          (arpAddEntry t s.netConfig.ipAddress s.netConfig.macAddress,
            if op = 1 ∧ targetIp = t.netConfig.ipAddress then
              [.arp (arpSendReply t s.netConfig.ipAddress s.netConfig.macAddress)] else [])
        else (t, []) := by
  obtain ⟨hdst, htype, hhw, hproto, hhlen, hplen, hop, hsmac, hsip, htip⟩ := h.arp_fields
  have hlen : 42 ≤ length.toNat := h.length
  have hacc := accepts_iff_hears (t := t) (le_trans (by decide) hlen) hdst
  by_cases hh : t.Hears mac
  · rw [if_pos hh, (hacc.mpr hh).processPacket]
    have hlen' := (hacc.mpr hh).payload_toNat
    have h28 : ¬ length - 14 < 28 := by
      rw [UInt16.lt_iff_toNat_lt, hlen']
      show ¬ length.toNat - 14 < 28
      omega
    have hformat : ¬ (ntohs (field16 p 14) ≠ 1 ∨ ntohs (field16 p (14 + 2)) ≠ 0x0800 ∨
        p (14 + 4) ≠ 6 ∨ p (14 + 5) ≠ 4) := by
      simp [hhw, hproto, hhlen, hplen, ntohs_htons]
    rw [htype, ntohs_htons, if_pos rfl]
    unfold handleArpPacket
    rw [if_neg h28, if_neg hformat]
    dsimp only [Nat.reduceAdd]
    rw [hop, hsmac, hsip, htip, ntohs_htons, ntohl_htonl, ntohl_htonl]
    have hconfig : (arpAddEntry t s.netConfig.ipAddress s.netConfig.macAddress).netConfig = t.netConfig :=
      rfl
    rw [hconfig]
    split <;> rfl
  · rw [if_neg hh, processPacket_of_not_accepts (fun hn => hh (hacc.mp hn))]

/-- **An IP packet of this stack**: without options and fragments, and with a checksum that its
receivers take for right. -/
theorem processPacket_ip {totalLength : UInt16} {protocol : UInt8} {dstIp : UInt32}
    (h : ∀ x, x < 34 → p x = setIpHeader (setEthHeader (fun _ => 0) s mac) s totalLength protocol dstIp x)
    (hlen : 34 ≤ length.toNat) :
    netstackProcessPacket t p length
      = if t.Hears mac ∧ (dstIp = t.netConfig.ipAddress ∨ dstIp = 0xFFFFFFFF) ∧ protocol = 1 then
          handleIcmpPacket t p 34 (totalLength - 20) s.netConfig.ipAddress
        else (t, []) := by
  obtain ⟨hdst, -, htype, htotal, hwhole, hproto, hsip, hdip⟩ := ipHeader_fields s mac _ _ _ h
  obtain ⟨hihl, hsum⟩ := checksumMatches_setIpHeader s _ _ _ fun x _ hx => h x hx
  have hacc := accepts_iff_hears (t := t) (le_trans (by decide) hlen) hdst
  by_cases hh : t.Hears mac
  · have hlen' := (hacc.mpr hh).payload_toNat
    have h20 : ¬ length - 14 < 20 := by
      rw [UInt16.lt_iff_toNat_lt, hlen']
      show ¬ length.toNat - 14 < 20
      omega
    have hheader : ¬ (ihlBytes p 14 < 20 ∨ (length - 14).toNat < ihlBytes p 14) := by
      rw [hihl, hlen']
      omega
    rw [(hacc.mpr hh).processPacket, htype, ntohs_htons, if_neg (by decide), if_pos rfl]
    unfold handleIpPacket
    rw [if_neg h20, if_neg hheader, if_neg (not_not_intro hsum)]
    dsimp only [Nat.reduceAdd]
    rw [hdip, hwhole, htotal, hihl, hproto, hsip, ntohl_htonl, ntohl_htonl, ntohs_htons]
    by_cases hd : dstIp = t.netConfig.ipAddress ∨ dstIp = 0xFFFFFFFF
    · rw [if_neg (fun hn => hd.elim hn.1 hn.2), if_neg (by decide)]
      simp only [hh, hd, true_and]
      rfl
    · rw [if_pos (not_or.mp hd), if_neg (fun hn => hd hn.2.1)]
  · rw [if_neg (fun hn => hh hn.1), processPacket_of_not_accepts (fun hn => hh (hacc.mp hn))]

theorem icmpFrame_header {dstIp : UInt32} {type : UInt8} {id seq : UInt16} {mem : Bytes} {data : Nat}
    {dataLen : UInt16} {x : Nat} (hx : x < 34) :
    (icmpFrame s mac dstIp type id seq mem data dataLen).bytes x
      = setIpHeader (setEthHeader (fun _ => 0) s mac) s (28 + dataLen) 1 dstIp x := by
  unfold icmpFrame setIcmp setIcmpFields
  simp (disch := omega) only [setField16_outside, copy_outside, store8_ne]

theorem icmpFrame_fields (s : Stack) (mac : Mac) (dstIp : UInt32) (type : UInt8) (id seq : UInt16)
    (mem : Bytes) (data : Nat) (dataLen : UInt16) :
    (icmpFrame s mac dstIp type id seq mem data dataLen).bytes 34 = type ∧
      field16 (icmpFrame s mac dstIp type id seq mem data dataLen).bytes 38 = htons id ∧
      field16 (icmpFrame s mac dstIp type id seq mem data dataLen).bytes 40 = htons seq ∧
      ∀ i, i < dataLen.toNat →
        (icmpFrame s mac dstIp type id seq mem data dataLen).bytes (42 + i) = mem (data + i) := by
  unfold icmpFrame setIcmp setIcmpFields
  refine ⟨?_, ?_, ?_, fun i hi => ?_⟩
  · simp (disch := omega) only [setField16_outside, copy_outside, store8_ne, store8_same]
  · apply field16_of_set
    intro i hi
    simp (disch := omega) only [setField16_outside, copy_outside]
    rfl
  · apply field16_of_set
    intro i hi
    simp (disch := omega) only [setField16_outside, copy_outside]
    rfl
  · dsimp only
    rw [setField16_outside _ _ (by omega), copy_inside _ _ _ (by omega) (by omega),
      Nat.add_sub_cancel_left]

/-- **An ICMP message of this stack**: an echo request for the own address is answered. -/
theorem processPacket_icmpFrame {dstIp : UInt32} {type : UInt8} {id seq : UInt16} {mem : Bytes}
    {data : Nat} {dataLen : UInt16}
    (h : Carries (icmpFrame s mac dstIp type id seq mem data dataLen) p length) :
    netstackProcessPacket t p length
      = if t.Hears mac ∧ (dstIp = t.netConfig.ipAddress ∨ dstIp = 0xFFFFFFFF) ∧ type = 8 then
          icmpSendEchoReply t s.netConfig.ipAddress id seq p 42 dataLen
        else (t, []) := by
  have hlen : 42 + dataLen.toNat ≤ length.toNat := h.length
  have hmax := length.toNat_lt
  have hle : ∀ {k}, k ≤ 42 → k ≤ (icmpFrame s mac dstIp type id seq mem data dataLen).length :=
    fun hk => le_trans hk (Nat.le_add_right _ _)
  obtain ⟨htype, hid, hseq, -⟩ := icmpFrame_fields s mac dstIp type id seq mem data dataLen
  rw [← h.bytes 34 (hle (by decide))] at htype
  rw [← h.read16 (hle (by decide))] at hid hseq
  have hpayload : 28 + dataLen - 20 = 8 + dataLen := by
    apply UInt16.toNat_inj.mp
    rw [UInt16.toNat_sub, UInt16.toNat_add, UInt16.toNat_add]
    show (2 ^ 16 - 20 + (28 + dataLen.toNat) % 2 ^ 16) % 2 ^ 16 = (8 + dataLen.toNat) % 2 ^ 16
    omega
  have h8 : ¬ 8 + dataLen < 8 := by
    rw [UInt16.lt_iff_toNat_lt, UInt16.toNat_add]
    show ¬ (8 + dataLen.toNat) % 2 ^ 16 < 8
    omega
  have hdata : 8 + dataLen - 8 = dataLen := by
    apply UInt16.toNat_inj.mp
    rw [UInt16.toNat_sub, UInt16.toNat_add]
    show (2 ^ 16 - 8 + (8 + dataLen.toNat) % 2 ^ 16) % 2 ^ 16 = dataLen.toNat
    omega
  rw [processPacket_ip (fun x hx => (h.bytes x (hle (by omega))).trans (icmpFrame_header hx)) (by omega),
    hpayload]
  unfold handleIcmpPacket
  rw [if_neg h8, htype, hid, hseq, hdata, ntohs_htons, ntohs_htons]
  by_cases htype8 : type = 8
  · rw [if_pos htype8]
    simp [htype8]
  · rw [if_neg htype8]
    simp [htype8]

/-- **A datagram**: this path of the stack drops it. -/
theorem processPacket_udp {dstIp : UInt32} {srcPort dstPort : UInt16} {data : Bytes} {len : UInt32}
    {withChecksum : Bool} {n : Nat} (hn : 34 ≤ n)
    (h : Carries ⟨udpBytes s mac dstIp srcPort dstPort data len withChecksum, n⟩ p length) :
    netstackProcessPacket t p length = (t, []) := by
  have hlen : n ≤ length.toNat := h.length
  have hbytes : ∀ x, x < 34 →
      p x = setIpHeader (setEthHeader (fun _ => 0) s mac) s (28 + len.toUInt16) 17 dstIp x := by
    intro x hx
    exact (h.bytes x (le_trans hx hn)).trans
      ((udpBytes_fields s mac dstIp srcPort dstPort data len withChecksum (Or.inl (by omega))).trans
        (udpBytes_before s mac dstIp srcPort dstPort data len false hx))
  rw [processPacket_ip hbytes (le_trans hn hlen), if_neg]
  rintro ⟨-, -, hproto⟩
  exact absurd hproto (by decide)

end process

/-! ## The segment -/

/-- The frame that is handed to the card. -/
def Output.frame : Output → Frame
  | .arp frame => frame
  | .echoReply reply => reply.frame

/-- The machines, and all the frames that were sent. -/
structure Segment (H : Type) where
  hosts : H → Stack
  wire : List Frame

section segment

variable {H : Type} [DecidableEq H]

/-- A machine goes on to another state and sends frames. -/
def Segment.sends (g : Segment H) (h : H) (s : Stack) (frames : List Frame) : Segment H :=
  ⟨Function.update g.hosts h s, g.wire ++ frames⟩

@[simp] theorem Segment.sends_hosts_self (g : Segment H) (h : H) (s : Stack) (frames : List Frame) :
    (g.sends h s frames).hosts h = s := Function.update_self _ _ _

theorem Segment.sends_hosts_ne (g : Segment H) {h k : H} (hk : k ≠ h) (s : Stack)
    (frames : List Frame) : (g.sends h s frames).hosts k = g.hosts k := Function.update_of_ne hk _ _

@[simp] theorem Segment.sends_wire (g : Segment H) (h : H) (s : Stack) (frames : List Frame) :
    (g.sends h s frames).wire = g.wire ++ frames := rfl

/-- What a machine does on its own, and what it does with a frame that was sent. -/
inductive Segment.Step : Segment H → Segment H → Prop
  | ping {g : Segment H} (h : H) (dstIp : UInt32) (id seq : UInt16) :
      Step g (g.sends h (icmpSendEchoRequest (g.hosts h) dstIp id seq).1
        (icmpSendEchoRequest (g.hosts h) dstIp id seq).2)
  | udp {g : Segment H} (h : H) (dstIp : UInt32) (srcPort dstPort : UInt16) (data : Bytes)
      (len : UInt32) (withChecksum : Bool) : 42 + len.toNat < 2 ^ 32 →
      Step g (g.sends h
        (netstackSendUdpLow true (g.hosts h) dstIp srcPort dstPort data len withChecksum).stack
        (netstackSendUdpLow true (g.hosts h) dstIp srcPort dstPort data len withChecksum).frames)
  | request {g : Segment H} (h : H) (targetIp : UInt32) :
      Step g (g.sends h (g.hosts h) [arpSendRequest (g.hosts h) targetIp])
  | receive {g : Segment H} (h : H) {f : Frame} {p : Bytes} {length : UInt16} :
      f ∈ g.wire → Carries f p length →
      Step g (g.sends h (netstackProcessPacket (g.hosts h) p length).1
        ((netstackProcessPacket (g.hosts h) p length).2.map Output.frame))

/-- `g'` is reached from `g`. -/
def Segment.Reaches (g g' : Segment H) : Prop := Relation.ReflTransGen Segment.Step g g'

/-- The hardware address is that of the next hop, or the packet goes to all. -/
def Routed (c : H → NetworkConfig) (s : Stack) (dstIp : UInt32) (mac : Mac) : Prop :=
  (dstIp = 0xFFFFFFFF ∧ mac = broadcastMac) ∨
    ∃ j, (c j).ipAddress = nextHop s dstIp ∧ (c j).macAddress = mac

/-- The frames of machines with the configurations `c`. -/
inductive Sent (c : H → NetworkConfig) : Frame → Prop
  | arp {s : Stack} {k : H} {mac targetMac : Mac} {op : UInt16} {targetIp : UInt32} :
      s.netConfig = c k → Sent c (arpFrame s mac op targetMac targetIp)
  | icmp {s : Stack} {k : H} {mac : Mac} {dstIp : UInt32} {type : UInt8} {id seq : UInt16}
      {mem : Bytes} {data : Nat} : s.netConfig = c k → Routed c s dstIp mac →
      Sent c (icmpFrame s mac dstIp type id seq mem data 4)
  | udp {s : Stack} {k : H} {mac : Mac} {dstIp : UInt32} {srcPort dstPort : UInt16} {data : Bytes}
      {len : UInt32} {withChecksum : Bool} : s.netConfig = c k → Routed c s dstIp mac →
      len.toNat ≤ 1472 →
      Sent c ⟨udpBytes s mac dstIp srcPort dstPort data len withChecksum, 42 + len.toNat⟩

/-- The entries of the caches are true, and so are the frames. -/
structure Segment.Honest (c : H → NetworkConfig) (g : Segment H) : Prop where
  config : ∀ k, (g.hosts k).netConfig = c k
  cache : ∀ k ip mac, some (ip, mac) ∈ (g.hosts k).slots →
    ∃ j, (c j).ipAddress = ip ∧ (c j).macAddress = mac
  wire : ∀ f ∈ g.wire, Sent c f

variable {c : H → NetworkConfig} {g g' : Segment H}

/-- What is sent keeps the invariant when the state of the sender and the frames do. -/
theorem Segment.Honest.sends (hg : g.Honest c) {h : H} {s : Stack} {frames : List Frame}
    (hconfig : s.netConfig = c h)
    (hcache : ∀ ip mac, some (ip, mac) ∈ s.slots →
      ∃ j, (c j).ipAddress = ip ∧ (c j).macAddress = mac)
    (hframes : ∀ f ∈ frames, Sent c f) : (g.sends h s frames).Honest c where
  config k := by
    by_cases hk : k = h
    · rw [hk, sends_hosts_self]
      exact hconfig
    · rw [sends_hosts_ne g hk]
      exact hg.config k
  cache k ip mac hmem := by
    by_cases hk : k = h
    · rw [hk, sends_hosts_self] at hmem
      exact hcache ip mac hmem
    · rw [sends_hosts_ne g hk] at hmem
      exact hg.cache k ip mac hmem
  wire f hf := (List.mem_append.mp hf).elim (hg.wire f) (hframes f)

theorem mem_of_find {t : Slots UInt32 Mac} {ip : UInt32} {mac : Mac} (h : t.find ip = some mac) :
    some (ip, mac) ∈ t := by
  unfold Slots.find at h
  rw [Option.bind_eq_some_iff] at h
  obtain ⟨e, he, hmac⟩ := h
  obtain ⟨v, rfl⟩ := Slots.eq_some_of_hasKey (List.find?_some he)
  cases hmac
  exact List.mem_of_find?_eq_some he

omit [DecidableEq H] in
theorem Segment.Honest.lookup (hg : g.Honest c) {k : H} {ip : UInt32} {mac : Mac}
    (h : arpLookup (g.hosts k) ip = some mac) :
    ∃ j, (c j).ipAddress = ip ∧ (c j).macAddress = mac := by
  rw [arpLookup_eq] at h
  exact hg.cache k ip mac (mem_of_find h)

omit [DecidableEq H] in
/-- A packet is sent to a machine that its address belongs to. -/
theorem Segment.Honest.routed (hg : g.Honest c) {k : H} {dstIp : UInt32} {mac : Mac}
    (h : dstMac (g.hosts k) dstIp = some mac) : Routed c (g.hosts k) dstIp mac := by
  unfold dstMac at h
  split at h
  next hb =>
    cases h
    exact Or.inl ⟨hb, rfl⟩
  next => exact Or.inr (hg.lookup h)

/-- An address that is added to a cache. -/
theorem mem_slots_arpAddEntry {s : Stack} {ip ip' : UInt32} {mac mac' : Mac}
    (h : some (ip', mac') ∈ (arpAddEntry s ip mac).slots) :
    some (ip', mac') ∈ s.slots ∨ (ip' = ip ∧ mac' = mac) := by
  rw [slots_arpAddEntry, Slots.put] at h
  rcases List.mem_or_eq_of_mem_set h with hmem | heq
  · exact Or.inl hmem
  · cases heq
    exact Or.inr ⟨rfl, rfl⟩

theorem Segment.Honest.ping (hg : g.Honest c) (h : H) (dstIp : UInt32) (id seq : UInt16) :
    (g.sends h (icmpSendEchoRequest (g.hosts h) dstIp id seq).1
      (icmpSendEchoRequest (g.hosts h) dstIp id seq).2).Honest c := by
  unfold icmpSendEchoRequest
  cases hmac : dstMac (g.hosts h) dstIp with
  | none =>
      refine hg.sends (hg.config h) (hg.cache h) fun f hf => ?_
      rw [List.mem_singleton.mp hf]
      exact .arp (hg.config h)
  | some mac =>
      refine hg.sends (hg.config h) (hg.cache h) fun f hf => ?_
      rw [List.mem_singleton.mp hf]
      exact .icmp (hg.config h) (hg.routed hmac)

theorem Segment.Honest.udp (hg : g.Honest c) (h : H) (dstIp : UInt32) (srcPort dstPort : UInt16)
    (data : Bytes) {len : UInt32} (withChecksum : Bool) (hlen : 42 + len.toNat < 2 ^ 32) :
    (g.sends h (netstackSendUdpLow true (g.hosts h) dstIp srcPort dstPort data len withChecksum).stack
      (netstackSendUdpLow true (g.hosts h) dstIp srcPort dstPort data len withChecksum).frames).Honest
      c := by
  have htotal : (42 + len).toNat = 42 + len.toNat := by
    rw [UInt32.toNat_add]
    exact Nat.mod_eq_of_lt hlen
  unfold netstackSendUdpLow
  split
  next => exact hg.sends (hg.config h) (hg.cache h) fun f hf => absurd hf List.not_mem_nil
  next hfits =>
    cases hmac : dstMac (g.hosts h) dstIp with
    | none =>
        refine hg.sends (hg.config h) (hg.cache h) fun f hf => ?_
        rw [List.mem_singleton.mp hf]
        exact .arp (hg.config h)
    | some mac =>
        refine hg.sends (hg.config h) (hg.cache h) fun f hf => ?_
        rw [List.mem_singleton.mp hf, htotal]
        refine .udp (hg.config h) (hg.routed hmac) ?_
        rw [gt_iff_lt, UInt32.lt_iff_toNat_lt, htotal] at hfits
        have h1514 : ¬ 1514 < 42 + len.toNat := hfits
        omega

/-- **A machine that receives** a frame of the segment keeps the invariant. -/
theorem Segment.Honest.receive (hg : g.Honest c) (h : H) {f : Frame} {p : Bytes} {length : UInt16}
    (hf : f ∈ g.wire) (hp : Carries f p length) :
    (g.sends h (netstackProcessPacket (g.hosts h) p length).1
      ((netstackProcessPacket (g.hosts h) p length).2.map Output.frame)).Honest c := by
  have hnothing : (g.sends h (g.hosts h) []).Honest c :=
    hg.sends (hg.config h) (hg.cache h) fun f hf => absurd hf List.not_mem_nil
  cases hg.wire f hf with
  | arp hs =>
      rw [processPacket_arpFrame hp]
      split
      · refine hg.sends (hg.config h) (fun ip mac hmem => ?_) fun f hf => ?_
        · rcases mem_slots_arpAddEntry hmem with hold | ⟨rfl, rfl⟩
          · exact hg.cache h ip mac hold
          · exact ⟨_, by rw [hs], by rw [hs]⟩
        · dsimp only at hf
          split at hf
          · rw [List.map_singleton, List.mem_singleton] at hf
            rw [hf]
            exact .arp (hg.config h)
          · exact absurd hf List.not_mem_nil
      · exact hnothing
  | icmp hs _ =>
      rw [processPacket_icmpFrame hp]
      split
      · unfold icmpSendEchoReply
        cases hmac : dstMac (g.hosts h) _ with
        | none =>
            refine hg.sends (hg.config h) (hg.cache h) fun f hf => ?_
            rw [List.map_singleton, List.mem_singleton] at hf
            rw [hf]
            exact .arp (hg.config h)
        | some mac =>
            refine hg.sends (hg.config h) (hg.cache h) fun f hf => ?_
            rw [List.map_singleton, List.mem_singleton] at hf
            rw [hf]
            exact .icmp (hg.config h) (hg.routed hmac)
      · exact hnothing
  | udp hs _ _ =>
      rw [processPacket_udp (by omega) hp]
      exact hnothing

/-- **Every step keeps the invariant.** -/
theorem Segment.Honest.step (hg : g.Honest c) (hs : Segment.Step g g') : g'.Honest c := by
  cases hs with
  | ping h dstIp id seq => exact hg.ping h dstIp id seq
  | udp h dstIp srcPort dstPort data len withChecksum hlen =>
      exact hg.udp h dstIp srcPort dstPort data withChecksum hlen
  | request h targetIp =>
      refine hg.sends (hg.config h) (hg.cache h) fun f hf => ?_
      rw [List.mem_singleton.mp hf]
      exact .arp (hg.config h)
  | receive h hf hp => exact hg.receive h hf hp

theorem Segment.Honest.reaches (hg : g.Honest c) (hr : g.Reaches g') : g'.Honest c := by
  induction hr with
  | refl => exact hg
  | tail _ hs ih => exact ih.step hs

omit [DecidableEq H] in
/-- The start: no frame was sent, and the caches are empty, as `netstack_init` leaves them. -/
theorem Segment.honest_start (hwire : g.wire = []) (hcache : ∀ k, ∀ e ∈ (g.hosts k).slots, e = none) :
    g.Honest fun k => (g.hosts k).netConfig where
  config _ := rfl
  cache k ip mac hmem := absurd (hcache k _ hmem) (Option.some_ne_none _)
  wire f hf := by
    rw [hwire] at hf
    exact absurd hf List.not_mem_nil

/-! ## What the machines believe -/

end segment

theorem arpLookup_arpAddEntry (s : Stack) (ip : UInt32) (mac : Mac) :
    arpLookup (arpAddEntry s ip mac) ip = some mac := by
  rw [arpLookup_eq, slots_arpAddEntry]
  exact Slots.find_put_same (slots_ne_nil s) ip mac

/-- A machine `10.0.0.x/24` after `netstack_init` and `netstack_set_config`. -/
def machine (x : UInt8) : Stack :=
  { netstackInit stackQemu none with
    netConfig := ⟨0x0A000000 + x.toUInt32, 0xFFFFFF00, 0x0A0000FE, 0, #v[0x52, 0x54, 0, 0, 0, x]⟩ }

theorem slots_machine (x : UInt8) : ∀ e ∈ (machine x).slots, e = none := by
  rw [slots_congr (show (machine x).arpCache = (netstackInit stackQemu none).arpCache from rfl)]
  exact slots_netstackInit stackQemu none

/-- `10.0.0.1` and `10.0.0.2`. -/
def twoMachines : Segment Bool := ⟨fun h => machine (if h then 1 else 2), []⟩

theorem slots_twoMachines (h : Bool) : ∀ e ∈ (twoMachines.hosts h).slots, e = none := slots_machine _

/-- A frame without anything behind it. -/
theorem Carries.self {f : Frame} (h : f.length < 2 ^ 16) : Carries f f.bytes (UInt16.ofNat f.length) :=
  ⟨(UInt16.toNat_ofNat_of_lt' h).ge, fun _ _ => rfl⟩

end MicroKernel.Net
