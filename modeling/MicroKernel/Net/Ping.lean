import MicroKernel.Net.Segment

set_option autoImplicit false

/-! # The second echo request is answered

`icmp_send_echo_request` and `icmp_send_echo_reply` give up when the hardware address of the other machine
is not in the cache: they ask for it, and the packet is lost. Two machines of one subnet that exchange a
request know each other afterwards, whatever was in their caches before (`exchange`, `meet`), so
the next request comes back as a reply with its identifier, its sequence number and its data.
-/

namespace MicroKernel.Net

open MicroKernel.Lib Bytes

section ping

variable {H : Type} [DecidableEq H]

/-! ## Deliveries -/

/-- A machine receives one of the frames that were sent. -/
inductive Segment.Delivery : Segment H → Segment H → Prop
  | intro {g : Segment H} (h : H) {f : Frame} {p : Bytes} {length : UInt16} :
      f ∈ g.wire → Carries f p length →
      Delivery g (g.sends h (netstackProcessPacket (g.hosts h) p length).1
        ((netstackProcessPacket (g.hosts h) p length).2.map Output.frame))

/-- Deliveries one after the other. -/
def Segment.Deliveries (g g' : Segment H) : Prop := Relation.ReflTransGen Segment.Delivery g g'

/-- `icmp_send_echo_request` on machine `a`. -/
def Segment.ping (g : Segment H) (a : H) (dstIp : UInt32) (id seq : UInt16) : Segment H :=
  g.sends a (icmpSendEchoRequest (g.hosts a) dstIp id seq).1
    (icmpSendEchoRequest (g.hosts a) dstIp id seq).2

/-- Machine `a` can send to machine `b` directly, whose address nobody else has. -/
structure Neighbours (c : H → NetworkConfig) (a b : H) : Prop where
  ne : a ≠ b
  link : (c b).ipAddress &&& (c a).netmask = (c a).ipAddress &&& (c a).netmask
  host : (c b).ipAddress ≠ 0xFFFFFFFF
  unique : ∀ j, (c j).ipAddress = (c b).ipAddress → (c j).macAddress = (c b).macAddress

/-- Machine `a` has the hardware address of machine `b` in its cache. -/
def Segment.Knows (g : Segment H) (c : H → NetworkConfig) (a b : H) : Prop :=
  arpLookup (g.hosts a) (c b).ipAddress = some (c b).macAddress

variable {c : H → NetworkConfig} {g g' : Segment H} {a b : H}

theorem Segment.Delivery.step (h : Segment.Delivery g g') : Segment.Step g g' := by
  cases h with
  | intro h hf hc => exact .receive h hf hc

theorem Segment.Deliveries.honest (h : g.Deliveries g') (hg : g.Honest c) : g'.Honest c := by
  induction h with
  | refl => exact hg
  | tail _ hd ih => exact ih.step hd.step

/-- A frame is delivered as it is. -/
theorem Segment.delivery_of_eq (h : H) {f : Frame} (hf : f ∈ g.wire) (hlen : f.length < 2 ^ 16)
    {s : Stack} {outputs : List Output}
    (heq : netstackProcessPacket (g.hosts h) f.bytes (UInt16.ofNat f.length) = (s, outputs)) :
    Segment.Delivery g (g.sends h s (outputs.map Output.frame)) := by
  have hd := Segment.Delivery.intro h hf (Carries.self hlen)
  rwa [heq] at hd

/-! ## The address of a neighbour -/

omit [DecidableEq H] in
theorem Neighbours.nextHop (h : Neighbours c a b) {s : Stack} (hs : s.netConfig = c a) :
    nextHop s (c b).ipAddress = (c b).ipAddress := by
  rw [Net.nextHop, hs, if_pos (Or.inl h.link)]

omit [DecidableEq H] in
theorem Neighbours.dstMac (h : Neighbours c a b) {s : Stack} (hs : s.netConfig = c a) :
    dstMac s (c b).ipAddress = arpLookup s (c b).ipAddress := by
  rw [Net.dstMac, if_neg h.host, h.nextHop hs]

omit [DecidableEq H] in
theorem Neighbours.knows (h : Neighbours c a b) (hg : g.Honest c) {mac : Mac}
    (hl : arpLookup (g.hosts a) (c b).ipAddress = some mac) : g.Knows c a b := by
  obtain ⟨j, hip, hmac⟩ := hg.lookup hl
  rw [Segment.Knows, hl, ← hmac, h.unique j hip]

/-- What a machine sends to a neighbour that it knows. -/
theorem Segment.ping_known (hab : Neighbours c a b) (hg : g.Honest c) (hk : g.Knows c a b)
    (id seq : UInt16) :
    g.ping a (c b).ipAddress id seq
      = g.sends a { g.hosts a with ipIdentification := (g.hosts a).ipIdentification + 1 }
          [icmpFrame (g.hosts a) (c b).macAddress (c b).ipAddress 8 id seq pingData 0 4] := by
  have hmac : Net.dstMac (g.hosts a) (c b).ipAddress = some (c b).macAddress :=
    (hab.dstMac (hg.config a)).trans hk
  unfold ping icmpSendEchoRequest
  rw [hmac]
  rfl

/-- And to one that it does not know. -/
theorem Segment.ping_unknown (hab : Neighbours c a b) (hg : g.Honest c)
    (hk : arpLookup (g.hosts a) (c b).ipAddress = none) (id seq : UInt16) :
    g.ping a (c b).ipAddress id seq
      = g.sends a (g.hosts a) [arpSendRequest (g.hosts a) (c b).ipAddress] := by
  have hmac : Net.dstMac (g.hosts a) (c b).ipAddress = none := (hab.dstMac (hg.config a)).trans hk
  unfold ping icmpSendEchoRequest
  rw [hmac]
  dsimp only
  rw [hab.nextHop (hg.config a)]

omit [DecidableEq H] in
/-- The answer to a neighbour that is known. -/
theorem Neighbours.reply_known (h : Neighbours c a b) {s : Stack} (hs : s.netConfig = c a)
    (hl : arpLookup s (c b).ipAddress = some (c b).macAddress) (id seq : UInt16) (mem : Bytes)
    (data : Nat) (dataLen : UInt16) :
    icmpSendEchoReply s (c b).ipAddress id seq mem data dataLen
      = ({ s with ipIdentification := s.ipIdentification + 1 },
          [.echoReply ⟨icmpFrame s (c b).macAddress (c b).ipAddress 0 id seq mem data dataLen, data,
            dataLen.toNat⟩]) := by
  unfold icmpSendEchoReply
  rw [(h.dstMac hs).trans hl]
  rfl

omit [DecidableEq H] in
/-- And to one that is not. -/
theorem Neighbours.reply_unknown (h : Neighbours c a b) {s : Stack} (hs : s.netConfig = c a)
    (hl : arpLookup s (c b).ipAddress = none) (id seq : UInt16) (mem : Bytes) (data : Nat)
    (dataLen : UInt16) :
    icmpSendEchoReply s (c b).ipAddress id seq mem data dataLen
      = (s, [.arp (arpSendRequest s (c b).ipAddress)]) := by
  unfold icmpSendEchoReply
  rw [(h.dstMac hs).trans hl]
  dsimp only
  rw [h.nextHop hs]

/-! ## Getting to know each other -/

/-- **An ARP exchange**: after the question and the answer both machines know each other. -/
theorem exchange (hne : a ≠ b) (hg : g.Honest c) {s : Stack} (hs : s.netConfig = c a)
    (hask : arpSendRequest s (c b).ipAddress ∈ g.wire) :
    ∃ g', g.Deliveries g' ∧ g'.Knows c a b ∧ g'.Knows c b a := by
  -- `b` adds the sender and answers
  have hb : netstackProcessPacket (g.hosts b) (arpSendRequest s (c b).ipAddress).bytes 42
      = (arpAddEntry (g.hosts b) (c a).ipAddress (c a).macAddress,
          [.arp (arpSendReply (g.hosts b) (c a).ipAddress (c a).macAddress)]) := by
    have hcarry : Carries (arpSendRequest s (c b).ipAddress)
        (arpSendRequest s (c b).ipAddress).bytes 42 :=
      .self (show 42 < 2 ^ 16 by decide)
    rw [processPacket_arpFrame hcarry, if_pos (Stack.hears_broadcast _), hs, hg.config b,
      if_pos ⟨rfl, rfl⟩]
  have h1 := Segment.delivery_of_eq b hask (show 42 < 2 ^ 16 by decide) hb
  -- `a` adds the one who answers
  have ha : netstackProcessPacket (g.hosts a)
      (arpSendReply (g.hosts b) (c a).ipAddress (c a).macAddress).bytes 42
      = (arpAddEntry (g.hosts a) (c b).ipAddress (c b).macAddress, []) := by
    have hcarry : Carries (arpSendReply (g.hosts b) (c a).ipAddress (c a).macAddress)
        (arpSendReply (g.hosts b) (c a).ipAddress (c a).macAddress).bytes 42 :=
      .self (show 42 < 2 ^ 16 by decide)
    have hhears : (g.hosts a).Hears (c a).macAddress := by
      rw [← hg.config a]
      exact Stack.hears_own _
    rw [processPacket_arpFrame hcarry, if_pos hhears, hg.config b,
      if_neg (fun hop => absurd hop.1 (by decide))]
  have ha' : netstackProcessPacket ((g.sends b (arpAddEntry (g.hosts b) (c a).ipAddress (c a).macAddress)
      [arpSendReply (g.hosts b) (c a).ipAddress (c a).macAddress]).hosts a)
      (arpSendReply (g.hosts b) (c a).ipAddress (c a).macAddress).bytes 42
      = (arpAddEntry (g.hosts a) (c b).ipAddress (c b).macAddress, []) := by
    rw [Segment.sends_hosts_ne g hne]
    exact ha
  have h2 := Segment.delivery_of_eq a (List.mem_append_right g.wire (List.mem_singleton.mpr rfl))
    (show 42 < 2 ^ 16 by decide) ha'
  refine ⟨_, (Relation.ReflTransGen.single h1).tail h2, ?_, ?_⟩
  · rw [Segment.Knows, Segment.sends_hosts_self]
    exact arpLookup_arpAddEntry _ _ _
  · rw [Segment.Knows, Segment.sends_hosts_ne _ hne.symm]
    refine Eq.trans ?_ (arpLookup_arpAddEntry (g.hosts b) (c a).ipAddress (c a).macAddress)
    rw [Segment.sends_hosts_self]

/-- An echo request that arrives at the machine it is for. -/
theorem processPacket_request {t s : Stack} {data : Bytes} {id seq : UInt16} {dstIp : UInt32} {mac : Mac}
    (hmac : t.netConfig.macAddress = mac) (hip : t.netConfig.ipAddress = dstIp) :
    netstackProcessPacket t (icmpFrame s mac dstIp 8 id seq data 0 4).bytes 46
      = icmpSendEchoReply t s.netConfig.ipAddress id seq (icmpFrame s mac dstIp 8 id seq data 0 4).bytes
          42 4 := by
  have hcarry : Carries (icmpFrame s mac dstIp 8 id seq data 0 4)
      (icmpFrame s mac dstIp 8 id seq data 0 4).bytes 46 := .self (show 46 < 2 ^ 16 by decide)
  have hhears : t.Hears mac := by
    rw [← hmac]
    exact Stack.hears_own _
  rw [processPacket_icmpFrame hcarry, if_pos ⟨hhears, Or.inl hip.symm, rfl⟩]

/-- After the first request both machines know each other. -/
theorem meet (hab : Neighbours c a b) (hba : Neighbours c b a) (hg : g.Honest c) (id seq : UInt16) :
    ∃ g', (g.ping a (c b).ipAddress id seq).Deliveries g' ∧ g'.Knows c a b ∧ g'.Knows c b a := by
  have hping : (g.ping a (c b).ipAddress id seq).Honest c := hg.ping a _ id seq
  cases hl : arpLookup (g.hosts a) (c b).ipAddress with
  | none =>
      rw [Segment.ping_unknown hab hg hl] at hping ⊢
      exact exchange hab.ne hping (hg.config a) (List.mem_append_right _ (List.mem_singleton.mpr rfl))
  | some mac =>
      have hknows := hab.knows hg hl
      rw [Segment.ping_known hab hg hknows] at hping ⊢
      have hb : (g.sends a { g.hosts a with ipIdentification := (g.hosts a).ipIdentification + 1 }
          [icmpFrame (g.hosts a) (c b).macAddress (c b).ipAddress 8 id seq pingData 0 4]).hosts b
          = g.hosts b := Segment.sends_hosts_ne g hab.ne.symm _ _
      cases hl' : arpLookup (g.hosts b) (c a).ipAddress with
      | some mac' =>
          refine ⟨_, .refl, ?_, ?_⟩
          · rw [Segment.Knows, Segment.sends_hosts_self]
            exact hknows
          · rw [Segment.Knows, hb]
            exact hba.knows hg hl'
      | none =>
          -- the other machine has to ask before it can answer
          have hreceive : netstackProcessPacket (g.hosts b)
              (icmpFrame (g.hosts a) (c b).macAddress (c b).ipAddress 8 id seq pingData 0 4).bytes 46
              = (g.hosts b, [.arp (arpSendRequest (g.hosts b) (c a).ipAddress)]) := by
            rw [processPacket_request (congrArg NetworkConfig.macAddress (hg.config b))
              (congrArg NetworkConfig.ipAddress (hg.config b)), hg.config a]
            exact hba.reply_unknown (hg.config b) hl' id seq _ _ _
          rw [← hb] at hreceive
          have h1 := Segment.delivery_of_eq b (List.mem_append_right g.wire (List.mem_singleton.mpr rfl))
            (show 46 < 2 ^ 16 by decide) hreceive
          obtain ⟨g', hgo, hk, hk'⟩ := exchange hab.ne.symm (hping.step h1.step) (hping.config b)
            (List.mem_append_right _ (List.mem_singleton.mpr rfl))
          exact ⟨g', .head h1 hgo, hk', hk⟩

/-! ## The reply -/

/-- The frame is the reply of machine `b` to a request of machine `a`. -/
structure IsEchoReply (c : H → NetworkConfig) (a b : H) (id seq : UInt16) (r : Frame) : Prop where
  length : r.length = 46
  receiver : macAt r.bytes 0 = (c a).macAddress
  ethertype : ntohs (field16 r.bytes 12) = 0x0800
  protocol : r.bytes 23 = 1
  src : ntohl (field32 r.bytes 26) = (c b).ipAddress
  dst : ntohl (field32 r.bytes 30) = (c a).ipAddress
  type : r.bytes 34 = 0
  id : ntohs (field16 r.bytes 38) = id
  seq : ntohs (field16 r.bytes 40) = seq
  data : ∀ i, i < 4 → r.bytes (42 + i) = pingData i

omit [DecidableEq H] in
theorem isEchoReply_icmpFrame {s t : Stack} (hs : s.netConfig = c b) (mac : Mac) (ip : UInt32)
    (id seq : UInt16) :
    IsEchoReply c a b id seq (icmpFrame s (c a).macAddress (c a).ipAddress 0 id seq
      (icmpFrame t mac ip 8 id seq pingData 0 4).bytes 42 4) := by
  have hheader : ∀ x, x < 34 → (icmpFrame s (c a).macAddress (c a).ipAddress 0 id seq
      (icmpFrame t mac ip 8 id seq pingData 0 4).bytes 42 4).bytes x = setIpHeader
        (setEthHeader (fun _ => 0) s (c a).macAddress) s (28 + 4) 1 (c a).ipAddress x :=
    fun x hx => icmpFrame_header hx
  obtain ⟨hto, -, htype, -, -, hproto, hsip, hdip⟩ := ipHeader_fields s _ _ _ _ hheader
  obtain ⟨hicmp, hid, hseq, hdata⟩ := icmpFrame_fields s (c a).macAddress (c a).ipAddress 0 id seq
    (icmpFrame t mac ip 8 id seq pingData 0 4).bytes 42 4
  obtain ⟨-, -, -, hdata'⟩ := icmpFrame_fields t mac ip 8 id seq pingData 0 4
  rw [hs] at hsip
  exact {
    length := rfl
    receiver := hto
    ethertype := by rw [htype, ntohs_htons]
    protocol := hproto
    src := by rw [hsip, ntohl_htonl]
    dst := by rw [hdip, ntohl_htonl]
    type := hicmp
    id := by rw [hid, ntohs_htons]
    seq := by rw [hseq, ntohs_htons]
    data := fun i hi => by rw [hdata i hi, hdata' i hi, Nat.zero_add] }

/-- Between machines that know each other a request comes back. -/
theorem request_answered (hab : Neighbours c a b) (hba : Neighbours c b a) (hg : g.Honest c)
    (hk : g.Knows c a b) (hk' : g.Knows c b a) (id seq : UInt16) :
    ∃ g' request reply, (g.ping a (c b).ipAddress id seq).Deliveries g' ∧
      g'.wire = g.wire ++ [request, reply] ∧ IsEchoReply c a b id seq reply := by
  obtain ⟨request, hrequest⟩ : ∃ f, f = icmpFrame (g.hosts a) (c b).macAddress (c b).ipAddress 8 id seq
    pingData 0 4 := ⟨_, rfl⟩
  have hping := Segment.ping_known hab hg hk id seq
  rw [← hrequest] at hping
  have hb : (g.ping a (c b).ipAddress id seq).hosts b = g.hosts b :=
    Segment.sends_hosts_ne g hab.ne.symm _ _
  have hlen : request.length = 46 := congrArg Frame.length hrequest
  have hreceive : netstackProcessPacket ((g.ping a (c b).ipAddress id seq).hosts b) request.bytes
      (UInt16.ofNat request.length)
      = ({ g.hosts b with ipIdentification := (g.hosts b).ipIdentification + 1 },
          [.echoReply ⟨icmpFrame (g.hosts b) (c a).macAddress (c a).ipAddress 0 id seq request.bytes 42 4,
            42, (4 : UInt16).toNat⟩]) := by
    have hanswer : netstackProcessPacket (g.hosts b) request.bytes 46
        = icmpSendEchoReply (g.hosts b) (g.hosts a).netConfig.ipAddress id seq request.bytes 42 4 := by
      rw [hrequest]
      exact processPacket_request (congrArg NetworkConfig.macAddress (hg.config b))
        (congrArg NetworkConfig.ipAddress (hg.config b))
    rw [hb, hlen]
    rw [hg.config a] at hanswer
    exact hanswer.trans (hba.reply_known (hg.config b) hk' id seq _ _ _)
  have hmem : request ∈ (g.ping a (c b).ipAddress id seq).wire := by
    rw [hping]
    exact List.mem_append_right _ (List.mem_singleton.mpr rfl)
  have hd := Segment.delivery_of_eq b hmem (by rw [hlen]; decide) hreceive
  refine ⟨_, request, icmpFrame (g.hosts b) (c a).macAddress (c a).ipAddress 0 id seq request.bytes 42 4,
    .single hd, ?_, ?_⟩
  · rw [Segment.sends_wire, hping, Segment.sends_wire, List.append_assoc]
    rfl
  · rw [hrequest]
    exact isEchoReply_icmpFrame (hg.config b) _ _ id seq

/-- **The second echo request is answered.** In every state that machines with empty caches can get into:
when one of two neighbours sends an echo request to the other, and what is then sent is delivered, the
next request is sent and comes back as a reply with its identifier, its sequence number and its data. -/
theorem second_request_answered {g₀ : Segment H} (hwire : g₀.wire = [])
    (hcache : ∀ k, ∀ e ∈ (g₀.hosts k).slots, e = none) (hr : g₀.Reaches g)
    (hab : Neighbours (fun k => (g₀.hosts k).netConfig) a b)
    (hba : Neighbours (fun k => (g₀.hosts k).netConfig) b a) (id seq id' seq' : UInt16) :
    ∃ g₁ g₂ request reply,
      (g.ping a (g₀.hosts b).netConfig.ipAddress id seq).Deliveries g₁ ∧
      (g₁.ping a (g₀.hosts b).netConfig.ipAddress id' seq').Deliveries g₂ ∧
      g₂.wire = g₁.wire ++ [request, reply] ∧
      IsEchoReply (fun k => (g₀.hosts k).netConfig) a b id' seq' reply := by
  have hg := (Segment.honest_start hwire hcache).reaches hr
  obtain ⟨g₁, hgo, hk, hk'⟩ := meet hab hba hg id seq
  obtain ⟨g₂, request, reply, hgo', hwire', hreply⟩ := request_answered hab hba
    (hgo.honest (hg.ping a _ id seq)) hk hk' id' seq'
  exact ⟨g₁, g₂, request, reply, hgo, hgo', hwire', hreply⟩

end ping

/-- `10.0.0.1` and `10.0.0.2` are neighbours. -/
theorem neighbours_twoMachines (a b : Bool) (h : a ≠ b) :
    Neighbours (fun k => (twoMachines.hosts k).netConfig) a b := by
  cases a with
  | true =>
      cases b with
      | true => exact absurd rfl h
      | false => exact ⟨h, by decide, by decide, by decide⟩
  | false =>
      cases b with
      | true => exact ⟨h, by decide, by decide, by decide⟩
      | false => exact absurd rfl h

theorem second_request_answered_two : ∃ g₁ g₂ request reply,
    (twoMachines.ping true 0x0A000002 1 1).Deliveries g₁ ∧
    (g₁.ping true 0x0A000002 1 2).Deliveries g₂ ∧ g₂.wire = g₁.wire ++ [request, reply] ∧
    IsEchoReply (fun k => (twoMachines.hosts k).netConfig) true false 1 2 reply :=
  second_request_answered rfl slots_twoMachines .refl (neighbours_twoMachines true false (by decide))
    (neighbours_twoMachines false true (by decide)) 1 1 1 2

end MicroKernel.Net
