import MicroKernel.Net.UdpRoundTrip

set_option autoImplicit false

/-! # The DHCP client (`drivers/net/netstack.c`)

`netstack_get_ip_address` and the exchange behind it: `dhcp_discover_request` sends a DISCOVER,
takes the first datagram on its port for the OFFER, sends a REQUEST for the address in it and
takes the next datagram for the ACK. Both are read into local buffers, which hold zeros before.

What the client sends and what it accepts is collected in order (`Event`), so that the order of
the exchange can be read off a run. Whatever the card delivers, a run ends without a change of the
configuration, or with a lease that was negotiated (`netstackGetIpAddress_safe`).
-/

namespace MicroKernel.Net

open MicroKernel.Lib Bytes

/-! ## Messages -/

/-- Where `options` starts in the 548 bytes of `struct dhcp_packet`. -/
def dhcpOptions : Nat := 236

/-- `DHCP_MAGIC_COOKIE`. -/
def dhcpMagicCookie : UInt32 := 0x63825363

/-- `dhcp_opt_put_u8`. -/
def dhcpOptPutU8 (p : Bytes) (opt : Nat) (code v : UInt8) : Bytes × Nat :=
  (store8 (store8 (store8 p opt code) (opt + 1) 1) (opt + 2) v, opt + 3)

/-- `dhcp_opt_put_u32`. -/
def dhcpOptPutU32 (p : Bytes) (opt : Nat) (code : UInt8) (v : UInt32) : Bytes × Nat :=
  (setField32 (store8 (store8 p opt code) (opt + 1) 4) (opt + 2) (htonl v), opt + 6)

/-- `dhcp_opt_put_list`. -/
def dhcpOptPutList (p : Bytes) (opt : Nat) (code : UInt8) (lst : List UInt8) : Bytes × Nat :=
  (copy (store8 (store8 p opt code) (opt + 1) (UInt8.ofNat lst.length)) (opt + 2)
      (fun i => lst.getD i 0) 0 lst.length,
    opt + 2 + lst.length)

/-- The fields that both messages of the client have, and the magic cookie. -/
def dhcpMessage (s : Stack) (xid : UInt32) : Bytes :=
  let p : Bytes := fun _ => 0
  let p := store8 p 0 1
  let p := store8 p 1 1
  let p := store8 p 2 6
  let p := setField32 p 4 xid
  let p := setField16 p 10 (htons 0x8000)
  let p := setMac p 28 s.netConfig.macAddress
  setField32 p dhcpOptions (htonl dhcpMagicCookie)

/-- The DISCOVER. -/
def dhcpDiscover (s : Stack) (xid : UInt32) : Bytes :=
  let p := dhcpMessage s xid
  let (p, opt) := dhcpOptPutU8 p (dhcpOptions + 4) 53 1
  let (p, opt) := dhcpOptPutList p opt 55 [1, 3, 6, 51, 54]
  store8 p opt 255

/-- The REQUEST for the address `yi` from the server `sid`, both as they were received. -/
def dhcpRequest (s : Stack) (xid yi sid : UInt32) : Bytes :=
  let p := dhcpMessage s xid
  let (p, opt) := dhcpOptPutU8 p (dhcpOptions + 4) 53 3
  let (p, opt) := dhcpOptPutU32 p opt 50 (ntohl yi)
  let (p, opt) := dhcpOptPutU32 p opt 54 (ntohl sid)
  store8 p opt 255

/-- What `dhcp_parse_opts` fills in; the addresses are as they were received. -/
structure DhcpOptions where
  serverId : UInt32
  subnet : UInt32
  router : UInt32
  dns : UInt32
  msgType : UInt8

/-- The `switch` of `dhcp_parse_opts`, on an option whose `len` bytes are at `a`. -/
def dhcpOption (p : Bytes) (a : Nat) (code len : UInt8) (o : DhcpOptions) : DhcpOptions :=
  if code = 53 then if len ≥ 1 then { o with msgType := p a } else o
  else if code = 54 then if len = 4 then { o with serverId := field32 p a } else o
  else if code = 1 then if len = 4 then { o with subnet := field32 p a } else o
  else if code = 3 then if len ≥ 4 then { o with router := field32 p a } else o
  else if code = 6 then if len ≥ 4 then { o with dns := field32 p a } else o
  else o

/-- The loop of `dhcp_parse_opts` at byte `i` of the options. A round takes a byte at least, so
there are no more rounds than bytes. -/
def dhcpParseLoop (p : Bytes) : Nat → Nat → DhcpOptions → DhcpOptions
  | 0, _, o => o
  | n + 1, i, o =>
      if 312 ≤ i then o
      else
        let code := p (dhcpOptions + i)
        if code = 255 then o
        else if code = 0 then dhcpParseLoop p n (i + 1) o
        else if 312 ≤ i + 1 then o
        else
          let len := p (dhcpOptions + i + 1)
          if 312 < i + 2 + len.toNat then o
          else
            dhcpParseLoop p n (i + 2 + len.toNat) (dhcpOption p (dhcpOptions + i + 2) code len o)

/-- `dhcp_parse_opts`, with nothing filled in before. -/
def dhcpParseOpts (p : Bytes) : Option DhcpOptions :=
  if ntohl (field32 p dhcpOptions) ≠ dhcpMagicCookie then none
  else some (dhcpParseLoop p 308 4 ⟨0, 0, 0, 0, 0⟩)

/-! ## The exchange -/

/-- What the client sends, and what it accepts. -/
inductive Event where
  | sent (frame : Frame)
  | received (datagram : Received)

/-- The state of the client: the stack, the seed of `rng32`, the number of the next poll of the
card, and what has happened. -/
structure Client where
  stack : Stack
  seed : UInt32
  polls : Nat
  events : List Event

/-- `rng32`: the new seed, which is the number as well. -/
def rng32 (seed : UInt32) : UInt32 := seed * 1664525 + 1013904223

/-- Broadcast a message from the client's port to the server's. Without a card nothing is sent. -/
def dhcpSend (nic : Nic) (c : Client) (packet : Bytes) : Int × Client :=
  let sending := netstackSendUdpLow nic.initialized c.stack 0xFFFFFFFF 68 67 packet 548 false
  let sent := if nic.initialized then sending.frames.map Event.sent else []
  (sending.result, { c with stack := sending.stack, events := c.events ++ sent })

/-- Wait for a datagram on the client's port. -/
def dhcpReceive (nic : Nic) (c : Client) : Option Received × Client :=
  match netstackReceiveUdpLow nic 68 (fun _ => 0) 548 512 c.polls with
  | (none, polls) => (none, { c with polls := polls })
  | (some r, polls) => (some r, { c with polls := polls, events := c.events ++ [.received r] })

/-- What `dhcp_discover_request` returns, in the order of the machine. -/
structure Lease where
  ip : UInt32
  subnet : UInt32
  router : UInt32
  dns : UInt32

/-- What is done with the OFFER, and after it. -/
def dhcpOffered (nic : Nic) (c : Client) (xid : UInt32) (offer : Received) :
    Option Lease × Client :=
  if offer.copied ≤ 0 then (none, c)
  else if offer.buffer 0 ≠ 2 ∨ field32 offer.buffer 4 ≠ xid then (none, c)
  else
    match dhcpParseOpts offer.buffer with
    | none => (none, c)
    | some o =>
        if o.msgType ≠ 2 then (none, c)
        else
          let yi := field32 offer.buffer 16
          match dhcpSend nic c (dhcpRequest c.stack xid yi o.serverId) with
          | (result, c) =>
              if result ≠ 0 then (none, c)
              else
                match dhcpReceive nic c with
                | (none, c) => (none, c)
                | (some ack, c) =>
                    if ack.copied ≤ 0 ∨ field32 ack.buffer 4 ≠ xid then (none, c)
                    else
                      match dhcpParseOpts ack.buffer with
                      | none => (none, c)
                      | some o =>
                          if o.msgType ≠ 5 then (none, c)
                          else
                            (some
                              { ip := ntohl (field32 ack.buffer 16)
                                subnet := ntohl o.subnet
                                router := ntohl o.router
                                dns := ntohl o.dns }, c)

/-- `dhcp_discover_request`. -/
def dhcpDiscoverRequest (nic : Nic) (c : Client) : Option Lease × Client :=
  let xid := rng32 c.seed
  let c := { c with seed := xid }
  match dhcpSend nic c (dhcpDiscover c.stack xid) with
  | (result, c) =>
      if result ≠ 0 then (none, c)
      else
        match dhcpReceive nic c with
        | (none, c) => (none, c)
        | (some offer, c) => dhcpOffered nic c xid offer

/-- `netstack_get_ip_address`. -/
def netstackGetIpAddress (nic : Nic) (c : Client) : UInt32 × Client :=
  if c.stack.netConfig.ipAddress = 0 then
    match dhcpDiscoverRequest nic c with
    | (none, c) => (c.stack.netConfig.ipAddress, c)
    | (some lease, c) =>
        let config :=
          { c.stack.netConfig with
            ipAddress := lease.ip, netmask := lease.subnet, gateway := lease.router,
            dnsServer := lease.dns }
        (config.ipAddress, { c with stack := { c.stack with netConfig := config } })
  else (c.stack.netConfig.ipAddress, c)

/-! ## What the messages of the client say -/

/-- The frame carries a message of the client with this id and message type. -/
def IsMessage (f : Frame) (xid : UInt32) (type : UInt8) : Prop :=
  field32 f.bytes 46 = xid ∧ f.bytes 282 = 53 ∧ f.bytes 283 = 1 ∧ f.bytes 284 = type

/-- The message asks for the address `yi`. -/
def AsksFor (f : Frame) (yi : UInt32) : Prop :=
  f.bytes 285 = 50 ∧ f.bytes 286 = 4 ∧ field32 f.bytes 287 = yi

/-- The frame in which a message of the client is sent. -/
def dhcpFrame (s : Stack) (packet : Bytes) : Frame :=
  ⟨udpBytes s broadcastMac 0xFFFFFFFF 68 67 packet 548 false, 590⟩

theorem dhcpFrame_byte (s : Stack) (packet : Bytes) {i : Nat} (hi : i < 548) :
    (dhcpFrame s packet).bytes (42 + i) = packet i := udpBytes_data _ _ _ _ _ _ _ hi

theorem dhcpFrame_field32 (s : Stack) (packet : Bytes) {a : Nat} (ha : a + 4 ≤ 548) :
    field32 (dhcpFrame s packet).bytes (42 + a) = field32 packet a := by
  have hload : load32 (dhcpFrame s packet).bytes (42 + a) = load32 packet a :=
    load32_congr fun i hi => by
      rw [Nat.add_assoc]
      exact dhcpFrame_byte s packet (by omega)
  rw [field32, field32, hload]

theorem dhcpMessage_xid (s : Stack) (xid : UInt32) : field32 (dhcpMessage s xid) 4 = xid := by
  have hsame : ∀ i, i < 4 → dhcpMessage s xid (4 + i)
      = setField32 (store8 (store8 (store8 (fun _ => 0) 0 1) 1 1) 2 6) 4 xid (4 + i) := by
    intro i hi
    unfold dhcpMessage dhcpOptions
    rw [setField32_outside _ _ (by omega), setMac, dif_neg (by omega),
      setField16_outside _ _ (by omega)]
  rw [field32_congr hsame, field32_setField32]

theorem isMessage_discover (s t : Stack) (xid : UInt32) :
    IsMessage (dhcpFrame s (dhcpDiscover t xid)) xid 1 := by
  have hxid : field32 (dhcpDiscover t xid) 4 = xid := by
    rw [← dhcpMessage_xid t xid]
    refine field32_congr fun i hi => ?_
    rw [dhcpMessage_xid]
    unfold dhcpDiscover dhcpOptPutU8 dhcpOptPutList dhcpOptions
    simp (disch := omega) only [store8_ne, copy_outside]
  refine ⟨(dhcpFrame_field32 s _ (a := 4) (by decide)).trans hxid, ?_, ?_, ?_⟩
  · exact dhcpFrame_byte s (dhcpDiscover t xid) (i := 240) (by decide)
  · exact dhcpFrame_byte s (dhcpDiscover t xid) (i := 241) (by decide)
  · exact dhcpFrame_byte s (dhcpDiscover t xid) (i := 242) (by decide)

theorem isMessage_request (s t : Stack) (xid yi sid : UInt32) :
    IsMessage (dhcpFrame s (dhcpRequest t xid yi sid)) xid 3 := by
  have hxid : field32 (dhcpRequest t xid yi sid) 4 = xid := by
    rw [← dhcpMessage_xid t xid]
    refine field32_congr fun i hi => ?_
    rw [dhcpMessage_xid]
    unfold dhcpRequest dhcpOptPutU8 dhcpOptPutU32 dhcpOptions
    simp (disch := omega) only [store8_ne, setField32_outside]
  refine ⟨(dhcpFrame_field32 s _ (a := 4) (by decide)).trans hxid, ?_, ?_, ?_⟩
  · exact dhcpFrame_byte s (dhcpRequest t xid yi sid) (i := 240) (by decide)
  · exact dhcpFrame_byte s (dhcpRequest t xid yi sid) (i := 241) (by decide)
  · exact dhcpFrame_byte s (dhcpRequest t xid yi sid) (i := 242) (by decide)

theorem asksFor_request (s t : Stack) (xid yi sid : UInt32) :
    AsksFor (dhcpFrame s (dhcpRequest t xid yi sid)) yi := by
  have hyi : field32 (dhcpRequest t xid yi sid) 245 = htonl (ntohl yi) := by
    rw [← field32_setField32 (fun _ => 0) 245 (htonl (ntohl yi))]
    refine field32_congr fun i hi => ?_
    unfold dhcpRequest dhcpOptPutU8 dhcpOptPutU32 dhcpOptions
    simp (disch := omega) only [store8_ne, setField32_outside]
    show setField32 _ 245 _ (245 + i) = setField32 _ 245 _ (245 + i)
    rw [setField32, setField32, store32_byte _ _ _ hi, store32_byte _ _ _ hi]
  refine ⟨?_, ?_, ?_⟩
  · exact dhcpFrame_byte s (dhcpRequest t xid yi sid) (i := 243) (by decide)
  · exact dhcpFrame_byte s (dhcpRequest t xid yi sid) (i := 244) (by decide)
  · rw [dhcpFrame_field32 s _ (a := 245) (by decide), hyi]
    exact ntohl_htonl yi

/-! ## What the exchange does -/

/-- Sending changes the identification of the next packet, and nothing else of the stack. -/
theorem dhcpSend_eq (nic : Nic) (c : Client) (packet : Bytes) :
    dhcpSend nic c packet
      = (if nic.initialized then 0 else -1,
        { c with
          stack := { c.stack with ipIdentification := c.stack.ipIdentification + 1 }
          events := c.events ++
            if nic.initialized then [.sent (dhcpFrame c.stack packet)] else [] }) := by
  have hmac : dstMac c.stack 0xFFFFFFFF = some broadcastMac := if_pos rfl
  unfold dhcpSend netstackSendUdpLow
  rw [if_neg (by decide), hmac]
  rfl

/-- A datagram is accepted from one of the polls. -/
theorem netstackReceiveUdpLow_some {nic : Nic} {port : UInt16} {buffer : Bytes} {buflen : UInt32}
    {pollCount k k' : Nat} {r : Received}
    (h : netstackReceiveUdpLow nic port buffer buflen pollCount k = (some r, k')) :
    ∃ i, k ≤ i ∧ k' = i + 1 ∧ acceptUdp port buffer buflen (nicRecv nic i) = some r := by
  induction pollCount generalizing k with
  | zero => cases h
  | succ pollCount ih =>
      unfold netstackReceiveUdpLow at h
      cases ha : acceptUdp port buffer buflen (nicRecv nic k) with
      | some r' =>
          rw [ha] at h
          cases h
          exact ⟨k, Nat.le_refl k, rfl, ha⟩
      | none =>
          rw [ha] at h
          obtain ⟨i, hi, hk', hr⟩ := ih h
          exact ⟨i, by omega, hk', hr⟩

/-- The datagram that poll number `i` gives to the client. -/
def Accepted (nic : Nic) (i : Nat) (r : Received) : Prop :=
  acceptUdp 68 (fun _ => 0) 548 (nicRecv nic i) = some r

/-- **What receiving does**: nothing but polls, or one event. -/
theorem dhcpReceive_cases (nic : Nic) (c : Client) :
    (∃ polls, dhcpReceive nic c = (none, { c with polls := polls })) ∨
    ∃ r i, c.polls ≤ i ∧ Accepted nic i r ∧
      dhcpReceive nic c
        = (some r, { c with polls := i + 1, events := c.events ++ [.received r] }) := by
  unfold dhcpReceive
  rcases hr : netstackReceiveUdpLow nic 68 (fun _ => 0) 548 512 c.polls with ⟨_ | r, polls⟩
  · exact Or.inl ⟨polls, rfl⟩
  · obtain ⟨i, hi, rfl, haccept⟩ := netstackReceiveUdpLow_some hr
    exact Or.inr ⟨r, i, hi, haccept, rfl⟩

/-- An OFFER for this exchange. -/
def IsOffer (xid : UInt32) (r : Received) : Prop :=
  0 < r.copied ∧ r.buffer 0 = 2 ∧ field32 r.buffer 4 = xid ∧
    ∃ o, dhcpParseOpts r.buffer = some o ∧ o.msgType = 2

/-- An ACK for this exchange, and the lease in it. -/
def IsAck (xid : UInt32) (r : Received) (lease : Lease) : Prop :=
  0 < r.copied ∧ field32 r.buffer 4 = xid ∧
    ∃ o, dhcpParseOpts r.buffer = some o ∧ o.msgType = 5 ∧
      lease = ⟨ntohl (field32 r.buffer 16), ntohl o.subnet, ntohl o.router, ntohl o.dns⟩

/-- **After the OFFER**: no lease, or a REQUEST for the offered address and the ACK behind it.
The configuration is never touched. -/
theorem dhcpOffered_spec (nic : Nic) (c : Client) (xid : UInt32) (offer : Received) :
    (dhcpOffered nic c xid offer).2.stack.netConfig = c.stack.netConfig ∧
    ∀ lease, (dhcpOffered nic c xid offer).1 = some lease →
      IsOffer xid offer ∧ ∃ request ack j, IsMessage request xid 3 ∧
        AsksFor request (field32 offer.buffer 16) ∧ c.polls ≤ j ∧ Accepted nic j ack ∧
        IsAck xid ack lease ∧
        (dhcpOffered nic c xid offer).2.events
          = c.events ++ [.sent request, .received ack] := by
  -- every way out but the last one gives no lease
  have hdone : ∀ c' : Client, c'.stack.netConfig = c.stack.netConfig →
      ((none : Option Lease), c').2.stack.netConfig = c.stack.netConfig ∧
      ∀ lease, ((none : Option Lease), c').1 = some lease →
        IsOffer xid offer ∧ ∃ request ack j, IsMessage request xid 3 ∧
          AsksFor request (field32 offer.buffer 16) ∧ c.polls ≤ j ∧ Accepted nic j ack ∧
          IsAck xid ack lease ∧ c'.events = c.events ++ [.sent request, .received ack] :=
    fun c' hc' => ⟨hc', fun lease h => nomatch h⟩
  unfold dhcpOffered
  by_cases hlen : offer.copied ≤ 0
  · rw [if_pos hlen]
    exact hdone c rfl
  by_cases hop : offer.buffer 0 ≠ 2 ∨ field32 offer.buffer 4 ≠ xid
  · rw [if_neg hlen, if_pos hop]
    exact hdone c rfl
  rw [if_neg hlen, if_neg hop]
  rw [not_or, not_not, not_not] at hop
  cases hopts : dhcpParseOpts offer.buffer with
  | none => exact hdone c rfl
  | some o =>
      dsimp only
      by_cases htype : o.msgType ≠ 2
      · rw [if_pos htype]
        exact hdone c rfl
      rw [if_neg htype, dhcpSend_eq]
      rw [not_not] at htype
      have hoffer : IsOffer xid offer := ⟨by omega, hop.1, hop.2, o, hopts, htype⟩
      dsimp only
      cases hinit : nic.initialized with
      | false => exact hdone _ rfl
      | true =>
          rw [if_pos rfl, if_pos rfl, if_neg (by decide)]
          -- the client after the REQUEST; the answer comes in a poll after those before it
          generalize hc₁ : ({ c with
            stack := { c.stack with ipIdentification := c.stack.ipIdentification + 1 }
            events := c.events ++ [Event.sent (dhcpFrame c.stack (dhcpRequest c.stack xid
              (field32 offer.buffer 16) o.serverId))] } : Client) = c₁
          have hconfig : c₁.stack.netConfig = c.stack.netConfig := by rw [← hc₁]
          rcases dhcpReceive_cases nic c₁ with ⟨polls, h⟩ | ⟨ack, j, hj, haccept, h⟩
          · rw [h]
            exact hdone _ hconfig
          rw [h]
          dsimp only
          by_cases hack : ack.copied ≤ 0 ∨ field32 ack.buffer 4 ≠ xid
          · rw [if_pos hack]
            exact hdone _ hconfig
          rw [if_neg hack]
          rw [not_or, not_not] at hack
          cases hopts' : dhcpParseOpts ack.buffer with
          | none => exact hdone _ hconfig
          | some o' =>
              dsimp only
              by_cases htype' : o'.msgType ≠ 5
              · rw [if_pos htype']
                exact hdone _ hconfig
              rw [if_neg htype']
              refine ⟨hconfig, fun lease hlease => ⟨hoffer, _, ack, j,
                isMessage_request c.stack c.stack xid _ o.serverId,
                asksFor_request c.stack c.stack xid _ o.serverId, ?_, haccept,
                ⟨by omega, hack.2, o', hopts', not_not.mp htype',
                  (Option.some.inj hlease).symm⟩, ?_⟩⟩
              · rwa [← hc₁] at hj
              · rw [← hc₁]
                exact List.append_assoc _ _ _

/-- The exchange that a run of the client has been through: a DISCOVER, an OFFER that was
accepted for it, a REQUEST for the offered address, and an ACK that was accepted after it, all
with the same id. -/
def Handshake (nic : Nic) (before after : Client) (lease : Lease) : Prop :=
  ∃ xid discover offer request ack i j,
    after.events = before.events ++
      [.sent discover, .received offer, .sent request, .received ack] ∧
    before.polls ≤ i ∧ i < j ∧ Accepted nic i offer ∧ Accepted nic j ack ∧
    IsMessage discover xid 1 ∧ IsOffer xid offer ∧
    IsMessage request xid 3 ∧ AsksFor request (field32 offer.buffer 16) ∧ IsAck xid ack lease

/-- **`dhcp_discover_request`** leaves the configuration alone, and returns a lease only after a
whole exchange. -/
theorem dhcpDiscoverRequest_spec (nic : Nic) (c : Client) :
    (dhcpDiscoverRequest nic c).2.stack.netConfig = c.stack.netConfig ∧
    ∀ lease, (dhcpDiscoverRequest nic c).1 = some lease →
      Handshake nic c (dhcpDiscoverRequest nic c).2 lease := by
  unfold dhcpDiscoverRequest
  dsimp only
  rw [dhcpSend_eq]
  dsimp only
  cases hinit : nic.initialized with
  | false => exact ⟨rfl, fun lease h => nomatch h⟩
  | true =>
      rw [if_pos rfl, if_pos rfl, if_neg (by decide)]
      generalize hc₁ : ({ c with
        stack := { c.stack with ipIdentification := c.stack.ipIdentification + 1 }
        seed := rng32 c.seed
        events := c.events ++ [Event.sent (dhcpFrame c.stack
          (dhcpDiscover c.stack (rng32 c.seed)))] } : Client) = c₁
      have hconfig : c₁.stack.netConfig = c.stack.netConfig := by rw [← hc₁]
      -- from here on the DISCOVER is sent; what follows is the wait for an offer
      rcases dhcpReceive_cases nic c₁ with ⟨polls, h⟩ | ⟨offer, i, hi, haccept, h⟩
      · rw [h]
        exact ⟨hconfig, fun lease h => nomatch h⟩
      rw [h]
      dsimp only
      obtain ⟨hsame, hlease⟩ := dhcpOffered_spec nic
        { c₁ with polls := i + 1, events := c₁.events ++ [.received offer] } (rng32 c.seed) offer
      refine ⟨hsame.trans hconfig, fun lease hl => ⟨rng32 c.seed, ?_⟩⟩
      obtain ⟨hoffer, request, ack, j, hrequest, hasks, hj, hack, hisAck, hevents⟩ :=
        hlease lease hl
      refine ⟨dhcpFrame c.stack (dhcpDiscover c.stack (rng32 c.seed)), offer, request, ack, i, j, ?_,
        ?_, hj, haccept, hack, isMessage_discover c.stack c.stack _, hoffer, hrequest, hasks,
        hisAck⟩
      · rw [hevents, ← hc₁]
        simp only [List.append_assoc, List.cons_append, List.nil_append]
      · rwa [← hc₁] at hi

/-- **The client is safe.** Whatever the card delivers, and whenever: an unconfigured stack stays
as it is and `0` is returned, or the four addresses are those of an ACK that ends a whole
exchange. -/
theorem netstackGetIpAddress_safe {c : Client} (h : c.stack.netConfig.ipAddress = 0) (nic : Nic) :
    ((netstackGetIpAddress nic c).2.stack.netConfig = c.stack.netConfig ∧
      (netstackGetIpAddress nic c).1 = 0) ∨
    ∃ lease : Lease, Handshake nic c (netstackGetIpAddress nic c).2 lease ∧
      (netstackGetIpAddress nic c).1 = lease.ip ∧
      (netstackGetIpAddress nic c).2.stack.netConfig
        = { ipAddress := lease.ip, netmask := lease.subnet, gateway := lease.router,
            dnsServer := lease.dns, macAddress := c.stack.netConfig.macAddress } := by
  obtain ⟨hconfig, hlease⟩ := dhcpDiscoverRequest_spec nic c
  unfold netstackGetIpAddress
  rw [if_pos h]
  rcases hr : dhcpDiscoverRequest nic c with ⟨_ | lease, c'⟩
  · rw [hr] at hconfig
    refine Or.inl ⟨hconfig, ?_⟩
    show c'.stack.netConfig.ipAddress = 0
    rw [hconfig, h]
  · rw [hr] at hconfig hlease
    refine Or.inr ⟨lease, hlease lease rfl, rfl, ?_⟩
    show ({ c'.stack.netConfig with
      ipAddress := lease.ip, netmask := lease.subnet, gateway := lease.router,
      dnsServer := lease.dns } : NetworkConfig) = _
    rw [hconfig]

/-- The client after `netstack_init`. -/
def clientInit : Client where
  stack := netstackInit stackQemu (some stackQemu.netConfig.macAddress)
  seed := 0x12345678
  polls := 0
  events := []

/-- A reply of a server: `10.0.2.15/24` with router `10.0.2.2` and name server `10.0.2.3`. -/
def serverReply (xid : UInt32) (type : UInt8) : Frame :=
  let p := store8 (dhcpMessage stackQemu xid) 0 2
  let p := setField32 p 16 (htonl 0x0A00020F)
  let (p, opt) := dhcpOptPutU8 p 240 53 type
  let (p, opt) := dhcpOptPutU32 p opt 54 0x0A000202
  let (p, opt) := dhcpOptPutU32 p opt 1 0xFFFFFF00
  let (p, opt) := dhcpOptPutU32 p opt 3 0x0A000202
  let (p, opt) := dhcpOptPutU32 p opt 6 0x0A000203
  ⟨udpBytes stackQemu broadcastMac 0xFFFFFFFF 67 68 (store8 p opt 255) 548 false, 590⟩

/-- A card that delivers an OFFER and an ACK for the client, after a poll without a frame. -/
def nicServer : Nic where
  initialized := true
  poll k :=
    if k = 1 then ⟨590, (serverReply (rng32 0x12345678) 2).bytes⟩
    else if k = 2 then ⟨590, (serverReply (rng32 0x12345678) 5).bytes⟩
    else ⟨0, fun _ => 0⟩

/-- The client gets its lease from such a card. -/
theorem netstackGetIpAddress_server :
    clientInit.stack.netConfig.ipAddress = 0 ∧
    ∃ lease : Lease, Handshake nicServer clientInit (netstackGetIpAddress nicServer clientInit).2
        lease ∧ lease.ip = 0x0A00020F := by
  have hresult : (netstackGetIpAddress nicServer clientInit).1 = 0x0A00020F := by decide
  rcases netstackGetIpAddress_safe (c := clientInit) rfl nicServer with ⟨-, h0⟩ | ⟨lease, h, hip, -⟩
  · rw [hresult] at h0
    cases h0
  · exact ⟨rfl, lease, h, hip.symm.trans hresult⟩

end MicroKernel.Net
