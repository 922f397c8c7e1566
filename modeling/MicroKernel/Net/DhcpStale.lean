import MicroKernel.Net.DhcpVerdict
import MicroKernel.Net.UdpReceive

set_option autoImplicit false

/-! # What was in the client's buffers before

`dhcp_discover_request` reads the OFFER and the ACK into local structures that it does not clear.
Here the exchange is run over any contents of the two before, and two runs that differ in these
contents alone are compared. They do the same exactly when the received bytes of each reply settle
the verdict on it (`decidesOnReceived_iff`): a datagram that ends before its options do may be
completed by an earlier message.
-/

namespace MicroKernel.Net

open MicroKernel.Lib Bytes

/-! ## The exchange over any buffers -/

/-- Wait for a datagram on the client's port, with `prior` in the buffer for it. -/
def dhcpReceiveOver (prior : Bytes) (nic : Nic) (c : Client) : Option Received × Client :=
  match netstackReceiveUdpLow nic 68 prior 548 512 c.polls with
  | (none, polls) => (none, { c with polls := polls })
  | (some r, polls) => (some r, { c with polls := polls, events := c.events ++ [.received r] })

/-- What is done with the OFFER, and after it, with `ack₀` in the buffer for the ACK. -/
def dhcpOfferedOver (ack₀ : Bytes) (nic : Nic) (c : Client) (xid : UInt32) (offer : Received) :
    Option Lease × Client :=
  if offer.copied ≤ 0 then (none, c)
  else if offer.buffer 0 ≠ 2 ∨ field32 offer.buffer 4 ≠ xid then (none, c)
  else
    match dhcpParseOpts offer.buffer with
    | none => (none, c)
    | some o =>
        if o.msgType ≠ 2 then (none, c)
        else
          let yi := field32 offer.buffer 16
          match dhcpSend nic c (dhcpRequest c.stack xid yi o.serverId) with
          | (result, c) =>
              if result ≠ 0 then (none, c)
              else
                match dhcpReceiveOver ack₀ nic c with
                | (none, c) => (none, c)
                | (some ack, c) =>
                    if ack.copied ≤ 0 ∨ field32 ack.buffer 4 ≠ xid then (none, c)
                    else
                      match dhcpParseOpts ack.buffer with
                      | none => (none, c)
                      | some o =>
                          if o.msgType ≠ 5 then (none, c)
                          else
                            (some
                              { ip := ntohl (field32 ack.buffer 16)
                                subnet := ntohl o.subnet
                                router := ntohl o.router
                                dns := ntohl o.dns }, c)

/-- `dhcp_discover_request`, with `offer₀` and `ack₀` in its local buffers before. -/
def dhcpDiscoverRequestOver (offer₀ ack₀ : Bytes) (nic : Nic) (c : Client) :
    Option Lease × Client :=
  let xid := rng32 c.seed
  let c := { c with seed := xid }
  match dhcpSend nic c (dhcpDiscover c.stack xid) with
  | (result, c) =>
      if result ≠ 0 then (none, c)
      else
        match dhcpReceiveOver offer₀ nic c with
        | (none, c) => (none, c)
        | (some offer, c) => dhcpOfferedOver ack₀ nic c xid offer

/-- The exchange of before is the one over zeros. -/
theorem dhcpDiscoverRequest_eq (nic : Nic) (c : Client) :
    dhcpDiscoverRequest nic c = dhcpDiscoverRequestOver (fun _ => 0) (fun _ => 0) nic c := rfl

/-- The frames among events. -/
def sentFrames (events : List Event) : List Frame :=
  events.filterMap fun | .sent frame => some frame | .received _ => none

/-- What a run shows: its result and the frames it has sent. -/
def shown (r : Option Lease × Client) : Option Lease × List Frame := (r.1, sentFrames r.2.events)

/-- Runs show the same, whatever is in the two buffers before. -/
def DecidesOnReceived (nic : Nic) (c : Client) : Prop :=
  ∀ offer₀ ack₀ offer₁ ack₁, shown (dhcpDiscoverRequestOver offer₀ ack₀ nic c)
    = shown (dhcpDiscoverRequestOver offer₁ ack₁ nic c)

/-! ## Datagrams -/

/-- The first datagram for the client from poll `k` on: its bytes, how many there are, and the
number of the next poll. -/
def datagramFrom (nic : Nic) (k : Nat) : Option (Bytes × Nat) × Nat :=
  let r := netstackReceiveUdpLow nic 68 (fun _ => 0) 548 512 k
  (r.1.map fun r => (r.buffer, r.copied.toNat), r.2)

/-- **Receiving over a buffer** keeps of it what the datagram does not reach. -/
theorem netstackReceiveUdpLow_over (nic : Nic) (prior : Bytes) (pollCount k : Nat) :
    (netstackReceiveUdpLow nic 68 prior 548 pollCount k).2
        = (netstackReceiveUdpLow nic 68 (fun _ => 0) 548 pollCount k).2 ∧
      (netstackReceiveUdpLow nic 68 prior 548 pollCount k).1
        = (netstackReceiveUdpLow nic 68 (fun _ => 0) 548 pollCount k).1.map fun r =>
          { r with buffer := fill r.buffer r.copied.toNat prior } := by
  have hbuf : (548 : UInt32).toNat < 2 ^ 31 := by decide
  induction pollCount generalizing k with
  | zero => exact ⟨rfl, rfl⟩
  | succ pollCount ih =>
      unfold netstackReceiveUdpLow
      by_cases hp : Passes 68 (nicRecv nic k)
      · rw [acceptUdp_of_passes hp _ hbuf, acceptUdp_of_passes hp _ hbuf]
        refine ⟨rfl, congrArg some ?_⟩
        have hfill : copy prior 0 (nicRecv nic k).bytes (udpOffset (nicRecv nic k).bytes + 8)
              (copiedLength (nicRecv nic k).bytes 548)
            = fill (copy (fun _ => 0) 0 (nicRecv nic k).bytes (udpOffset (nicRecv nic k).bytes + 8)
              (copiedLength (nicRecv nic k).bytes 548))
              (copiedLength (nicRecv nic k).bytes 548) prior := by
          funext i
          by_cases hi : i < copiedLength (nicRecv nic k).bytes 548
          · rw [fill_inside _ _ hi, copy_inside _ _ _ (by omega) (by omega),
              copy_inside _ _ _ (by omega) (by omega)]
          · rw [fill_behind _ _ (by omega), copy_outside _ _ _ (by omega)]
        exact congrArg (fun b => Received.mk _ b _ _) hfill
      · rw [acceptUdp_of_not_passes hp, acceptUdp_of_not_passes hp]
        exact ih (k + 1)

/-- What is received has a length that is not negative. -/
theorem copied_of_receive {nic : Nic} {prior : Bytes} {pollCount k : Nat} {r : Received}
    (h : (netstackReceiveUdpLow nic 68 prior 548 pollCount k).1 = some r) :
    r.copied = r.copied.toNat := by
  obtain ⟨j, -, -, -, rfl⟩ := receiveUdp_passes (by decide) h
  rfl

/-! ## What a run shows -/

/-- The verdict on the reply that a run gets from poll `k` on, if it gets one. -/
def verdictFrom (kind : Reply) (prior : Bytes) (nic : Nic) (xid : UInt32) (k : Nat) :
    Option (UInt32 × DhcpOptions) :=
  (datagramFrom nic k).1.bind fun (p, n) =>
    if n = 0 then none else kind.verdict xid (fill p n prior)

/-- The lease in an ACK. -/
def leaseOf (v : UInt32 × DhcpOptions) : Lease :=
  ⟨ntohl v.1, ntohl v.2.subnet, ntohl v.2.router, ntohl v.2.dns⟩

/-- The stack after a message was sent. -/
def Stack.afterSend (s : Stack) : Stack := { s with ipIdentification := s.ipIdentification + 1 }

/-- The DISCOVER of a run. -/
def discoverFrame (c : Client) : Frame :=
  dhcpFrame c.stack (dhcpDiscover c.stack (rng32 c.seed))

/-- The REQUEST of a run, after the verdict on the OFFER. -/
def requestFrame (c : Client) (v : UInt32 × DhcpOptions) : Frame :=
  dhcpFrame c.stack.afterSend (dhcpRequest c.stack.afterSend (rng32 c.seed) v.1 v.2.serverId)

theorem sentFrames_append (events events' : List Event) :
    sentFrames (events ++ events') = sentFrames events ++ sentFrames events' :=
  List.filterMap_append

/-- **What receiving over a buffer does**: nothing but polls, or one datagram. -/
theorem dhcpReceiveOver_cases (prior : Bytes) (nic : Nic) (c : Client) :
    ((datagramFrom nic c.polls).1 = none ∧
      dhcpReceiveOver prior nic c = (none, { c with polls := (datagramFrom nic c.polls).2 })) ∨
    ∃ (p : Bytes) (n : Nat) (r : Received), (datagramFrom nic c.polls).1 = some (p, n) ∧
      r.copied = n ∧ r.buffer = fill p n prior ∧
      dhcpReceiveOver prior nic c = (some r,
        { c with polls := (datagramFrom nic c.polls).2, events := c.events ++ [.received r] }) := by
  obtain ⟨hpolls, hreceived⟩ := netstackReceiveUdpLow_over nic prior 512 c.polls
  unfold dhcpReceiveOver datagramFrom
  rcases hz : netstackReceiveUdpLow nic 68 (fun _ => 0) 548 512 c.polls with ⟨_ | r, polls⟩
  · rw [hz] at hpolls hreceived
    rcases hr : netstackReceiveUdpLow nic 68 prior 548 512 c.polls with ⟨r', polls'⟩
    rw [hr] at hpolls hreceived
    cases hpolls
    cases hreceived
    exact Or.inl ⟨rfl, rfl⟩
  · rw [hz] at hpolls hreceived
    have hcopied := copied_of_receive (congrArg Prod.fst hz)
    rcases hr : netstackReceiveUdpLow nic 68 prior 548 512 c.polls with ⟨r', polls'⟩
    rw [hr] at hpolls hreceived
    cases hpolls
    cases hreceived
    exact Or.inr ⟨r.buffer, r.copied.toNat,
      { r with buffer := fill r.buffer r.copied.toNat prior }, rfl, hcopied, rfl, rfl⟩

/-- What is done with the ACK. -/
theorem dhcpReceiveOver_ack (ack₀ : Bytes) (nic : Nic) (c : Client) (xid : UInt32) :
    shown (match dhcpReceiveOver ack₀ nic c with
      | (none, c) => (none, c)
      | (some ack, c) =>
          if ack.copied ≤ 0 ∨ field32 ack.buffer 4 ≠ xid then (none, c)
          else
            match dhcpParseOpts ack.buffer with
            | none => (none, c)
            | some o =>
                if o.msgType ≠ 5 then (none, c)
                else
                  (some
                    { ip := ntohl (field32 ack.buffer 16)
                      subnet := ntohl o.subnet
                      router := ntohl o.router
                      dns := ntohl o.dns }, c))
      = ((verdictFrom .ack ack₀ nic xid c.polls).map leaseOf, sentFrames c.events) := by
  unfold verdictFrom
  rcases dhcpReceiveOver_cases ack₀ nic c with ⟨hnone, h⟩ | ⟨p, n, r, hsome, hcopied, hbuffer, h⟩
  · rw [hnone, h]
    rfl
  · have hevents : sentFrames (c.events ++ [.received r]) = sentFrames c.events := by
      rw [sentFrames_append]
      exact List.append_nil _
    rw [hsome, h, Option.bind_some]
    dsimp only
    rw [hcopied, hbuffer]
    by_cases hn : n = 0
    · rw [if_pos (Or.inl (by omega)), if_pos hn]
      exact Prod.ext rfl hevents
    rw [if_neg hn]
    unfold Reply.verdict
    dsimp only
    by_cases hxid : field32 (fill p n ack₀) 4 ≠ xid
    · rw [if_pos (Or.inr hxid), if_pos hxid]
      exact Prod.ext rfl hevents
    rw [if_neg (not_or.mpr ⟨by omega, hxid⟩), if_neg hxid]
    cases dhcpParseOpts (fill p n ack₀) with
    | none => exact Prod.ext rfl hevents
    | some o =>
        rw [Option.bind_some]
        unfold Reply.judge Reply.type
        dsimp only
        by_cases htype : o.msgType ≠ 5
        · rw [if_pos htype, if_pos htype]
          exact Prod.ext rfl hevents
        · rw [if_neg htype, if_neg htype]
          exact Prod.ext rfl hevents

/-- **What is done with the OFFER** is decided by the verdict on it. -/
theorem dhcpOfferedOver_shown (ack₀ : Bytes) {nic : Nic} (hinit : nic.initialized = true)
    (c : Client) (xid : UInt32) (offer : Received) :
    shown (dhcpOfferedOver ack₀ nic c xid offer)
      = match if offer.copied ≤ 0 then none else Reply.offer.verdict xid offer.buffer with
        | none => (none, sentFrames c.events)
        | some v =>
            ((verdictFrom .ack ack₀ nic xid c.polls).map leaseOf,
              sentFrames c.events
                ++ [dhcpFrame c.stack (dhcpRequest c.stack xid v.1 v.2.serverId)]) := by
  unfold dhcpOfferedOver
  by_cases hcopied : offer.copied ≤ 0
  · rw [if_pos hcopied, if_pos hcopied]
    rfl
  rw [if_neg hcopied, if_neg hcopied]
  unfold Reply.verdict
  dsimp only
  by_cases hhead : offer.buffer 0 ≠ 2 ∨ field32 offer.buffer 4 ≠ xid
  · rw [if_pos hhead, if_pos hhead]
    rfl
  rw [if_neg hhead, if_neg hhead]
  cases dhcpParseOpts offer.buffer with
  | none => rfl
  | some o =>
      rw [Option.bind_some]
      unfold Reply.judge Reply.type
      dsimp only
      by_cases htype : o.msgType ≠ 2
      · rw [if_pos htype, if_pos htype]
        rfl
      rw [if_neg htype, if_neg htype, dhcpSend_eq, hinit]
      dsimp only
      rw [if_pos rfl, if_neg (by decide), dhcpReceiveOver_ack, if_pos rfl, sentFrames_append]
      rfl

/-- **What a run shows** is decided by the two verdicts. -/
theorem dhcpDiscoverRequestOver_shown (offer₀ ack₀ : Bytes) {nic : Nic}
    (hinit : nic.initialized = true) (c : Client) :
    shown (dhcpDiscoverRequestOver offer₀ ack₀ nic c)
      = match verdictFrom .offer offer₀ nic (rng32 c.seed) c.polls with
        | none => (none, sentFrames c.events ++ [discoverFrame c])
        | some v =>
            ((verdictFrom .ack ack₀ nic (rng32 c.seed) (datagramFrom nic c.polls).2).map leaseOf,
              sentFrames c.events ++ [discoverFrame c] ++ [requestFrame c v]) := by
  unfold dhcpDiscoverRequestOver verdictFrom
  dsimp only
  rw [dhcpSend_eq, hinit]
  dsimp only
  rw [if_pos rfl, if_neg (by decide), if_pos rfl]
  -- the client after the DISCOVER
  generalize hc₁ : ({ c with
    stack := { c.stack with ipIdentification := c.stack.ipIdentification + 1 }
    seed := rng32 c.seed
    events := c.events ++ [Event.sent (dhcpFrame c.stack
      (dhcpDiscover c.stack (rng32 c.seed)))] } : Client) = c₁
  have hpolls : c₁.polls = c.polls := by rw [← hc₁]
  have hstack : c₁.stack = c.stack.afterSend := by
    rw [← hc₁]
    rfl
  have hframes : sentFrames c₁.events = sentFrames c.events ++ [discoverFrame c] := by
    rw [← hc₁]
    exact sentFrames_append _ _
  rw [← hpolls]
  rcases dhcpReceiveOver_cases offer₀ nic c₁ with ⟨hnone, h⟩ | ⟨p, n, r, hsome, hcopied, hbuffer, h⟩
  · rw [hnone, h]
    exact Prod.ext rfl hframes
  · have hevents : sentFrames (c₁.events ++ [.received r])
        = sentFrames c.events ++ [discoverFrame c] := by
      rw [sentFrames_append, hframes]
      exact List.append_nil _
    rw [hsome, h, Option.bind_some]
    dsimp only
    rw [dhcpOfferedOver_shown ack₀ hinit, hcopied, hbuffer, hevents, hstack]
    by_cases hn : n = 0
    · rw [if_pos (by omega), if_pos hn]
    · rw [if_neg (by omega), if_neg hn]
      rfl

/-! ## What a REQUEST tells -/

theorem serverId_request (s t : Stack) (xid yi sid : UInt32) :
    field32 (dhcpFrame s (dhcpRequest t xid yi sid)).bytes 293 = sid := by
  have hsid : field32 (dhcpRequest t xid yi sid) 251 = htonl (ntohl sid) := by
    rw [← field32_setField32 (fun _ => 0) 251 (htonl (ntohl sid))]
    refine field32_congr fun i hi => ?_
    unfold dhcpRequest dhcpOptPutU8 dhcpOptPutU32 dhcpOptions
    simp (disch := omega) only [store8_ne]
    exact (store32_byte _ 251 _ hi).trans (store32_byte _ 251 _ hi).symm
  rw [dhcpFrame_field32 s _ (a := 251) (by decide), hsid]
  exact ntohl_htonl sid

/-- What is kept of a reply is what is kept of it again. -/
theorem keep_of_verdict {kind : Reply} {xid : UInt32} {p : Bytes} {v : UInt32 × DhcpOptions}
    (h : kind.verdict xid p = some v) : kind.keep v.2 = v.2 := by
  rw [verdict_of_heads (heads_of_verdict (by rw [h]; exact Option.some_ne_none v))] at h
  obtain ⟨o, ho, rfl⟩ := Option.map_eq_some_iff.mp h
  unfold Reply.judge at ho
  split at ho
  · cases ho
  · cases ho
    cases kind <;> rfl

theorem requestFrame_inj {c : Client} {v v' : UInt32 × DhcpOptions}
    (hv : Reply.offer.keep v.2 = v.2) (hv' : Reply.offer.keep v'.2 = v'.2)
    (h : requestFrame c v = requestFrame c v') : v = v' := by
  have hyi : v.1 = v'.1 := by
    have hfield := congrArg (fun f : Frame => field32 f.bytes 287) h
    obtain ⟨-, -, h1⟩ := asksFor_request c.stack.afterSend c.stack.afterSend (rng32 c.seed) v.1
      v.2.serverId
    obtain ⟨-, -, h2⟩ := asksFor_request c.stack.afterSend c.stack.afterSend (rng32 c.seed) v'.1
      v'.2.serverId
    exact h1.symm.trans (hfield.trans h2)
  have hsid : v.2.serverId = v'.2.serverId := by
    have hfield := congrArg (fun f : Frame => field32 f.bytes 293) h
    exact (serverId_request _ _ _ _ _).symm.trans (hfield.trans (serverId_request _ _ _ _ _))
  refine Prod.ext hyi ?_
  rw [← hv, ← hv']
  unfold Reply.keep
  rw [hsid]

theorem leaseOf_inj {v v' : UInt32 × DhcpOptions} (hv : Reply.ack.keep v.2 = v.2)
    (hv' : Reply.ack.keep v'.2 = v'.2) (h : leaseOf v = leaseOf v') : v = v' := by
  have hinj : ∀ {x y : UInt32}, ntohl x = ntohl y → x = y := by
    intro x y hxy
    rw [← ntohl_htonl x, ← ntohl_htonl y]
    exact congrArg ntohl hxy
  refine Prod.ext (hinj (congrArg Lease.ip h)) ?_
  rw [← hv, ← hv']
  unfold Reply.keep
  rw [hinj (congrArg Lease.subnet h), hinj (congrArg Lease.router h), hinj (congrArg Lease.dns h)]

/-! ## Runs that decide on received bytes -/

/-- The reply from poll `k` on, if there is one with a byte in it, is settled by what has been
received of it. -/
def SettledFrom (kind : Reply) (nic : Nic) (xid : UInt32) (k : Nat) : Prop :=
  ∀ p n, (datagramFrom nic k).1 = some (p, n) → 0 < n → Settled kind xid p n

/-- The reply from poll `k` on, with zeros behind it, is an OFFER of this exchange. -/
def OffersFrom (nic : Nic) (xid : UInt32) (k : Nat) : Prop :=
  ∃ p n, (datagramFrom nic k).1 = some (p, n) ∧ 0 < n ∧
    Reply.offer.Heads xid (fill p n fun _ => 0) ∧
    (dhcpParseFrom (fill p n fun _ => 0) 4 ⟨0, 0, 0, 0, 0⟩).msgType = 2

/-- The received bytes decide: those of the OFFER, and, if it is one, those of the ACK. -/
def ReceivedDecides (nic : Nic) (c : Client) : Prop :=
  SettledFrom .offer nic (rng32 c.seed) c.polls ∧
    (OffersFrom nic (rng32 c.seed) c.polls →
      SettledFrom .ack nic (rng32 c.seed) (datagramFrom nic c.polls).2)

theorem verdictFrom_of_datagram {kind : Reply} {prior : Bytes} {nic : Nic} {xid : UInt32} {k n : Nat}
    {p : Bytes} (h : (datagramFrom nic k).1 = some (p, n)) (hn : 0 < n) :
    verdictFrom kind prior nic xid k = kind.verdict xid (fill p n prior) := by
  unfold verdictFrom
  rw [h, Option.bind_some]
  exact if_neg (Nat.pos_iff_ne_zero.mp hn)

theorem verdictFrom_of_not_datagram {kind : Reply} {prior : Bytes} {nic : Nic} {xid : UInt32}
    {k : Nat} (h : ∀ p n, (datagramFrom nic k).1 = some (p, n) → n = 0) :
    verdictFrom kind prior nic xid k = none := by
  unfold verdictFrom
  rw [Option.bind_eq_none_iff]
  rintro ⟨p, n⟩ hd
  exact if_pos (h p n hd)

theorem settledFrom_iff (kind : Reply) (nic : Nic) (xid : UInt32) (k : Nat) :
    SettledFrom kind nic xid k ↔
      ∀ q q', verdictFrom kind q nic xid k = verdictFrom kind q' nic xid k := by
  constructor
  · intro h q q'
    by_cases hd : ∃ p n, (datagramFrom nic k).1 = some (p, n) ∧ 0 < n
    · obtain ⟨p, n, hd, hn⟩ := hd
      rw [verdictFrom_of_datagram hd hn, verdictFrom_of_datagram hd hn]
      exact (settled_iff hn).mp (h p n hd hn) q q'
    · have hnone : ∀ p n, (datagramFrom nic k).1 = some (p, n) → n = 0 := fun p n h =>
        Nat.eq_zero_of_not_pos fun hn => hd ⟨p, n, h, hn⟩
      rw [verdictFrom_of_not_datagram hnone, verdictFrom_of_not_datagram hnone]
  · intro h p n hd hn
    refine (settled_iff hn).mpr fun q q' => ?_
    rw [← verdictFrom_of_datagram hd hn, ← verdictFrom_of_datagram hd hn]
    exact h q q'

theorem offersFrom_iff (nic : Nic) (xid : UInt32) (k : Nat) :
    OffersFrom nic xid k ↔ ∃ v, verdictFrom .offer (fun _ => 0) nic xid k = some v := by
  have hjudge : ∀ p, Reply.offer.Heads xid p →
      ((dhcpParseFrom p 4 ⟨0, 0, 0, 0, 0⟩).msgType = 2 ↔ ∃ v, Reply.offer.verdict xid p = some v) := by
    intro p hheads
    rw [verdict_of_heads hheads]
    unfold Reply.judge Reply.type
    constructor
    · intro htype
      rw [if_neg (not_not_intro htype)]
      exact ⟨_, rfl⟩
    · rintro ⟨v, hv⟩
      by_contra htype
      rw [if_pos htype] at hv
      cases hv
  constructor
  · rintro ⟨p, n, hd, hn, hheads, htype⟩
    rw [verdictFrom_of_datagram hd hn]
    exact (hjudge _ hheads).mp htype
  · rintro ⟨v, hv⟩
    by_cases hd : ∃ p n, (datagramFrom nic k).1 = some (p, n) ∧ 0 < n
    · obtain ⟨p, n, hd, hn⟩ := hd
      rw [verdictFrom_of_datagram hd hn] at hv
      have hheads := heads_of_verdict (by rw [hv]; exact Option.some_ne_none v)
      exact ⟨p, n, hd, hn, hheads, (hjudge _ hheads).mpr ⟨v, hv⟩⟩
    · rw [verdictFrom_of_not_datagram fun p n h =>
        Nat.eq_zero_of_not_pos fun hn => hd ⟨p, n, h, hn⟩] at hv
      cases hv

theorem keep_of_verdictFrom {kind : Reply} {prior : Bytes} {nic : Nic} {xid : UInt32} {k : Nat}
    {v : UInt32 × DhcpOptions} (h : verdictFrom kind prior nic xid k = some v) :
    kind.keep v.2 = v.2 := by
  obtain ⟨⟨p, n⟩, hd, hv⟩ := Option.bind_eq_some_iff.mp h
  dsimp only at hv
  by_cases hn : n = 0
  · rw [if_pos hn] at hv
    cases hv
  · rw [if_neg hn] at hv
    exact keep_of_verdict hv

/-- The lease tells the verdict on the ACK. -/
theorem verdictFrom_eq_of_lease {q q' : Bytes} {nic : Nic} {xid : UInt32} {k : Nat}
    (h : (verdictFrom .ack q nic xid k).map leaseOf = (verdictFrom .ack q' nic xid k).map leaseOf) :
    verdictFrom .ack q nic xid k = verdictFrom .ack q' nic xid k := by
  cases hv : verdictFrom .ack q nic xid k with
  | none =>
      rw [hv] at h
      exact (Option.map_eq_none_iff.mp h.symm).symm
  | some v =>
      rw [hv] at h
      obtain ⟨v', hv', hlease⟩ := Option.map_eq_some_iff.mp h.symm
      rw [hv', leaseOf_inj (keep_of_verdictFrom hv') (keep_of_verdictFrom hv) hlease]

/-- Without a card there is no datagram. -/
theorem datagramFrom_uninitialized {nic : Nic} (h : nic.initialized = false) (k : Nat) :
    (datagramFrom nic k).1 = none := by
  have hpoll : ∀ j, (nicRecv nic j).length ≤ 0 := by
    intro j
    unfold nicRecv
    rw [h, if_neg Bool.false_ne_true]
    exact (by decide : (-1 : Int) ≤ 0)
  have hwait : netstackReceiveUdpLow nic 68 (fun _ => 0) 548 (512 + 0) k
      = netstackReceiveUdpLow nic 68 (fun _ => 0) 548 0 (k + 512) :=
    netstackReceiveUdpLow_wait 68 (fun _ => 0) 548 0 fun j _ => hpoll (k + j)
  unfold datagramFrom
  rw [Nat.add_zero] at hwait
  rw [hwait]
  rfl

/-- Without a card the DISCOVER is not sent, and the run ends there. -/
theorem dhcpDiscoverRequestOver_uninitialized (offer₀ ack₀ : Bytes) {nic : Nic}
    (h : nic.initialized = false) (c : Client) :
    dhcpDiscoverRequestOver offer₀ ack₀ nic c
      = (none, { c with
          stack := { c.stack with ipIdentification := c.stack.ipIdentification + 1 }
          seed := rng32 c.seed }) := by
  unfold dhcpDiscoverRequestOver
  dsimp only
  rw [dhcpSend_eq, h]
  dsimp only
  rw [if_neg Bool.false_ne_true, if_neg Bool.false_ne_true, if_pos (by decide), List.append_nil]

/-- What is shown tells the verdict on the OFFER: a REQUEST was sent, and for which. -/
theorem verdictFrom_eq_of_shown {offer₀ ack₀ offer₁ ack₁ : Bytes} {nic : Nic}
    (hinit : nic.initialized = true) {c : Client}
    (h : shown (dhcpDiscoverRequestOver offer₀ ack₀ nic c)
      = shown (dhcpDiscoverRequestOver offer₁ ack₁ nic c)) :
    verdictFrom .offer offer₀ nic (rng32 c.seed) c.polls
      = verdictFrom .offer offer₁ nic (rng32 c.seed) c.polls := by
  rw [dhcpDiscoverRequestOver_shown _ _ hinit, dhcpDiscoverRequestOver_shown _ _ hinit] at h
  have hlength := congrArg (fun r : Option Lease × List Frame => r.2.length) h
  have hsent := congrArg Prod.snd h
  cases hq : verdictFrom .offer offer₀ nic (rng32 c.seed) c.polls with
  | none =>
      cases hq' : verdictFrom .offer offer₁ nic (rng32 c.seed) c.polls with
      | none => rfl
      | some v' =>
          rw [hq, hq'] at hlength
          simp at hlength
  | some v =>
      cases hq' : verdictFrom .offer offer₁ nic (rng32 c.seed) c.polls with
      | none =>
          rw [hq, hq'] at hlength
          simp at hlength
      | some v' =>
          rw [hq, hq'] at hsent
          have hframes := List.append_cancel_left hsent
          exact congrArg some (requestFrame_inj (keep_of_verdictFrom hq)
            (keep_of_verdictFrom hq') (List.cons.inj hframes).1)

/-- **A run decides on received bytes exactly when** they settle the verdict on the OFFER and, if
it is one, on the ACK. -/
theorem decidesOnReceived_iff (nic : Nic) (c : Client) :
    DecidesOnReceived nic c ↔ ReceivedDecides nic c := by
  cases hinit : nic.initialized with
  | false =>
      refine iff_of_true (fun _ _ _ _ => ?_) ⟨fun p n h => ?_, fun h => ?_⟩
      · rw [dhcpDiscoverRequestOver_uninitialized _ _ hinit,
          dhcpDiscoverRequestOver_uninitialized _ _ hinit]
      · rw [datagramFrom_uninitialized hinit] at h
        cases h
      · obtain ⟨p, n, hd, -⟩ := h
        rw [datagramFrom_uninitialized hinit] at hd
        cases hd
  | true =>
      unfold DecidesOnReceived ReceivedDecides
      rw [settledFrom_iff, settledFrom_iff, offersFrom_iff]
      constructor
      · intro h
        refine ⟨fun q q' => verdictFrom_eq_of_shown hinit (h q (fun _ => 0) q' (fun _ => 0)),
          fun ⟨v, hv⟩ q q' => ?_⟩
        have hshown := h (fun _ => 0) q (fun _ => 0) q'
        rw [dhcpDiscoverRequestOver_shown _ _ hinit, dhcpDiscoverRequestOver_shown _ _ hinit,
          hv] at hshown
        exact verdictFrom_eq_of_lease (congrArg Prod.fst hshown)
      · rintro ⟨hoffer, hack⟩ offer₀ ack₀ offer₁ ack₁
        rw [dhcpDiscoverRequestOver_shown _ _ hinit, dhcpDiscoverRequestOver_shown _ _ hinit,
          hoffer offer₀ (fun _ => 0), hoffer offer₁ (fun _ => 0)]
        cases hv : verdictFrom .offer (fun _ => 0) nic (rng32 c.seed) c.polls with
        | none => rfl
        | some v => rw [hack ⟨v, hv⟩ ack₀ ack₁]

/-- A card that delivers one datagram of eight bytes: how an OFFER for the client begins. -/
def nicShort : Nic where
  initialized := true
  poll k :=
    if k = 0 then
      ⟨50, udpBytes stackQemu broadcastMac 0xFFFFFFFF 67 68
        (setField32 (store8 (fun _ => 0) 0 2) 4 (rng32 0x12345678)) 8 false⟩
    else ⟨0, fun _ => 0⟩

/-- The OFFER of an earlier exchange. -/
def earlierOffer : Bytes := fun i => (serverReply 0 2).bytes (42 + i)

/-- Over zeros the eight bytes are no OFFER. Over an earlier one they are: the client asks for the
address in it. -/
theorem not_decidesOnReceived_short : ¬ DecidesOnReceived nicShort clientInit := by
  intro h
  have hshown := h (fun _ => 0) (fun _ => 0) earlierOffer (fun _ => 0)
  have hcount : (shown (dhcpDiscoverRequestOver (fun _ => 0) (fun _ => 0) nicShort
        clientInit)).2.length
      ≠ (shown (dhcpDiscoverRequestOver earlierOffer (fun _ => 0) nicShort clientInit)).2.length := by
    decide +kernel
  exact hcount (congrArg (fun r : Option Lease × List Frame => r.2.length) hshown)

end MicroKernel.Net
