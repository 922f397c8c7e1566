import MicroKernel.Net.Checksum
import MicroKernel.Net.Ne2000

set_option autoImplicit false

/-! # From the stack to the card

`netstack_send_udp_low` lets a frame of 1514 bytes pass, the driver one of 1500, and the driver
gives up when the card takes too long. In both cases the driver returns without a word, and
`nic_send` says that all is well. So a result of `0` means that a transmission was started exactly
when the frame has no more than 1500 bytes and the card is done with it in time
(`noSilentDrop_iff`).
-/

namespace MicroKernel.Net

open MicroKernel.Lib Bytes

/-! ## Loading the card -/

/-- The remote registers hold the address and the count that were put into them. -/
theorem outw_eq {c : Card} {w : UInt16} (hcount : c.rbcr ≠ 0) (haddr : c.rsar + 2 < 65536) :
    (outw c w).mem = store16 c.mem c.rsar w.toNat ∧ (outw c w).rsar = c.rsar + 2 ∧
      (outw c w).rbcr = c.rbcr - 2 := by
  have hrbcr : c.rbcr < 65536 := by
    have h0 := c.rbcr0.toNat_lt
    have h1 := c.rbcr1.toNat_lt
    unfold Card.rbcr
    omega
  have hhalves : ∀ n, n < 65536 →
      (UInt8.ofNat n).toNat + 256 * (UInt8.ofNat (n / 256)).toNat = n := by
    intro n hn
    rw [UInt8.toNat_ofNat', UInt8.toNat_ofNat']
    omega
  unfold outw
  rw [if_neg hcount]
  exact ⟨rfl, hhalves _ haddr, hhalves _ (by omega)⟩

/-- The card `c` while the packet `f` of `n` bytes is loaded into it, `k` bytes of it so far.
What else the driver looks at is as in `c₀`. -/
structure Loading (c₀ : Card) (f : Bytes) (n k : Nat) (c : Card) : Prop where
  rbcr : c.rbcr = n - k
  rsar : k < n → c.rsar = 0x2000 + k
  loaded : ∀ i, i < k → i < n → c.mem (0x2000 + i) = f i
  isr : c.isr = c₀.isr
  reads : c.reads = c₀.reads
  transmissions : c.transmissions = c₀.transmissions

section loading

variable {c₀ c : Card} {f : Bytes} {n k : Nat}

/-- **One word more.** A word behind the last byte is not taken. -/
theorem Loading.outw (h : Loading c₀ f n k c) (hn : n ≤ 0x1000) {w : UInt16}
    (h0 : UInt8.ofNat w.toNat = f k) (h1 : UInt8.ofNat (w.toNat / 256) = f (k + 1)) :
    Loading c₀ f n (k + 2) (MicroKernel.Net.outw c w) := by
  have hrbcr := h.rbcr
  by_cases hk : k < n
  · have hrsar := h.rsar hk
    obtain ⟨hmem, hrsar', hrbcr'⟩ := outw_eq (c := c) (w := w) (by omega) (by omega)
    refine ⟨by omega, fun _ => by omega, fun i hi hin => ?_, ?_, ?_, ?_⟩
    · rw [hmem, hrsar]
      by_cases hlt : i < k
      · rw [store16_outside _ _ (by omega)]
        exact h.loaded i hlt hin
      · unfold store16
        rw [if_pos (by omega)]
        obtain rfl | rfl : i = k ∨ i = k + 1 := by omega
        · rw [Nat.sub_self, Nat.pow_zero, Nat.div_one, h0]
        · rw [show 0x2000 + (k + 1) - (0x2000 + k) = 1 by omega, Nat.pow_one, h1]
    · unfold MicroKernel.Net.outw
      rw [if_neg (by omega)]
      exact h.isr
    · unfold MicroKernel.Net.outw
      rw [if_neg (by omega)]
      exact h.reads
    · unfold MicroKernel.Net.outw
      rw [if_neg (by omega)]
      exact h.transmissions
  · have hsame : MicroKernel.Net.outw c w = c := if_pos (by omega)
    rw [hsame]
    exact ⟨by omega, fun hlt => by omega, fun i hi hin => h.loaded i (by omega) hin, h.isr,
      h.reads, h.transmissions⟩

theorem Loading.writeWords {data : Bytes} {m i : Nat} (h : Loading c₀ f n i c) (hn : n ≤ 0x1000)
    (hf : ∀ j, j < i + 2 * m → f j = data j) :
    Loading c₀ f n (i + 2 * m) (MicroKernel.Net.writeWords data m i c) := by
  induction m generalizing i c with
  | zero => exact h
  | succ m ih =>
      have hd0 := (data i).toNat_lt
      have hd1 := (data (i + 1)).toNat_lt
      have hw : (UInt16.ofNat ((data i).toNat + 256 * (data (i + 1)).toNat)).toNat
          = (data i).toNat + 256 * (data (i + 1)).toNat := by
        rw [UInt16.toNat_ofNat']
        omega
      have h' := h.outw hn (w := UInt16.ofNat ((data i).toNat + 256 * (data (i + 1)).toNat))
        (by
          rw [hw, hf i (by omega)]
          apply UInt8.toNat_inj.mp
          rw [UInt8.toNat_ofNat']
          omega)
        (by
          rw [hw, hf (i + 1) (by omega)]
          apply UInt8.toNat_inj.mp
          rw [UInt8.toNat_ofNat']
          omega)
      have hrest := ih h' fun j hj => hf j (by omega)
      rwa [show i + 2 + 2 * m = i + 2 * (m + 1) by omega] at hrest

theorem Loading.padWords {m : Nat} (h : Loading c₀ f n k c) (hn : n ≤ 0x1000)
    (hf : ∀ j, k ≤ j → f j = 0) : Loading c₀ f n (k + 2 * m) (MicroKernel.Net.padWords m c) := by
  induction m generalizing k c with
  | zero => exact h
  | succ m ih =>
      have h' := h.outw hn (w := 0) (hf k (Nat.le_refl k)).symm (hf (k + 1) (by omega)).symm
      have hrest := ih h' fun j hj => hf j (by omega)
      rwa [show k + 2 + 2 * m = k + 2 * (m + 1) by omega] at hrest

end loading

/-! ## Waiting for the card -/

/-- The card after more reads of its interrupt status. -/
def Card.withReads (c : Card) (reads : Nat) : Card := { c with reads := reads }

/-- The card signals `bit` within the first `n` reads. -/
def Card.SignalsWithin (c : Card) (bit : UInt8) (n : Nat) : Prop :=
  ∃ r, r < n ∧ c.isr (c.reads + r) &&& bit ≠ 0

/-- **What the loop leaves of its timeout** is positive exactly when the card signals before the
timeout has run down. -/
theorem pollIsr_spec (bit : UInt8) (timeout : Nat) (c : Card) :
    (∃ reads, (pollIsr bit timeout c).2 = c.withReads reads) ∧
      (0 < (pollIsr bit timeout c).1 ↔ c.SignalsWithin bit timeout) := by
  induction timeout generalizing c with
  | zero =>
      have hnot : ¬ c.SignalsWithin bit 0 := fun ⟨r, hr, _⟩ => by omega
      unfold pollIsr
      by_cases hset : c.isr c.reads &&& bit ≠ 0
      · simp only [if_pos hset]
        exact ⟨⟨_, rfl⟩, iff_of_false (by decide) hnot⟩
      · simp only [if_neg hset]
        exact ⟨⟨_, rfl⟩, iff_of_false (by decide) hnot⟩
  | succ timeout ih =>
      unfold pollIsr
      by_cases hset : c.isr c.reads &&& bit ≠ 0
      · simp only [if_pos hset]
        exact ⟨⟨_, rfl⟩, iff_of_true (by omega) ⟨0, by omega, hset⟩⟩
      · simp only [if_neg hset]
        obtain ⟨⟨reads, hreads⟩, hiff⟩ := ih (c.withReads (c.reads + 1))
        refine ⟨⟨reads, hreads⟩, hiff.trans ⟨?_, ?_⟩⟩
        · rintro ⟨r, hr, hbit⟩
          refine ⟨r + 1, by omega, ?_⟩
          rwa [Nat.add_comm r 1, ← Nat.add_assoc]
        · rintro ⟨r, hr, hbit⟩
          cases r with
          | zero => exact absurd hbit hset
          | succ r =>
              refine ⟨r, by omega, ?_⟩
              rwa [Nat.add_comm r 1, ← Nat.add_assoc] at hbit

/-! ## The driver -/

/-- The frame `g` is `f`, with zeros at its end up to 60 bytes. -/
def Padded (g f : Frame) : Prop :=
  g.length = max f.length 60 ∧ (∀ i, i < f.length → g.bytes i = f.bytes i) ∧
    ∀ i, f.length ≤ i → i < 60 → g.bytes i = 0

/-- The bytes that the driver sends for a packet. -/
def paddedBytes (data : Bytes) (length : Nat) : Bytes := fun i => if i < length then data i else 0

/-- **The packet is on the card**, padded, and nothing else the driver looks at has changed. -/
theorem loading_loadPacket (c : Card) (data : Bytes) {length sendLength : Nat}
    (hle : length ≤ sendLength) (hn : sendLength ≤ 0x1000) :
    ∃ k, sendLength ≤ k ∧
      Loading c (paddedBytes data length) sendLength k (loadPacket c data length sendLength) := by
  have hdata : ∀ j, j < length → paddedBytes data length j = data j := fun j hj => if_pos hj
  have hzero : ∀ j, length ≤ j → paddedBytes data length j = 0 := fun j hj => if_neg (by omega)
  unfold loadPacket
  dsimp only
  -- the registers, before the first word
  generalize hc₁ : ne2000Write (ne2000Write (ne2000Write (ne2000Write (ne2000Write (ne2000Write
    (ne2000Write c .cr 0x22) .rbcr0 (UInt8.ofNat sendLength)) .rbcr1
      (UInt8.ofNat (sendLength / 256))) .isr 0x40) .rsar0 0) .rsar1 txStartPage) .cr 0x12 = c₁
  have hstart : Loading c (paddedBytes data length) sendLength 0 c₁ := by
    rw [← hc₁]
    refine ⟨?_, fun _ => ?_, fun i hi => absurd hi (by omega), rfl, rfl, ?_⟩
    · show (UInt8.ofNat sendLength).toNat + 256 * (UInt8.ofNat (sendLength / 256)).toNat = _
      rw [UInt8.toNat_ofNat', UInt8.toNat_ofNat']
      omega
    · show (0 : UInt8).toNat + 256 * (0x20 : UInt8).toNat = 0x2000 + 0
      decide
    · show (c.transmissions ++ []) ++ [] = c.transmissions
      rw [List.append_nil, List.append_nil]
  have hwords : Loading c (paddedBytes data length) sendLength (0 + 2 * (length / 2))
      (writeWords data (length / 2) 0 c₁) := hstart.writeWords hn fun j hj => hdata j (by omega)
  by_cases hodd : length % 2 = 1
  · rw [if_pos hodd]
    have hlast := (data (length - 1)).toNat_lt
    have hw : (UInt16.ofNat (data (length - 1)).toNat).toNat = (data (length - 1)).toNat := by
      rw [UInt16.toNat_ofNat']
      omega
    have hpos : 0 + 2 * (length / 2) = length - 1 := by omega
    rw [hpos] at hwords
    have hrest := hwords.outw hn (w := UInt16.ofNat (data (length - 1)).toNat)
      (by rw [hw, UInt8.ofNat_toNat, hdata _ (by omega)])
      (by
        rw [hw, hzero _ (by omega)]
        apply UInt8.toNat_inj.mp
        rw [UInt8.toNat_ofNat', UInt8.toNat_zero]
        omega)
    exact ⟨_, by omega, hrest.padWords hn fun j hj => hzero j (by omega)⟩
  · rw [if_neg hodd]
    exact ⟨_, by omega, hwords.padWords hn fun j hj => hzero j (by omega)⟩

theorem startTransmission_transmissions (c : Card) {n : Nat} (hn : n < 65536) :
    (startTransmission c n).transmissions
      = c.transmissions ++ [⟨fun i => c.mem (0x2000 + i), n⟩] := by
  have hpage : 256 * (0x20 : UInt8).toNat = 0x2000 := by decide
  have hcount : (UInt8.ofNat n).toNat + 256 * (UInt8.ofNat (n / 256)).toNat = n := by
    rw [UInt8.toNat_ofNat', UInt8.toNat_ofNat']
    omega
  show c.transmissions ++ [⟨fun i => c.mem (256 * (0x20 : UInt8).toNat + i),
    (UInt8.ofNat n).toNat + 256 * (UInt8.ofNat (n / 256)).toNat⟩] = _
  rw [hpage, hcount]

/-- What the driver has sent when it returns: nothing that comes after the command matters. -/
theorem ne2000SendPacket_transmissions {c : Card} {data : Bytes} {length : UInt16} {n : Nat}
    (hlen : ¬ length > 1500) (hn : n = if length.toNat < 60 then 60 else length.toNat) :
    (ne2000SendPacket c data length).transmissions
      = if (pollIsr 0x40 10000 (loadPacket c data length.toNat n)).1 ≤ 0 then
          (pollIsr 0x40 10000 (loadPacket c data length.toNat n)).2.transmissions
        else (startTransmission
          (pollIsr 0x40 10000 (loadPacket c data length.toNat n)).2 n).transmissions := by
  unfold ne2000SendPacket
  rw [if_neg hlen]
  dsimp only
  rw [← hn]
  generalize pollIsr 0x40 10000 (loadPacket c data length.toNat n) = r
  split
  · rfl
  · obtain ⟨⟨reads, hreads⟩, -⟩ := pollIsr_spec 0x02 100000 (startTransmission r.2 n)
    rw [hreads]
    split <;> rfl

/-- A packet that is not too large is sent padded, or not at all when the card has not taken it in
time. -/
theorem ne2000SendPacket_cases {length : UInt16} (hlen : length.toNat ≤ 1500) (c : Card)
    (data : Bytes) :
    ∃ g, Padded g ⟨data, length.toNat⟩ ∧
      (c.SignalsWithin 0x40 10000 →
        (ne2000SendPacket c data length).transmissions = c.transmissions ++ [g]) ∧
      (¬ c.SignalsWithin 0x40 10000 →
        (ne2000SendPacket c data length).transmissions = c.transmissions) := by
  obtain ⟨n, hn⟩ : ∃ n, n = if length.toNat < 60 then 60 else length.toNat := ⟨_, rfl⟩
  have hmax : n = max length.toNat 60 := by
    rw [hn]
    split <;> omega
  have hfits : ¬ length > 1500 := by
    rw [gt_iff_lt, UInt16.lt_iff_toNat_lt]
    exact Nat.not_lt.mpr hlen
  obtain ⟨k, hk, hload⟩ := loading_loadPacket c data (show length.toNat ≤ n by omega) (by omega)
  obtain ⟨⟨reads, hreads⟩, hiff⟩ := pollIsr_spec 0x40 10000 (loadPacket c data length.toNat n)
  -- the loading of the packet has not looked at the register that is waited for
  unfold Card.SignalsWithin at hiff
  rw [hload.isr, hload.reads] at hiff
  rw [ne2000SendPacket_transmissions hfits hn, hreads]
  refine ⟨⟨fun i => (loadPacket c data length.toNat n).mem (0x2000 + i), n⟩,
    ⟨hmax, fun i hi => ?_, fun i h1 h2 => ?_⟩, fun hdma => ?_, fun hdma => ?_⟩
  · dsimp only at hi
    exact (hload.loaded i (by omega) (by omega)).trans (if_pos hi)
  · dsimp only at h1
    exact (hload.loaded i (by omega) (by omega)).trans (if_neg (by omega))
  · have hintime := hiff.mpr hdma
    rw [if_neg (by omega), startTransmission_transmissions _ (by omega)]
    exact congrArg (· ++ _) hload.transmissions
  · have hlate := mt hiff.mp hdma
    rw [if_pos (by omega)]
    exact hload.transmissions

/-- **The driver starts a transmission of the packet** when it is not too large and the card has
taken it in time. -/
theorem ne2000SendPacket_sends {c : Card} {length : UInt16} (hlen : length.toNat ≤ 1500)
    (hdma : c.SignalsWithin 0x40 10000) (data : Bytes) :
    ∃ g, (ne2000SendPacket c data length).transmissions = c.transmissions ++ [g] ∧
      Padded g ⟨data, length.toNat⟩ := by
  obtain ⟨g, hpadded, hsends, -⟩ := ne2000SendPacket_cases hlen c data
  exact ⟨g, hsends hdma, hpadded⟩

/-- **Else it sends nothing.** -/
theorem ne2000SendPacket_drops {c : Card} {data : Bytes} {length : UInt16}
    (h : 1500 < length.toNat ∨ ¬ c.SignalsWithin 0x40 10000) :
    (ne2000SendPacket c data length).transmissions = c.transmissions := by
  by_cases hlen : length.toNat ≤ 1500
  · obtain ⟨g, -, -, hdrops⟩ := ne2000SendPacket_cases hlen c data
    exact hdrops (h.resolve_left (by omega))
  · unfold ne2000SendPacket
    rw [if_pos]
    rw [gt_iff_lt, UInt16.lt_iff_toNat_lt]
    exact Nat.not_le.mp hlen

/-! ## The stack over the driver -/

/-- The card after the frames of the stack went through `nic_send`. -/
def transmit (initialized : Bool) (c : Card) (frames : List Frame) : Card :=
  frames.foldl (fun c f => (nicSend initialized c f).2) c

/-- The bits for the end of a remote transfer and for the end of a transmission are set again
and again. -/
def Card.Responds (c : Card) : Prop :=
  ∀ n, (∃ m, n ≤ m ∧ c.isr m &&& 0x40 ≠ 0) ∧ ∃ m, n ≤ m ∧ c.isr m &&& 0x02 ≠ 0

/-- What a result of `netstack_send_udp_low` promises, on an initialised card that responds: `0`
that a transmission of the frame was started, and `-1` for every frame that the driver refuses. -/
def NoSilentDrop (c : Card) (s : Stack) (dstIp : UInt32) (srcPort dstPort : UInt16) (data : Bytes)
    (len : UInt32) (withChecksum : Bool) : Prop :=
  let sending := netstackSendUdpLow true s dstIp srcPort dstPort data len withChecksum
  c.Responds →
    (sending.result = 0 → ∃ f g, sending.frames = [f] ∧ Padded g f ∧
      (transmit true c sending.frames).transmissions = c.transmissions ++ [g]) ∧
    ∀ f ∈ sending.frames, 1500 < f.length → sending.result = -1

/-- **There is no silent drop exactly when** the stack refuses the datagram, or the frame has no
more than 1500 bytes and the card takes it within the driver's patience. -/
theorem noSilentDrop_iff (c : Card) (s : Stack) (dstIp : UInt32) (srcPort dstPort : UInt16)
    (data : Bytes) (len : UInt32) (withChecksum : Bool) :
    NoSilentDrop c s dstIp srcPort dstPort data len withChecksum ↔
      (c.Responds → 42 + len ≤ 1514 → (dstMac s dstIp).isSome = true →
        42 + len ≤ 1500 ∧ c.SignalsWithin 0x40 10000) := by
  unfold NoSilentDrop netstackSendUdpLow
  by_cases hlen : 42 + len > 1514
  · rw [if_pos hlen]
    refine iff_of_true (fun _ => ⟨(fun h => nomatch h), fun f hf => nomatch hf⟩) fun _ hle => ?_
    exact absurd hlen (UInt32.not_lt.mpr hle)
  rw [if_neg hlen]
  have hle : 42 + len ≤ 1514 := UInt32.not_lt.mp hlen
  cases hmac : dstMac s dstIp with
  | none =>
      refine iff_of_true (fun _ => ⟨(fun h => nomatch h), fun f hf h => ?_⟩) fun _ _ h => nomatch h
      rfl
  | some mac =>
      have hsmall : (42 + len).toNat ≤ 1514 := UInt32.le_iff_toNat_le.mp hle
      have hlength : (UInt16.ofNat (42 + len).toNat).toNat = (42 + len).toNat := by
        rw [UInt16.toNat_ofNat']
        omega
      have hcut : 42 + len ≤ 1500 ↔ (42 + len).toNat ≤ 1500 := UInt32.le_iff_toNat_le
      dsimp only
      rw [hcut]
      constructor
      · intro h hresponds _ _
        obtain ⟨hstart, hrefuse⟩ := h hresponds
        by_contra hbad
        -- the driver drops the frame, but the result is `0`
        obtain ⟨f, g, hf, -, hsent⟩ := hstart rfl
        have hcause : 1500 < (UInt16.ofNat (42 + len).toNat).toNat ∨
            ¬ c.SignalsWithin 0x40 10000 := by
          rw [hlength]
          by_contra hneither
          rw [not_or, not_not] at hneither
          exact hbad ⟨by omega, hneither.2⟩
        have hdrop : (ne2000SendPacket c
            (udpBytes s mac dstIp srcPort dstPort data len withChecksum)
            (UInt16.ofNat (42 + len).toNat)).transmissions = c.transmissions :=
          ne2000SendPacket_drops hcause
        have hself : c.transmissions = c.transmissions ++ [g] := hdrop.symm.trans hsent
        simpa using congrArg List.length hself
      · intro h hresponds
        obtain ⟨hfits, hdma⟩ := h hresponds hle rfl
        rw [← hlength] at hfits
        obtain ⟨g, hsent, hpadded⟩ := ne2000SendPacket_sends hfits hdma
          (udpBytes s mac dstIp srcPort dstPort data len withChecksum)
        rw [hlength] at hpadded hfits
        refine ⟨fun _ => ⟨_, g, rfl, hpadded, hsent⟩, fun f hf hbig => ?_⟩
        rw [List.mem_singleton] at hf
        subst hf
        exact absurd hbig (Nat.not_lt.mpr hfits)

/-- A card that is always done. -/
def readyCard : Card where
  mem := fun _ => 0
  curr := 0x41
  bnry := 0x40
  cr := 0x22
  rsar0 := 0
  rsar1 := 0
  rbcr0 := 0
  rbcr1 := 0
  tpsr := 0
  tbcr0 := 0
  tbcr1 := 0
  isr := fun _ => 0x42
  reads := 0
  transmissions := []
  boundaries := []

theorem readyCard_responds : readyCard.Responds := by
  have hset : (0x42 : UInt8) &&& 0x40 ≠ 0 ∧ (0x42 : UInt8) &&& 0x02 ≠ 0 := by decide
  exact fun n => ⟨⟨n, Nat.le_refl n, hset.1⟩, n, Nat.le_refl n, hset.2⟩

/-- The largest datagram of the stack, to the gateway: the driver refuses its frame, and the
result is `0`. -/
theorem not_noSilentDrop_largest :
    ¬ NoSilentDrop readyCard stackQemu 0x0A000202 1024 1024 (fun _ => 0) 1472 false := by
  intro h
  obtain ⟨-, hrefuse⟩ := h readyCard_responds
  have hbad := hrefuse _ (List.mem_singleton_self _) (by decide)
  cases hbad

end MicroKernel.Net
