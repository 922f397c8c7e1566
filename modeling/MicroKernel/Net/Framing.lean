import MicroKernel.Net.Transmit

set_option autoImplicit false

/-! # What the driver writes to the ports of the card

`ne2000_send_packet` as the list of its writes (`sendWrites`), in order: the card that the driver
leaves is the one that these writes lead to (`ne2000SendPacket_writes`). The words for the data
port come from three loops, over the pairs of bytes, the odd last byte and the padding. The
padding starts at `length`, also when the odd byte has already taken the word of that byte: so a
packet of odd length below the minimum is written with one word too many.
-/

namespace MicroKernel.Net

open MicroKernel.Lib Bytes

/-! ## Writes -/

/-- A write of the driver to a port of the card. -/
inductive PortWrite where
  | reg (reg : Reg) (value : UInt8)
  | data (word : UInt16)

/-- The card after a write. -/
def PortWrite.apply (c : Card) : PortWrite → Card
  | .reg r value => ne2000Write c r value
  | .data word => outw c word

/-- The word that a write puts on the data port. -/
def PortWrite.word? : PortWrite → Option UInt16
  | .reg _ _ => none
  | .data word => some word

/-- The words on the data port. -/
def dataWords (writes : List PortWrite) : List UInt16 := writes.filterMap PortWrite.word?

/-- The remote byte count after one more write. -/
def countWrite (count : Nat) : PortWrite → Nat
  | .reg .rbcr0 value => 256 * (count / 256) + value.toNat
  | .reg .rbcr1 value => count % 256 + 256 * value.toNat
  | _ => count

/-- The remote byte count that the writes have programmed. -/
def remoteCount (writes : List PortWrite) : Nat := writes.foldl countWrite 0

/-- The words of the loop over the pairs, `n` of them from index `i` on. -/
def pairWords (data : Bytes) : Nat → Nat → List UInt16
  | 0, _ => []
  | n + 1, i =>
      UInt16.ofNat ((data i).toNat + 256 * (data (i + 1)).toNat) :: pairWords data n (i + 2)

/-- The words of a packet: the pairs, the odd last byte, the padding. -/
def packetWords (data : Bytes) (length sendLength : Nat) : List UInt16 :=
  pairWords data (length / 2) 0
    ++ (if length % 2 = 1 then [UInt16.ofNat (data (length - 1)).toNat] else [])
    ++ List.replicate ((sendLength - length + 1) / 2) 0

/-- The writes of the first half. -/
def loadWrites (data : Bytes) (length sendLength : Nat) : List PortWrite :=
  [.reg .cr 0x22, .reg .rbcr0 (UInt8.ofNat sendLength), .reg .rbcr1 (UInt8.ofNat (sendLength / 256)),
    .reg .isr 0x40, .reg .rsar0 0, .reg .rsar1 txStartPage, .reg .cr 0x12]
    ++ (packetWords data length sendLength).map .data

/-- The writes of the second half. -/
def startWrites (sendLength : Nat) : List PortWrite :=
  [.reg .isr 0x40, .reg .tpsr txStartPage, .reg .tbcr0 (UInt8.ofNat sendLength),
    .reg .tbcr1 (UInt8.ofNat (sendLength / 256)), .reg .cr 0x26]

/-- The writes of `ne2000_send_packet`. -/
def sendWrites (c : Card) (data : Bytes) (length : UInt16) : List PortWrite :=
  if length > 1500 then []
  else
    let sendLength := if length.toNat < 60 then 60 else length.toNat
    let loaded := pollIsr 0x40 10000 (loadPacket c data length.toNat sendLength)
    let started := pollIsr 0x02 100000 (startTransmission loaded.2 sendLength)
    loadWrites data length.toNat sendLength
      ++ if loaded.1 ≤ 0 then []
        else startWrites sendLength ++ if started.1 ≤ 0 then [] else [.reg .isr 0x02]

/-! ## The writes are those of the driver -/

theorem foldl_pairWords (data : Bytes) (n i : Nat) (c : Card) :
    (pairWords data n i).foldl outw c = writeWords data n i c := by
  induction n generalizing i c with
  | zero => rfl
  | succ n ih => exact ih (i + 2) _

theorem foldl_replicate_outw (n : Nat) (c : Card) :
    (List.replicate n 0).foldl outw c = padWords n c := by
  induction n generalizing c with
  | zero => rfl
  | succ n ih => exact ih _

theorem foldl_loadWrites (c : Card) (data : Bytes) (length sendLength : Nat) :
    (loadWrites data length sendLength).foldl PortWrite.apply c
      = loadPacket c data length sendLength := by
  have hdata : ∀ (c : Card) (words : List UInt16),
      (words.map PortWrite.data).foldl PortWrite.apply c = words.foldl outw c :=
    fun c words => List.foldl_map
  unfold loadWrites loadPacket packetWords
  rw [List.foldl_append, hdata, List.foldl_append, List.foldl_append, foldl_pairWords,
    foldl_replicate_outw]
  split <;> rfl

theorem PortWrite.apply_withReads (c : Card) (reads : Nat) (w : PortWrite) :
    w.apply (c.withReads reads) = (w.apply c).withReads reads := by
  cases w with
  | reg r value => cases r <;> rfl
  | data word =>
      show outw (c.withReads reads) word = (outw c word).withReads reads
      unfold outw
      by_cases hcount : c.rbcr = 0
      · rw [if_pos hcount]
        exact if_pos hcount
      · rw [if_neg hcount]
        exact if_neg hcount

theorem foldl_apply_withReads (writes : List PortWrite) (c : Card) (reads : Nat) :
    writes.foldl PortWrite.apply (c.withReads reads)
      = (writes.foldl PortWrite.apply c).withReads reads := by
  induction writes generalizing c with
  | nil => rfl
  | cons w writes ih => rw [List.foldl_cons, List.foldl_cons, w.apply_withReads, ih]

/-- **The card is the one that the writes lead to**, up to how often its status was read. -/
theorem ne2000SendPacket_writes (c : Card) (data : Bytes) (length : UInt16) :
    ∃ reads, ne2000SendPacket c data length
      = ((sendWrites c data length).foldl PortWrite.apply c).withReads reads := by
  unfold ne2000SendPacket sendWrites
  split
  · exact ⟨c.reads, rfl⟩
  · dsimp only
    generalize (if length.toNat < 60 then 60 else length.toNat) = n
    obtain ⟨⟨reads₁, hloaded⟩, -⟩ := pollIsr_spec 0x40 10000 (loadPacket c data length.toNat n)
    generalize pollIsr 0x40 10000 (loadPacket c data length.toNat n) = loaded at hloaded
    obtain ⟨⟨reads₂, hstarted⟩, -⟩ := pollIsr_spec 0x02 100000 (startTransmission loaded.2 n)
    generalize pollIsr 0x02 100000 (startTransmission loaded.2 n) = started at hstarted
    rw [List.foldl_append, foldl_loadWrites]
    by_cases hlate : loaded.1 ≤ 0
    · rw [if_pos hlate, if_pos hlate]
      exact ⟨reads₁, hloaded⟩
    · rw [if_neg hlate, if_neg hlate, List.foldl_append]
      -- the writes of the second half meet the card with more reads
      have hcard : started.2 = ((startWrites n).foldl PortWrite.apply
          (loadPacket c data length.toNat n)).withReads reads₂ := by
        rw [hstarted, hloaded]
        show ((startWrites n).foldl PortWrite.apply (Card.withReads _ reads₁)).withReads reads₂ = _
        rw [foldl_apply_withReads]
        rfl
      by_cases hlate' : started.1 ≤ 0
      · rw [if_pos hlate', if_pos hlate', hcard]
        exact ⟨reads₂ + 1, rfl⟩
      · rw [if_neg hlate', if_neg hlate', hcard]
        exact ⟨reads₂, rfl⟩

/-! ## The words -/

/-- The bytes of words, low byte first. -/
def littleBytes (words : List UInt16) : List UInt8 :=
  words.flatMap fun w => [UInt8.ofNat w.toNat, UInt8.ofNat (w.toNat / 256)]

theorem littleBytes_append (v w : List UInt16) :
    littleBytes (v ++ w) = littleBytes v ++ littleBytes w := List.flatMap_append

theorem littleBytes_replicate (n : Nat) :
    littleBytes (List.replicate n 0) = List.replicate (2 * n) 0 := by
  induction n with
  | zero => rfl
  | succ n ih =>
      show 0 :: 0 :: littleBytes (List.replicate n 0) = _
      rw [ih]
      rfl

/-- A word gives back the two bytes that it was made of. -/
theorem halves_word (a b : UInt8) :
    UInt8.ofNat (UInt16.ofNat (a.toNat + 256 * b.toNat)).toNat = a ∧
      UInt8.ofNat ((UInt16.ofNat (a.toNat + 256 * b.toNat)).toNat / 256) = b := by
  have ha := a.toNat_lt
  have hb := b.toNat_lt
  rw [UInt16.toNat_ofNat', ← UInt8.toNat_inj, ← UInt8.toNat_inj, UInt8.toNat_ofNat',
    UInt8.toNat_ofNat']
  omega

theorem pairWords_length (data : Bytes) (n i : Nat) : (pairWords data n i).length = n := by
  induction n generalizing i with
  | zero => rfl
  | succ n ih => exact congrArg (· + 1) (ih (i + 2))

theorem littleBytes_pairWords (data : Bytes) (n i : Nat) :
    littleBytes (pairWords data n i) = (List.range' i (2 * n)).map data := by
  induction n generalizing i with
  | zero => rfl
  | succ n ih =>
      obtain ⟨h0, h1⟩ := halves_word (data i) (data (i + 1))
      calc littleBytes (pairWords data (n + 1) i)
          = [_, _] ++ littleBytes (pairWords data n (i + 2)) := rfl
        _ = [data i, data (i + 1)] ++ littleBytes (pairWords data n (i + 2)) := by rw [h0, h1]
        _ = data i :: data (i + 1) :: (List.range' (i + 2) (2 * n)).map data := by
            rw [ih]
            rfl
        _ = (List.range' i (2 * (n + 1))).map data := rfl

/-- The words of a packet are its bytes, followed by zeros. -/
theorem littleBytes_packetWords (data : Bytes) (length sendLength : Nat) :
    ∃ zeros, littleBytes (packetWords data length sendLength)
      = (List.range length).map data ++ List.replicate zeros 0 := by
  have hpairs : littleBytes (pairWords data (length / 2) 0)
      = (List.range (2 * (length / 2))).map data := by
    rw [littleBytes_pairWords, List.range_eq_range']
  unfold packetWords
  rw [littleBytes_append, littleBytes_append, littleBytes_replicate, hpairs]
  by_cases hodd : length % 2 = 1
  · obtain ⟨m, rfl⟩ : ∃ m, length = 2 * m + 1 := ⟨length / 2, by omega⟩
    -- the last byte is in a word of its own, with a zero behind it
    have hlast : littleBytes [UInt16.ofNat (data (2 * m)).toNat] = [data (2 * m), 0] := by
      have h := halves_word (data (2 * m)) 0
      rw [show (0 : UInt8).toNat = 0 from rfl, Nat.mul_zero, Nat.add_zero] at h
      show [UInt8.ofNat _, UInt8.ofNat _] = _
      rw [h.1, h.2]
    rw [if_pos hodd, Nat.add_sub_cancel, hlast, show 2 * ((2 * m + 1) / 2) = 2 * m by omega,
      List.range_succ, List.map_append]
    refine ⟨2 * ((sendLength - (2 * m + 1) + 1) / 2) + 1, ?_⟩
    rw [List.replicate_succ]
    simp only [List.map_cons, List.map_nil, List.append_assoc, List.cons_append, List.nil_append]
  · rw [if_neg hodd, show 2 * (length / 2) = length by omega]
    exact ⟨_, congrArg (· ++ _) (List.append_nil _)⟩

theorem packetWords_length (data : Bytes) (length sendLength : Nat) :
    (packetWords data length sendLength).length
      = (length + 1) / 2 + (sendLength - length + 1) / 2 := by
  unfold packetWords
  rw [List.length_append, List.length_append, pairWords_length, List.length_replicate]
  split
  · rw [List.length_singleton]
    omega
  · rw [List.length_nil]
    omega

/-! ## Framing -/

theorem dataWords_map_data (words : List UInt16) : dataWords (words.map .data) = words := by
  unfold dataWords
  rw [List.filterMap_map]
  exact List.filterMap_some

theorem foldl_countWrite_data (words : List UInt16) (count : Nat) :
    (words.map PortWrite.data).foldl countWrite count = count := by
  induction words with
  | nil => rfl
  | cons _ _ ih => exact ih

/-- The second half writes no data and programs no remote transfer. -/
theorem sendWrites_load {length : UInt16} (hlen : length.toNat ≤ 1500) (c : Card) (data : Bytes) :
    dataWords (sendWrites c data length)
        = packetWords data length.toNat (max length.toNat 60) ∧
      remoteCount (sendWrites c data length) = max length.toNat 60 := by
  have hfits : ¬ length > 1500 := by
    rw [gt_iff_lt, UInt16.lt_iff_toNat_lt]
    exact Nat.not_lt.mpr hlen
  have hmax : (if length.toNat < 60 then 60 else length.toNat) = max length.toNat 60 := by
    split <;> omega
  unfold sendWrites
  rw [if_neg hfits]
  dsimp only
  rw [hmax]
  generalize hn : max length.toNat 60 = n
  generalize (pollIsr 0x40 10000 (loadPacket c data length.toNat n)) = loaded
  generalize (pollIsr 0x02 100000 (startTransmission loaded.2 n)) = started
  generalize hrest : (if loaded.1 ≤ 0 then [] else startWrites n ++
    if started.1 ≤ 0 then [] else [PortWrite.reg .isr 0x02]) = rest
  have hquiet : dataWords rest = [] ∧ ∀ count, rest.foldl countWrite count = count := by
    rw [← hrest]
    split
    · exact ⟨rfl, fun _ => rfl⟩
    · split
      · exact ⟨rfl, fun _ => rfl⟩
      · exact ⟨rfl, fun _ => rfl⟩
  constructor
  · show List.filterMap PortWrite.word? _ = _
    rw [List.filterMap_append]
    show dataWords _ ++ dataWords rest = _
    rw [hquiet.1, List.append_nil]
    exact dataWords_map_data _
  · show List.foldl countWrite 0 _ = n
    rw [List.foldl_append, hquiet.2]
    unfold loadWrites
    rw [List.foldl_append, foldl_countWrite_data]
    show (256 * (0 / 256) + (UInt8.ofNat n).toNat) % 256
      + 256 * (UInt8.ofNat (n / 256)).toNat = n
    rw [UInt8.toNat_ofNat', UInt8.toNat_ofNat']
    omega

/-- The writes for a packet are framed: as many words as the programmed byte count takes, and
their bytes are the packet, followed by zeros. -/
structure Framed (data : Bytes) (length : Nat) (writes : List PortWrite) : Prop where
  count : remoteCount writes = max length 60
  words : (dataWords writes).length = (remoteCount writes + 1) / 2
  bytes : ∃ zeros, littleBytes (dataWords writes)
    = (List.range length).map data ++ List.replicate zeros 0

/-- **A packet is framed exactly when** its length is even or reaches the minimum. -/
theorem framed_sendWrites_iff (c : Card) (data : Bytes) (length : UInt16)
    (hlen : length.toNat ≤ 1500) :
    Framed data length.toNat (sendWrites c data length) ↔
      length.toNat % 2 = 0 ∨ 60 ≤ length.toNat := by
  obtain ⟨hwords, hcount⟩ := sendWrites_load hlen c data
  have hlength := packetWords_length data length.toNat (max length.toNat 60)
  constructor
  · intro h
    have hcounted := h.words
    rw [hcount, hwords, hlength] at hcounted
    omega
  · intro h
    refine ⟨hcount, ?_, ?_⟩
    · rw [hcount, hwords, hlength]
      omega
    · rw [hwords]
      exact littleBytes_packetWords data length.toNat (max length.toNat 60)

theorem framed_sendWrites_iff_64 :
    Framed (fun _ => 0) (64 : UInt16).toNat (sendWrites readyCard (fun _ => 0) 64) ↔
      (64 : UInt16).toNat % 2 = 0 ∨ 60 ≤ (64 : UInt16).toNat :=
  framed_sendWrites_iff readyCard (fun _ => 0) 64 (by decide)

/-- A packet of 43 bytes, as of a datagram of one byte: 31 words are written for a transfer of 60
bytes. -/
theorem not_framed_sendWrites_43 :
    ¬ Framed (fun _ => 0xFF) 43 (sendWrites readyCard (fun _ => 0xFF) 43) := by
  intro h
  obtain ⟨hwords, hcount⟩ := @sendWrites_load 43 (by decide) readyCard fun _ => 0xFF
  have hcounted := h.words
  rw [hcount, hwords, packetWords_length] at hcounted
  exact absurd hcounted (by decide)

end MicroKernel.Net
