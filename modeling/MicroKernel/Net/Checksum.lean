import MicroKernel.Net.EchoReply
import MicroKernel.Net.Udp

set_option autoImplicit false

/-! # Checksums on the wire

`ip_checksum` adds the words of a header in network order, but its result is stored through a
field of a little-endian machine. So the two bytes of every checksum are sent in the wrong order,
and every checksum received is compared in the wrong order. What is sent is right when the words
add up to a multiple of 257 only, and what is received is judged rightly when the order of its two
bytes makes no difference (`wireChecksums_iff`).
-/

namespace MicroKernel.Net

open MicroKernel.Lib Bytes

/-! ## What `ip_checksum` computes -/

theorem checksumAccumulate_toNat (p : Bytes) (a n : Nat) (sum : UInt32)
    (h : sum.toNat + (words p a n).sum < 2 ^ 32) :
    (checksumAccumulate p a n sum).toNat = sum.toNat + (words p a n).sum := by
  induction a, n using words.induct generalizing sum with
  | case1 a n ih =>
      rw [words, List.sum_cons] at h ⊢
      have hword := word_lt p a
      have hadd : (sum + UInt32.ofNat (256 * (p a).toNat + (p (a + 1)).toNat)).toNat
          = sum.toNat + word p a := by
        rw [UInt32.toNat_add, UInt32.toNat_ofNat']
        unfold word at hword h ⊢
        omega
      rw [checksumAccumulate, ih _ (by omega), hadd]
      omega
  | case2 a =>
      rw [words, List.sum_singleton] at h ⊢
      have hp := (p a).toNat_lt
      rw [checksumAccumulate, UInt32.toNat_add, UInt32.toNat_ofNat']
      omega
  | case3 a => rw [words, checksumAccumulate, List.sum_nil, Nat.add_zero]

theorem foldLoop_eq (k n : Nat) (h : n ≤ k) : foldLoop k n = endAround n := by
  induction k generalizing n with
  | zero =>
      have hn : n = 0 := by omega
      subst hn
      rfl
  | succ k ih =>
      unfold foldLoop
      by_cases hn : n / 65536 ≠ 0
      · rw [if_pos hn, ih _ (by omega), endAround_fold]
      · rw [if_neg hn, endAround_of_lt (by omega)]

theorem foldChecksum_toNat (sum : UInt32) :
    (foldChecksum sum).toNat = 65535 - endAround sum.toNat := by
  rw [foldChecksum, foldLoop_eq _ _ (Nat.le_refl _), UInt16.toNat_not, UInt16.toNat_ofNat',
    Nat.mod_eq_of_lt (endAround_lt _)]
  rfl

/-- **`ip_checksum` is the complement of the sum of the words.** -/
theorem ipChecksum_toNat (p : Bytes) (a : Nat) (length : UInt16) :
    (ipChecksum p a length).toNat = 65535 - endAround (words p a length.toNat).sum := by
  have hlen := length.toNat_lt
  have hle := words_sum_le p a length.toNat
  have hsum := checksumAccumulate_toNat p a length.toNat 0 (by rw [UInt32.toNat_zero]; omega)
  rw [UInt32.toNat_zero, Nat.zero_add] at hsum
  rw [ipChecksum, foldChecksum_toNat, hsum]

/-- A word without a carry is left as it is. -/
theorem foldLoop_of_lt (k : Nat) {n : Nat} (h : n < 65536) : foldLoop k n = n := by
  cases k with
  | zero => rfl
  | succ k => rw [foldLoop, if_neg (by omega)]

/-- Two rounds are enough for every 32-bit sum: the first leaves a carry of one at most. -/
theorem foldLoop_rounds {k n : Nat} (hk : 2 ≤ k) (hn : n < 2 ^ 32) : foldLoop k n = endAround n := by
  obtain ⟨k, rfl⟩ : ∃ j, k = j + 2 := ⟨k - 2, by omega⟩
  rw [foldLoop]
  by_cases h1 : n / 65536 ≠ 0
  · rw [if_pos h1, foldLoop, ← endAround_fold n]
    by_cases h2 : (n % 65536 + n / 65536) / 65536 ≠ 0
    · rw [if_pos h2, foldLoop_of_lt k (by omega), ← endAround_fold, endAround_of_lt (by omega)]
    · rw [if_neg h2, endAround_of_lt (by omega)]
  · rw [if_neg h1, endAround_of_lt (by omega)]

/-- Three stretches of bytes, one behind the other in the sum, as `udp_checksum` adds them. -/
theorem checksumAccumulate_chained (p q r : Bytes) (a b c : Nat) {n : Nat} (hn : n ≤ 65535) :
    (checksumAccumulate r c n (checksumAccumulate q b 8 (checksumAccumulate p a 12 0))).toNat
      = (words p a 12).sum + (words q b 8).sum + (words r c n).sum := by
  have hp := words_sum_le p a 12
  have hq := words_sum_le q b 8
  have hr := words_sum_le r c n
  have h1 := checksumAccumulate_toNat p a 12 0 (by rw [UInt32.toNat_zero]; omega)
  rw [UInt32.toNat_zero, Nat.zero_add] at h1
  have h2 := checksumAccumulate_toNat q b 8 (checksumAccumulate p a 12 0) (by omega)
  rw [checksumAccumulate_toNat r c n _ (by omega), h2, h1]

/-- The pseudo header of `udp_checksum`. -/
def pseudoHeader (p : Bytes) (len : UInt32) : Bytes :=
  let pseudo : Bytes := fun _ => 0
  let pseudo := setField32 pseudo 0 (field32 p 26)
  let pseudo := setField32 pseudo 4 (field32 p 30)
  let pseudo := store8 pseudo 8 0
  let pseudo := store8 pseudo 9 17
  setField16 pseudo 10 (htons (8 + len.toUInt16))

theorem udpChecksum_eq (p data : Bytes) (len : UInt32) :
    udpChecksum p data len = foldChecksum (checksumAccumulate data 0 len.toNat
      (checksumAccumulate p 34 8 (checksumAccumulate (pseudoHeader p len) 0 12 0))) := rfl

theorem udpChecksum_toNat (p data : Bytes) {len : UInt32} (hlen : len.toNat ≤ 65535) :
    (udpChecksum p data len).toNat = 65535 - onesSum
      (words (pseudoHeader p len) 0 12 ++ words p 34 8 ++ words data 0 len.toNat) := by
  have hlt : ∀ w ∈ words (pseudoHeader p len) 0 12 ++ words p 34 8 ++ words data 0 len.toNat,
      w < 65536 := by
    intro w hw
    rw [List.mem_append, List.mem_append] at hw
    rcases hw with (hw | hw) | hw <;> exact words_lt _ _ _ w hw
  rw [udpChecksum_eq, foldChecksum_toNat, checksumAccumulate_chained _ _ _ _ _ _ hlen,
    onesSum_eq hlt, List.sum_append, List.sum_append]

/-- A checksum that is put into a zeroed field, high byte first. -/
theorem onesSum_bigEndian {p q : Bytes} {a k : Nat} {length : UInt16}
    (hk : 2 * k + 2 ≤ length.toNat) (hzero : p (a + 2 * k) = 0 ∧ p (a + 2 * k + 1) = 0)
    (hword : word q (a + 2 * k) = (ipChecksum p a length).toNat)
    (hsame : ∀ x, x ≠ a + 2 * k → x ≠ a + 2 * k + 1 → q x = p x) :
    onesSum (words q a length.toNat) = 0xFFFF := by
  rw [onesSum_eq (words_lt _ _ _), words_sum_set hk hzero hsame, hword, ipChecksum_toNat]
  exact endAround_add_compl _

/-- **The checksum code is RFC 1071's arithmetic**: the sum is exact in 32 bits, over one stretch of
bytes and over the three of `udp_checksum`; the loop of `fold_checksum` has ended after two rounds;
`ip_checksum` is the complement of the one's-complement sum of the big-endian words; and where it
stands in a field that was zero, the words add up to all ones. -/
theorem checksum_ones :
    (∀ (p : Bytes) (a n : Nat), n ≤ 65535 →
      (checksumAccumulate p a n 0).toNat = (words p a n).sum) ∧
    (∀ (p q r : Bytes) (a b c n : Nat), n ≤ 65535 →
      (checksumAccumulate r c n (checksumAccumulate q b 8 (checksumAccumulate p a 12 0))).toNat
        = (words p a 12).sum + (words q b 8).sum + (words r c n).sum) ∧
    (∀ (p data : Bytes) (len : UInt32), len.toNat ≤ 65535 →
      (udpChecksum p data len).toNat = 0xFFFF - onesSum
        (words (pseudoHeader p len) 0 12 ++ words p 34 8 ++ words data 0 len.toNat)) ∧
    (∀ (sum : UInt32) (k : Nat), 2 ≤ k → foldLoop k sum.toNat < 65536 ∧
      foldLoop k sum.toNat = foldLoop sum.toNat sum.toNat) ∧
    (∀ (p : Bytes) (a : Nat) (length : UInt16),
      (ipChecksum p a length).toNat = 0xFFFF - onesSum (words p a length.toNat)) ∧
    (∀ (p q : Bytes) (a k : Nat) (length : UInt16), 2 * k + 2 ≤ length.toNat →
      p (a + 2 * k) = 0 ∧ p (a + 2 * k + 1) = 0 →
      word q (a + 2 * k) = (ipChecksum p a length).toNat →
      (∀ x, x ≠ a + 2 * k → x ≠ a + 2 * k + 1 → q x = p x) →
      onesSum (words q a length.toNat) = 0xFFFF) := by
  refine ⟨fun p a n hn => ?_, fun p q r a b c n hn => checksumAccumulate_chained p q r a b c hn,
    fun p data len hlen => udpChecksum_toNat p data hlen, fun sum k hk => ?_,
    fun p a length => ?_, fun p q a k length hk hzero => onesSum_bigEndian hk hzero⟩
  · have hle := words_sum_le p a n
    have hsum := checksumAccumulate_toNat p a n 0 (by rw [UInt32.toNat_zero]; omega)
    rwa [UInt32.toNat_zero, Nat.zero_add] at hsum
  · rw [foldLoop_rounds hk sum.toNat_lt, foldLoop_eq _ _ (Nat.le_refl _)]
    exact ⟨endAround_lt _, rfl⟩
  · rw [ipChecksum_toNat, onesSum_eq (words_lt _ _ _)]

/-- A header of twenty bytes without its checksum. -/
def sampleHeader : Bytes := fun i =>
  ([0x45, 0, 0, 0x73, 0, 0, 0x40, 0, 0x40, 0x11, 0, 0, 0xC0, 0xA8, 0, 1, 0xC0, 0xA8, 0, 0xC7]
    : List UInt8).getD i 0

theorem checksum_ones_header :
    onesSum (words (store8 (store8 sampleHeader 10 0xB8) 11 0x61) 0 (20 : UInt16).toNat)
      = 0xFFFF := by
  refine checksum_ones.2.2.2.2.2 sampleHeader _ 0 5 20 (by decide) ⟨rfl, rfl⟩ (by decide)
    fun x h10 h11 => ?_
  rw [store8_ne _ _ h11, store8_ne _ _ h10]

/-- **A checksum that is stored by the machine** is right on the wire when the words add up to a
multiple of 257. -/
theorem onesSum_setField16_iff {p q : Bytes} {a n k : Nat} {length : UInt16}
    (hlen : n = length.toNat) (hk : 2 * k + 2 ≤ n)
    (hzero : p (a + 2 * k) = 0 ∧ p (a + 2 * k + 1) = 0)
    (hq : ∀ i, i < n → q (a + i) = setField16 p (a + 2 * k) (ipChecksum p a length) (a + i)) :
    onesSum (words q a n) = 0xFFFF ↔ (words p a n).sum % 257 = 0 := by
  rw [words_congr hq, onesSum_eq (words_lt _ _ _),
    words_sum_set hk hzero fun x h1 h2 => setField16_outside p _ (by omega),
    word_setField16, ipChecksum_toNat, ← hlen, endAround_add_swap16]

/-! ## Headers and messages that are sent -/

/-- The frame carries an IPv4 packet. -/
def IsIpv4 (p : Bytes) : Prop := word p 12 = 0x0800

/-- The bytes of the IPv4 header add up to all ones. -/
def HeaderSums (p : Bytes) : Prop := onesSum (words p 14 (ihlBytes p 14)) = 0xFFFF

/-- The bytes of the ICMP message add up to all ones. -/
def MessageSums (f : Frame) : Prop := onesSum (words f.bytes 34 (f.length - 34)) = 0xFFFF

instance (p : Bytes) : Decidable (IsIpv4 p) := inferInstanceAs (Decidable (_ = _))

instance (p : Bytes) : Decidable (HeaderSums p) := inferInstanceAs (Decidable (_ = _))

/-- The words of the IP header, the checksum apart, added up. -/
def headerSum (s : Stack) (totalLength : UInt16) (protocol : UInt8) (dstIp : UInt32) : Nat :=
  0x4500 + totalLength.toNat + s.ipIdentification.toNat + (0x4000 + protocol.toNat)
    + (s.netConfig.ipAddress.toNat / 2 ^ 16 + s.netConfig.ipAddress.toNat % 2 ^ 16)
    + (dstIp.toNat / 2 ^ 16 + dstIp.toNat % 2 ^ 16)

/-- The words of an ICMP message, the checksum apart, added up. -/
def messageSum (type : UInt8) (id seq : UInt16) (mem : Bytes) (data dataLen : Nat) : Nat :=
  256 * type.toNat + id.toNat + seq.toNat + (words mem data dataLen).sum

theorem words_setIpFields (p : Bytes) (s : Stack) (totalLength : UInt16) (protocol : UInt8)
    (dstIp : UInt32) :
    (words (setIpFields p s totalLength protocol dstIp) 14 20).sum
      = headerSum s totalLength protocol dstIp := by
  have hsrc := fun p => word_setField32_htonl p 26 s.netConfig.ipAddress
  have hdst := fun p => word_setField32_htonl p 30 dstIp
  have hzero : swap16 (0 : UInt16).toNat = 0 := rfl
  unfold setIpFields headerSum
  simp only [words, List.sum_cons, List.sum_nil, Nat.reduceAdd] at hsrc hdst ⊢
  simp (disch := omega) only [word_store8_ne, word_setField16_ne, word_setField32_ne,
    word_store8, word_setField16, swap16_htons, hsrc, hdst, hzero]
  simp only [UInt8.reduceToNat]
  omega

/-- The header is judged by nothing but its own bytes. -/
theorem headerSums_iff {p q : Bytes} (s : Stack) (totalLength : UInt16) (protocol : UInt8)
    (dstIp : UInt32)
    (h : ∀ x, 14 ≤ x → x < 34 → q x = setIpHeader p s totalLength protocol dstIp x) :
    HeaderSums q ↔ headerSum s totalLength protocol dstIp % 257 = 0 := by
  have hihl : ihlBytes q 14 = 20 := by
    have h14 : q 14 = 0x45 := h 14 (by decide) (by decide)
    rw [ihlBytes, h14]
    rfl
  have hzero : setIpFields p s totalLength protocol dstIp 24 = 0 ∧
      setIpFields p s totalLength protocol dstIp 25 = 0 := ⟨rfl, rfl⟩
  rw [HeaderSums, hihl, ← words_setIpFields p]
  have hlen : 20 = (20 : UInt16).toNat := rfl
  exact onesSum_setField16_iff (k := 5) hlen (by decide) hzero
    fun i hi => h (14 + i) (by omega) (by omega)

theorem words_setIcmpFields (p : Bytes) (type : UInt8) (id seq : UInt16) (mem : Bytes)
    (data : Nat) (dataLen : UInt16) :
    (words (setIcmpFields p type id seq mem data dataLen) 34 (8 + dataLen.toNat)).sum
      = messageSum type id seq mem data dataLen.toNat := by
  have hdata : words (setIcmpFields p type id seq mem data dataLen) 42 dataLen.toNat
      = words mem data dataLen.toNat := by
    apply words_congr
    intro i hi
    unfold setIcmpFields
    rw [copy_inside _ _ _ (by omega) (by omega), Nat.add_sub_cancel_left]
  have hcopy : ∀ (q : Bytes) (a : Nat), a + 2 ≤ 42 →
      word (copy q 42 mem data dataLen.toNat) a = word q a := fun q a ha =>
    word_congr (copy_outside q mem data (Or.inl (by omega)))
      (copy_outside q mem data (Or.inl (by omega)))
  have hzero : swap16 (0 : UInt16).toNat = 0 := rfl
  rw [show 8 + dataLen.toNat = dataLen.toNat + 2 + 2 + 2 + 2 by omega]
  simp only [words, List.sum_cons, Nat.reduceAdd, hdata]
  unfold setIcmpFields messageSum
  simp (disch := omega) only [hcopy, word_setField16_ne, word_store8, word_setField16,
    swap16_htons, hzero]
  simp only [UInt8.toNat_zero]
  omega

theorem messageSums_iff {p : Bytes} (type : UInt8) (id seq : UInt16) (mem : Bytes) (data : Nat)
    {dataLen : UInt16} (h : dataLen.toNat + 8 < 65536) :
    MessageSums ⟨setIcmp p type id seq mem data dataLen, 42 + dataLen.toNat⟩ ↔
      messageSum type id seq mem data dataLen.toNat % 257 = 0 := by
  have hlen : (8 + dataLen).toNat = 8 + dataLen.toNat := by
    rw [UInt16.toNat_add]
    show (8 + dataLen.toNat) % 2 ^ 16 = _
    exact Nat.mod_eq_of_lt (by omega)
  have hzero : setIcmpFields p type id seq mem data dataLen 36 = 0 ∧
      setIcmpFields p type id seq mem data dataLen 37 = 0 := by
    unfold setIcmpFields
    rw [copy_outside _ _ _ (Or.inl (by decide)), copy_outside _ _ _ (Or.inl (by decide))]
    exact ⟨rfl, rfl⟩
  have hsub : 42 + dataLen.toNat - 34 = 8 + dataLen.toNat := by omega
  rw [MessageSums, hsub, ← words_setIcmpFields p]
  exact onesSum_setField16_iff (k := 1) hlen.symm (by omega) hzero fun i _ => rfl

/-! ## The senders -/

/-- What comes behind the IP header leaves it as it is. -/
theorem setIcmp_before (p : Bytes) (type : UInt8) (id seq : UInt16) (mem : Bytes) (data : Nat)
    (dataLen : UInt16) {x : Nat} (hx : x < 34) :
    setIcmp p type id seq mem data dataLen x = p x := by
  unfold setIcmp setIcmpFields
  simp (disch := omega) only [setField16_outside, copy_outside, store8_ne]

theorem udpBytes_before (s : Stack) (mac : Mac) (dstIp : UInt32) (srcPort dstPort : UInt16)
    (data : Bytes) (len : UInt32) (withChecksum : Bool) {x : Nat} (hx : x < 34) :
    udpBytes s mac dstIp srcPort dstPort data len withChecksum x
      = setIpHeader (setEthHeader (fun _ => 0) s mac) s (28 + len.toUInt16) 17 dstIp x := by
  unfold udpBytes
  split <;> simp (disch := omega) only [setField16_outside, copy_outside]

/-- An ARP request has no IP header. -/
theorem not_isIpv4_arp (s : Stack) (ip : UInt32) : ¬ IsIpv4 (arpSendRequest s ip).bytes := by
  have htype : word (arpSendRequest s ip).bytes 12 = 0x0806 := rfl
  rw [IsIpv4, htype]
  decide

/-- The frames of `netstack_send_udp_low`. -/
theorem headerSums_udp_iff (initialized : Bool) (s : Stack) (dstIp : UInt32)
    (srcPort dstPort : UInt16) (data : Bytes) (len : UInt32) (withChecksum : Bool) :
    (∀ f ∈ (netstackSendUdpLow initialized s dstIp srcPort dstPort data len withChecksum).frames,
        IsIpv4 f.bytes → HeaderSums f.bytes) ↔
      (42 + len ≤ 1514 → (dstMac s dstIp).isSome = true →
        headerSum s (28 + len.toUInt16) 17 dstIp % 257 = 0) := by
  unfold netstackSendUdpLow
  by_cases hlen : 42 + len > 1514
  · rw [if_pos hlen]
    exact iff_of_true (fun f hf => nomatch hf) fun hle => absurd hlen (UInt32.not_lt.mpr hle)
  rw [if_neg hlen]
  cases hmac : dstMac s dstIp with
  | none =>
      refine iff_of_true (fun f hf hip => ?_) fun _ hsome => nomatch hsome
      rw [List.mem_singleton] at hf
      subst hf
      exact absurd hip (not_isIpv4_arp s _)
  | some mac =>
      have hbefore : ∀ x, x < 34 → udpBytes s mac dstIp srcPort dstPort data len withChecksum x
          = setIpHeader (setEthHeader (fun _ => 0) s mac) s (28 + len.toUInt16) 17 dstIp x :=
        fun x hx => udpBytes_before s mac dstIp srcPort dstPort data len withChecksum hx
      have hip : IsIpv4 (udpBytes s mac dstIp srcPort dstPort data len withChecksum) :=
        word_congr (hbefore 12 (by decide)) (hbefore 13 (by decide))
      have hsum := headerSums_iff s _ _ _ fun x _ hx => hbefore x hx
      constructor
      · intro h _ _
        exact hsum.mp (h _ (List.mem_singleton_self _) hip)
      · intro h f hf _
        rw [List.mem_singleton] at hf
        subst hf
        exact hsum.mpr (h (UInt32.not_lt.mp hlen) rfl)

/-- The frames of `icmp_send_echo_reply`, with data that its caller can pass. -/
theorem sums_echoReply_iff (s : Stack) (dstIp : UInt32) (id seq : UInt16) (mem : Bytes)
    (data : Nat) {dataLen : UInt16} (hdata : dataLen.toNat + 8 < 65536) :
    (∀ r, Output.echoReply r ∈ (icmpSendEchoReply s dstIp id seq mem data dataLen).2 →
        HeaderSums r.frame.bytes ∧ MessageSums r.frame) ↔
      ((dstMac s dstIp).isSome = true → headerSum s (28 + dataLen) 1 dstIp % 257 = 0 ∧
        messageSum 0 id seq mem data dataLen.toNat % 257 = 0) := by
  have hmem := fun r => icmpSendEchoReply_eq s dstIp id seq mem data dataLen (r := r)
  cases hmac : dstMac s dstIp with
  | none =>
      refine iff_of_true (fun r hr => ?_) fun hsome => nomatch hsome
      obtain ⟨mac, hmac', -⟩ := (hmem r).mp hr
      rw [hmac] at hmac'
      cases hmac'
  | some mac =>
      have hheader := headerSums_iff s (28 + dataLen) 1 dstIp
        (p := setEthHeader (fun _ => 0) s mac)
        fun x _ hx => setIcmp_before _ 0 id seq mem data dataLen hx
      have hmessage := messageSums_iff 0 id seq mem data hdata
        (p := setIpHeader (setEthHeader (fun _ => 0) s mac) s (28 + dataLen) 1 dstIp)
      rw [← echoReplyBytes_eq] at hheader hmessage
      constructor
      · intro h _
        obtain ⟨h1, h2⟩ := h _ ((hmem _).mpr ⟨mac, hmac, rfl⟩)
        exact ⟨hheader.mp h1, hmessage.mp h2⟩
      · intro h r hr
        obtain ⟨mac', hmac', rfl⟩ := (hmem r).mp hr
        rw [hmac, Option.some.injEq] at hmac'
        subst hmac'
        exact ⟨hheader.mpr (h rfl).1, hmessage.mpr (h rfl).2⟩

/-- The frames of `icmp_send_echo_request`. -/
theorem sums_echoRequest_iff (s : Stack) (dstIp : UInt32) (id seq : UInt16) :
    (∀ f ∈ (icmpSendEchoRequest s dstIp id seq).2,
        IsIpv4 f.bytes → HeaderSums f.bytes ∧ MessageSums f) ↔
      ((dstMac s dstIp).isSome = true → headerSum s 32 1 dstIp % 257 = 0 ∧
        messageSum 8 id seq pingData 0 4 % 257 = 0) := by
  unfold icmpSendEchoRequest
  cases hmac : dstMac s dstIp with
  | none =>
      refine iff_of_true (fun f hf hip => ?_) fun hsome => nomatch hsome
      rw [List.mem_singleton] at hf
      subst hf
      exact absurd hip (not_isIpv4_arp s _)
  | some mac =>
      have hbefore : ∀ x, x < 34 → echoRequestBytes s mac dstIp id seq x
          = setIpHeader (setEthHeader (fun _ => 0) s mac) s (28 + 4) 1 dstIp x :=
        fun x hx => setIcmp_before _ 8 id seq pingData 0 4 hx
      have hip : IsIpv4 (echoRequestBytes s mac dstIp id seq) :=
        word_congr (hbefore 12 (by decide)) (hbefore 13 (by decide))
      have hheader : HeaderSums (echoRequestBytes s mac dstIp id seq) ↔
          headerSum s 32 1 dstIp % 257 = 0 := headerSums_iff s _ _ _ fun x _ hx => hbefore x hx
      have hmessage : MessageSums ⟨echoRequestBytes s mac dstIp id seq, 46⟩ ↔
          messageSum 8 id seq pingData 0 4 % 257 = 0 := by
        have hdata : (4 : UInt16).toNat + 8 < 65536 := by decide
        exact messageSums_iff 8 id seq pingData 0 hdata
      constructor
      · intro h _
        obtain ⟨h1, h2⟩ := h _ (List.mem_singleton_self _) hip
        exact ⟨hheader.mp h1, hmessage.mp h2⟩
      · intro h f hf _
        rw [List.mem_singleton] at hf
        subst hf
        exact ⟨hheader.mpr (h rfl).1, hmessage.mpr (h rfl).2⟩

/-! ## The check of a received header -/

theorem field16_toNat (p : Bytes) (a : Nat) : (field16 p a).toNat = swap16 (word p a) := by
  have h0 := (p a).toNat_lt
  have h1 := (p (a + 1)).toNat_lt
  rw [field16, UInt16.toNat_ofNat', Nat.mod_eq_of_lt (load16_lt p a)]
  unfold load16 swap16 word
  omega

/-- The checksum that the code expects in a received header. -/
def expectedChecksum (p : Bytes) : Nat :=
  (ipChecksum (setField16 p 24 0) 14 (UInt16.ofNat (ihlBytes p 14))).toNat

/-- The checksum field reads the same in both orders, or it is wrong in both; and it is not all
ones over words that are all ones without it, a second zero that the code does not know. -/
def OrderIrrelevant (p : Bytes) : Prop :=
  ¬ (word p 24 = 0xFFFF ∧ expectedChecksum p = 0) ∧
    (word p 24 % 257 = 0 ∨ (word p 24 ≠ expectedChecksum p ∧
      swap16 (word p 24) ≠ expectedChecksum p))

/-- **The check of `handle_ip_packet` and `netstack_receive_udp_low`** on a header of legal
length. -/
theorem checksumMatches_iff_headerSums {p : Bytes} (hihl : 20 ≤ ihlBytes p 14) :
    (checksumMatches p 14 ↔ HeaderSums p) ↔ OrderIrrelevant p := by
  have hle := ihlBytes_le p 14
  have hword := word_lt p 24
  have hcode : checksumMatches p 14 ↔ swap16 (word p 24) = expectedChecksum p := by
    rw [checksumMatches, ← UInt16.toNat_inj, field16_toNat]
    rfl
  have hzero : setField16 p 24 0 24 = 0 ∧ setField16 p 24 0 25 = 0 := ⟨rfl, rfl⟩
  have hsum := words_sum_set (p := p) (q := setField16 p 24 0) (a := 14) (n := ihlBytes p 14)
    (k := 5) (by omega) hzero fun x h1 h2 => (setField16_outside p 0 (by omega)).symm
  have hlen : (UInt16.ofNat (ihlBytes p 14)).toNat = ihlBytes p 14 :=
    Nat.mod_eq_of_lt (by omega)
  have hexpected : expectedChecksum p
      = 65535 - endAround (words (setField16 p 24 0) 14 (ihlBytes p 14)).sum := by
    rw [expectedChecksum, ipChecksum_toNat, hlen]
  -- the first word is not zero, as the header length is in it
  have hpos : 0 < (words (setField16 p 24 0) 14 (ihlBytes p 14)).sum := by
    have hfirst : 0 < (p 14).toNat := by
      have hand : (p 14 &&& 0x0F).toNat ≤ (p 14).toNat := by
        rw [UInt8.toNat_and]
        exact Nat.and_le_left
      unfold ihlBytes at hihl
      omega
    obtain ⟨n, hn⟩ : ∃ n, ihlBytes p 14 = n + 2 := ⟨ihlBytes p 14 - 2, by omega⟩
    rw [hn, words, List.sum_cons]
    have h14 : word (setField16 p 24 0) 14 = word p 14 := word_setField16_ne p 0 (by decide)
    rw [h14]
    unfold word
    omega
  have hlt := endAround_lt (words (setField16 p 24 0) 14 (ihlBytes p 14)).sum
  rw [hcode, HeaderSums, onesSum_eq (words_lt _ _ _), hsum, endAround_eq_top, OrderIrrelevant,
    hexpected, ← swap16_eq_self hword]
  generalize (words (setField16 p 24 0) 14 (ihlBytes p 14)).sum = n at hpos hlt ⊢
  have hn : endAround n = (n - 1) % 65535 + 1 := if_neg (by omega)
  have hswap := swap16_lt hword
  have hones : swap16 (word p 24) = 0xFFFF ↔ word p 24 = 0xFFFF := by
    unfold swap16
    omega
  rw [hn]
  generalize swap16 (word p 24) = w at hswap hones ⊢
  change (w = _ ↔ 0 < n + word p 24 ∧ (n + word p 24) % 65535 = 0) ↔ _
  generalize word p 24 = v at hword hones ⊢
  omega

/-! ## The result -/

/-- **When the checksums are those of the wire**: for each sender, when all it can send for its
arguments has the right sums, and for the receivers, when a header is judged by its sum. -/
theorem wireChecksums_iff (s : Stack) (dstIp : UInt32) (p : Bytes) :
    (∀ (initialized : Bool) (srcPort dstPort : UInt16) (data : Bytes) (len : UInt32)
        (withChecksum : Bool),
      (∀ f ∈ (netstackSendUdpLow initialized s dstIp srcPort dstPort data len
          withChecksum).frames, IsIpv4 f.bytes → HeaderSums f.bytes) ↔
        (42 + len ≤ 1514 → (dstMac s dstIp).isSome = true →
          headerSum s (28 + len.toUInt16) 17 dstIp % 257 = 0)) ∧
    (∀ (id seq : UInt16) (mem : Bytes) (data : Nat) (dataLen : UInt16), dataLen.toNat + 8 < 65536 →
      ((∀ r, Output.echoReply r ∈ (icmpSendEchoReply s dstIp id seq mem data dataLen).2 →
          HeaderSums r.frame.bytes ∧ MessageSums r.frame) ↔
        ((dstMac s dstIp).isSome = true → headerSum s (28 + dataLen) 1 dstIp % 257 = 0 ∧
          messageSum 0 id seq mem data dataLen.toNat % 257 = 0))) ∧
    (∀ id seq : UInt16,
      (∀ f ∈ (icmpSendEchoRequest s dstIp id seq).2,
          IsIpv4 f.bytes → HeaderSums f.bytes ∧ MessageSums f) ↔
        ((dstMac s dstIp).isSome = true → headerSum s 32 1 dstIp % 257 = 0 ∧
          messageSum 8 id seq pingData 0 4 % 257 = 0)) ∧
    (20 ≤ ihlBytes p 14 → ((checksumMatches p 14 ↔ HeaderSums p) ↔ OrderIrrelevant p)) := by
  refine ⟨fun initialized srcPort dstPort data len withChecksum => ?_,
    fun id seq mem data dataLen hdata => ?_, fun id seq => ?_,
    fun hp => checksumMatches_iff_headerSums hp⟩
  · exact headerSums_udp_iff initialized s dstIp srcPort dstPort data len withChecksum
  · exact sums_echoReply_iff s dstIp id seq mem data hdata
  · exact sums_echoRequest_iff s dstIp id seq

/-- An echo request to the gateway, with a header that no other machine accepts. -/
theorem not_headerSums_ping :
    ∃ f ∈ (icmpSendEchoRequest stackQemu 0x0A000202 1 1).2,
      IsIpv4 f.bytes ∧ ¬ HeaderSums f.bytes := by
  refine ⟨_, List.mem_singleton_self _, by decide, by decide⟩

end MicroKernel.Net
