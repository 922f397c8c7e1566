import MicroKernel.Net.DhcpOptions

set_option autoImplicit false

/-! # What the received bytes of a reply settle

The client parses an OFFER and an ACK as whole messages, however short the datagram was: what is
missing in the datagram is taken from what was in the client's buffer before. What the client
concludes from a reply, its verdict, is settled by the received bytes alone when they contradict
the header, or when the walk over the options comes to its end on them, up to a rest of the options
that is too short to change anything (`settled_iff`).
-/

namespace MicroKernel.Net

open MicroKernel.Lib Bytes

/-! ## Verdicts -/

/-- The two replies that the client waits for. -/
inductive Reply where
  | offer | ack

/-- The message type of a reply. -/
def Reply.type : Reply → UInt8
  | .offer => 2
  | .ack => 5

/-- What the client takes from the options of a reply. -/
def Reply.keep (kind : Reply) (o : DhcpOptions) : DhcpOptions :=
  match kind with
  | .offer => ⟨o.serverId, 0, 0, 0, 0⟩
  | .ack => ⟨0, o.subnet, o.router, o.dns, 0⟩

/-- An option whose first four bytes the client takes. -/
def Reply.Uses (kind : Reply) (code len : UInt8) : Prop :=
  match kind with
  | .offer => code = 54 ∧ len = 4
  | .ack => (code = 1 ∧ len = 4) ∨ ((code = 3 ∨ code = 6) ∧ len ≥ 4)

instance (kind : Reply) (code len : UInt8) : Decidable (kind.Uses code len) := by
  cases kind
  · exact inferInstanceAs (Decidable (_ ∧ _))
  · exact inferInstanceAs (Decidable (_ ∨ _))

/-- The verdict on the options. -/
def Reply.judge (kind : Reply) (o : DhcpOptions) : Option DhcpOptions :=
  if o.msgType ≠ kind.type then none else some (kind.keep o)

/-- **The verdict** on a whole message: the address in it and the options that are kept, or
nothing. Only of an OFFER the `op` field is looked at. -/
def Reply.verdict (kind : Reply) (xid : UInt32) (p : Bytes) : Option (UInt32 × DhcpOptions) :=
  match kind with
  | .offer =>
      if p 0 ≠ 2 ∨ field32 p 4 ≠ xid then none
      else ((dhcpParseOpts p).bind kind.judge).map fun o => (field32 p 16, o)
  | .ack =>
      if field32 p 4 ≠ xid then none
      else ((dhcpParseOpts p).bind kind.judge).map fun o => (field32 p 16, o)

/-- A buffer with `prior` in it, after `n` bytes of `p` were received. -/
def fill (p : Bytes) (n : Nat) (prior : Bytes) : Bytes := fun i => if i < n then p i else prior i

theorem fill_inside (p : Bytes) {n i : Nat} (prior : Bytes) (h : i < n) : fill p n prior i = p i :=
  if_pos h

theorem fill_behind (p : Bytes) {n i : Nat} (prior : Bytes) (h : n ≤ i) :
    fill p n prior i = prior i := if_neg (Nat.not_lt.mpr h)

/-! ## What is settled -/

/-- The received ones of the bytes at `a` are those of `l`. -/
def Matches (p : Bytes) (n a : Nat) (l : List UInt8) : Prop :=
  ∀ i, i < l.length → a + i < n → p (a + i) = l.getD i 0

/-- No received byte contradicts the header of a reply. -/
structure Plausible (kind : Reply) (xid : UInt32) (p : Bytes) (n : Nat) : Prop where
  op : kind = .offer → p 0 = 2
  xid : Matches p n 4 (wordBytes xid)
  cookie : Matches p n dhcpOptions (wordBytes (htonl dhcpMagicCookie))

/-- The options from byte `i` on are settled by the first `k` of them; `type` is the message type
that has been found before. A rest of two bytes holds no option with a value. -/
@[irreducible]
def optionsSettled (kind : Reply) (p : Bytes) (k : Nat) : Nat → Nat → UInt8 → Prop
  | 0, _, _ => True
  | rounds + 1, i, type =>
      if 312 ≤ i then True
      -- the code has not been received
      else if k ≤ i then 312 ≤ i + 2
      else
        let code := p (dhcpOptions + i)
        if code = 255 then True
        else if code = 0 then optionsSettled kind p k rounds (i + 1) type
        else if 312 ≤ i + 1 then True
        -- the length has not been received
        else if k ≤ i + 1 then 312 ≤ i + 4 ∧ (code = 53 → 312 ≤ i + 2)
        else
          let len := p (dhcpOptions + i + 1)
          let type := if code = 53 ∧ len ≥ 1 then p (dhcpOptions + i + 2) else type
          if 312 < i + 2 + len.toNat then True
          else if i + 2 + len.toNat ≤ k then
            optionsSettled kind p k rounds (i + 2 + len.toNat) type
          -- the value has not been received, or not wholly
          else
            312 ≤ i + 2 + len.toNat + 2 ∧ (code = 53 → i + 2 < k) ∧
              (type = kind.type → kind.Uses code len → i + 6 ≤ k)

/-- **The received bytes settle the verdict**: `n` bytes of `p`. -/
structure Settled (kind : Reply) (xid : UInt32) (p : Bytes) (n : Nat) : Prop where
  options : Plausible kind xid p n → optionsSettled kind p (n - dhcpOptions) 308 4 0

/-! ## The options -/

theorem field32_eq_iff {p : Bytes} {a : Nat} {v : UInt32} :
    field32 p a = v ↔ Holds p a (wordBytes v) := by
  constructor
  · rintro rfl i hi
    have hi4 : i < 4 := hi
    have h := holds_setField32 p a (field32 p a) i hi
    rw [← h]
    have h0 := (p a).toNat_lt
    have h1 := (p (a + 1)).toNat_lt
    have h2 := (p (a + 2)).toNat_lt
    have h3 := (p (a + 3)).toNat_lt
    have hval : (field32 p a).toNat = load32 p a := by
      rw [field32, UInt32.toNat_ofNat', Nat.mod_eq_of_lt (load32_lt p a)]
    rw [setField32, store32_byte _ _ _ hi4, hval, ← UInt8.toNat_inj, UInt8.toNat_ofNat']
    unfold load32
    obtain rfl | rfl | rfl | rfl : i = 0 ∨ i = 1 ∨ i = 2 ∨ i = 3 := by omega
    · rw [Nat.add_zero]
      omega
    · omega
    · omega
    · omega
  · intro h
    rw [← field32_setField32 p a v]
    exact field32_congr fun i hi => (h i hi).trans (holds_setField32 p a v i hi).symm

/-- Nothing is settled by options of which no code has been received. -/
theorem not_optionsSettled {kind : Reply} {p : Bytes} {k rounds i : Nat} {t : UInt8}
    (hi : i + 2 < 312) (hk : k ≤ i) : ¬ optionsSettled kind p k (rounds + 1) i t := by
  intro h
  rw [optionsSettled, if_neg (by omega), if_pos hk] at h
  omega

theorem field32_inj {p q : Bytes} {a b : Nat} (h : field32 p a = field32 q b) (i : Nat)
    (hi : i < 4) : p (a + i) = q (b + i) :=
  (field32_eq_iff.mp h i hi).trans (field32_eq_iff.mp rfl i hi).symm

/-- An option without a value, or of a kind that needs more of it, changes nothing. -/
theorem dhcpOption_short (p : Bytes) (a : Nat) {code len : UInt8} (hlen : len.toNat < 4)
    (h53 : code = 53 → len = 0) (o : DhcpOptions) : dhcpOption p a code len o = o := by
  have hge : ¬ len ≥ 4 := fun h => Nat.not_le.mpr hlen (UInt8.le_iff_toNat_le.mp h)
  have heq : ¬ len = 4 := by
    rintro rfl
    exact absurd hlen (by decide)
  unfold dhcpOption
  rw [if_neg hge, if_neg heq]
  split_ifs with h hone
  · rw [h53 h] at hone
    exact absurd hone (by decide)
  · rfl
  · rfl
  · rfl
  · rfl
  · rfl
  · rfl

/-- **A rest of two bytes** changes nothing. -/
theorem dhcpParseFrom_short (p : Bytes) {i : Nat} (h : 312 ≤ i + 2) (o : DhcpOptions) :
    dhcpParseFrom p i o = o := by
  have hlast : ∀ j, 312 ≤ j + 1 → dhcpParseFrom p j o = o := by
    intro j hj
    by_cases h255 : p (dhcpOptions + j) = 255
    · exact dhcpParseFrom_end o h255
    by_cases h0 : p (dhcpOptions + j) = 0
    · rw [dhcpParseFrom_pad o h0, dhcpParseFrom_out o (by omega)]
    · exact dhcpParseFrom_cut o h255 h0 (by omega)
  by_cases h255 : p (dhcpOptions + i) = 255
  · exact dhcpParseFrom_end o h255
  by_cases h0 : p (dhcpOptions + i) = 0
  · rw [dhcpParseFrom_pad o h0]
    exact hlast (i + 1) (by omega)
  by_cases hfits : 312 < i + 2 + (p (dhcpOptions + i + 1)).toNat
  · exact dhcpParseFrom_cut o h255 h0 hfits
  · have hzero : (p (dhcpOptions + i + 1)).toNat = 0 := by omega
    rw [dhcpParseFrom_option o h255 h0 (by omega), dhcpParseFrom_out _ (by omega)]
    exact dhcpOption_short p _ (by omega) (fun _ => UInt8.toNat_inj.mp hzero) o

theorem dhcpOption_msgType (p : Bytes) (a : Nat) (code len : UInt8) (o : DhcpOptions) :
    (dhcpOption p a code len o).msgType = if code = 53 ∧ len ≥ 1 then p a else o.msgType := by
  unfold dhcpOption
  split_ifs <;> first | rfl | (exfalso; simp_all)

/-- Only the value of an option is read. -/
theorem dhcpOption_congr {p q : Bytes} {a : Nat} {len : UInt8}
    (h : ∀ j, j < len.toNat → p (a + j) = q (a + j)) (code : UInt8) (o : DhcpOptions) :
    dhcpOption p a code len o = dhcpOption q a code len o := by
  have hone : len ≥ 1 → p a = q a := fun hlen => h 0 (UInt8.le_iff_toNat_le.mp hlen)
  have hfour : 4 ≤ len.toNat → field32 p a = field32 q a := fun hlen =>
    field32_congr fun j hj => h j (by omega)
  have hge : len ≥ 4 → 4 ≤ len.toNat := fun hlen => UInt8.le_iff_toNat_le.mp hlen
  have heq : len = 4 → 4 ≤ len.toNat := by
    rintro rfl
    decide
  unfold dhcpOption
  split_ifs with h53 hlen _ hlen _ hlen _ hlen _ hlen
  · rw [hone hlen]
  · rfl
  · rw [hfour (heq hlen)]
  · rfl
  · rw [hfour (heq hlen)]
  · rfl
  · rw [hfour (hge hlen)]
  · rfl
  · rw [hfour (hge hlen)]
  · rfl
  · rfl

/-- An option that the client does not use, and that is not the message type, is not kept. -/
theorem keep_dhcpOption (kind : Reply) (p : Bytes) (a : Nat) {code len : UInt8}
    (h : ¬ kind.Uses code len) (o : DhcpOptions) :
    kind.keep (dhcpOption p a code len o) = kind.keep o := by
  cases kind with
  | offer =>
      unfold Reply.Uses at h
      unfold dhcpOption
      split_ifs <;> first | rfl | (exfalso; simp_all)
  | ack =>
      unfold Reply.Uses at h
      unfold dhcpOption
      split_ifs <;> first | rfl | (exfalso; simp_all)

theorem not_uses_53 (kind : Reply) (len : UInt8) : ¬ kind.Uses 53 len := by
  cases kind with
  | offer => exact fun h => absurd h.1 (by decide)
  | ack =>
      rintro (⟨h, -⟩ | ⟨h | h, -⟩)
      · exact absurd h (by decide)
      · exact absurd h (by decide)
      · exact absurd h (by decide)

/-- What is kept of an option that the client uses is its first four bytes. -/
theorem keep_dhcpOption_congr (kind : Reply) {p q : Bytes} {a : Nat} (code len : UInt8)
    (h : field32 p a = field32 q a) (o : DhcpOptions) :
    kind.keep (dhcpOption p a code len o) = kind.keep (dhcpOption q a code len o) := by
  cases kind with
  | offer =>
      unfold dhcpOption
      rw [h]
      split_ifs <;> rfl
  | ack =>
      unfold dhcpOption
      rw [h]
      split_ifs <;> rfl

/-- The fields of an option that the client uses are found again in what is kept. -/
theorem field32_of_keep {kind : Reply} {p q : Bytes} {a : Nat} {code len : UInt8}
    (h : kind.Uses code len) {o : DhcpOptions}
    (hkeep : kind.keep (dhcpOption p a code len o) = kind.keep (dhcpOption q a code len o)) :
    field32 p a = field32 q a := by
  cases kind with
  | offer =>
      obtain ⟨rfl, rfl⟩ := h
      exact congrArg DhcpOptions.serverId hkeep
  | ack =>
      rcases h with ⟨rfl, rfl⟩ | ⟨rfl | rfl, hlen⟩
      · exact congrArg DhcpOptions.subnet hkeep
      · have hrouter := congrArg DhcpOptions.router hkeep
        simpa [Reply.keep, dhcpOption, hlen] using hrouter
      · have hdns := congrArg DhcpOptions.dns hkeep
        simpa [Reply.keep, dhcpOption, hlen] using hdns

/-! ## What is settled is the same -/

/-- Two buffers agree on the first `n` bytes. -/
def AgreeBelow (n : Nat) (p q : Bytes) : Prop := ∀ i, i < n → p i = q i

theorem agreeBelow_fill (p : Bytes) (n : Nat) (prior : Bytes) : AgreeBelow n p (fill p n prior) :=
  fun _ hi => (fill_inside p prior hi).symm

theorem judge_congr {kind : Reply} {o o' : DhcpOptions} (htype : o.msgType = o'.msgType)
    (hkeep : o.msgType = kind.type → kind.keep o = kind.keep o') : kind.judge o = kind.judge o' := by
  unfold Reply.judge
  rw [← htype]
  by_cases h : o.msgType = kind.type
  · rw [if_neg (not_not_intro h), if_neg (not_not_intro h), hkeep h]
  · rw [if_pos h, if_pos h]

/-- With four bytes left at most, an option whose length may be any changes nothing. -/
theorem dhcpParseFrom_any_length {r : Bytes} {i : Nat} (h255 : r (dhcpOptions + i) ≠ 255)
    (h0 : r (dhcpOptions + i) ≠ 0) (hrest : 312 ≤ i + 4)
    (h53 : r (dhcpOptions + i) = 53 → 312 ≤ i + 2) (o : DhcpOptions) : dhcpParseFrom r i o = o := by
  by_cases hfits : 312 < i + 2 + (r (dhcpOptions + i + 1)).toNat
  · exact dhcpParseFrom_cut o h255 h0 hfits
  · rw [dhcpParseFrom_option o h255 h0 (by omega), dhcpParseFrom_short _ (by omega)]
    refine dhcpOption_short r _ (by omega) (fun hc => ?_) o
    have hnone := h53 hc
    exact UInt8.toNat_inj.mp (show _ = 0 by omega)

/-- The judgement after an option of which at least the first `m` bytes of the value are the same, if
it is not looked at behind them. -/
theorem judge_cut_value {kind : Reply} {p q : Bytes} {a m : Nat} {code len : UInt8} {o : DhcpOptions}
    (hsame : ∀ j, j < m → p (a + j) = q (a + j)) (h53 : code = 53 → 0 < m)
    (huse : (if code = 53 ∧ len ≥ 1 then p a else o.msgType) = kind.type → kind.Uses code len →
      4 ≤ m) : kind.judge (dhcpOption q a code len o) = kind.judge (dhcpOption p a code len o) := by
  have htype : (dhcpOption q a code len o).msgType = (dhcpOption p a code len o).msgType := by
    rw [dhcpOption_msgType, dhcpOption_msgType]
    by_cases hc : code = 53 ∧ len ≥ 1
    · rw [if_pos hc, if_pos hc]
      exact (hsame 0 (h53 hc.1)).symm
    · rw [if_neg hc, if_neg hc]
  refine judge_congr htype fun hkind => ?_
  by_cases huses : kind.Uses code len
  · have hfour := huse (by rw [← dhcpOption_msgType p a code len o, ← htype, hkind]) huses
    exact keep_dhcpOption_congr kind code len
      (field32_congr fun j hj => (hsame j (by omega)).symm) o
  · rw [keep_dhcpOption kind q _ huses, keep_dhcpOption kind p _ huses]

/-- **One walk for all rests**: when the options are settled, the walk over `q` comes to the same
judgement as that over the received bytes with anything behind them. -/
theorem judge_of_settled {kind : Reply} {p q : Bytes} {k rounds i : Nat} {o : DhcpOptions}
    (hsame : AgreeBelow (dhcpOptions + k) p q) (hrounds : 312 - i ≤ rounds)
    (h : optionsSettled kind p k rounds i o.msgType) :
    kind.judge (dhcpParseFrom q i o) = kind.judge (dhcpParseFrom p i o) := by
  induction rounds generalizing i o with
  | zero => rw [dhcpParseFrom_out o (by omega), dhcpParseFrom_out o (by omega)]
  | succ rounds ih =>
      unfold optionsSettled at h
      by_cases hi : 312 ≤ i
      · rw [dhcpParseFrom_out o hi, dhcpParseFrom_out o hi]
      rw [if_neg hi] at h
      by_cases hk : k ≤ i
      · rw [if_pos hk] at h
        rw [dhcpParseFrom_short q h, dhcpParseFrom_short p h]
      rw [if_neg hk] at h
      have hcode : q (dhcpOptions + i) = p (dhcpOptions + i) := (hsame _ (by omega)).symm
      by_cases h255 : p (dhcpOptions + i) = 255
      · rw [dhcpParseFrom_end o h255, dhcpParseFrom_end o (hcode.trans h255)]
      rw [if_neg h255] at h
      by_cases h0 : p (dhcpOptions + i) = 0
      · rw [if_pos h0] at h
        rw [dhcpParseFrom_pad o h0, dhcpParseFrom_pad o (hcode.trans h0)]
        exact ih (by omega) h
      rw [if_neg h0] at h
      have h255' : q (dhcpOptions + i) ≠ 255 := by rwa [hcode]
      have h0' : q (dhcpOptions + i) ≠ 0 := by rwa [hcode]
      by_cases hlast : 312 ≤ i + 1
      · rw [dhcpParseFrom_cut o h255 h0 (by omega), dhcpParseFrom_cut o h255' h0' (by omega)]
      rw [if_neg hlast] at h
      by_cases hk1 : k ≤ i + 1
      · -- the length is free, but nothing that fits behind it has a value that counts
        rw [if_pos hk1] at h
        rw [dhcpParseFrom_any_length h255' h0' h.1 (fun hc => h.2 (hcode.symm.trans hc)),
          dhcpParseFrom_any_length h255 h0 h.1 h.2]
      rw [if_neg hk1] at h
      have hlen : q (dhcpOptions + i + 1) = p (dhcpOptions + i + 1) := (hsame _ (by omega)).symm
      dsimp only at h
      by_cases hfits : 312 < i + 2 + (p (dhcpOptions + i + 1)).toNat
      · rw [dhcpParseFrom_cut o h255 h0 hfits,
          dhcpParseFrom_cut o h255' h0' (by rwa [hlen])]
      rw [if_neg hfits] at h
      rw [dhcpParseFrom_option o h255 h0 (by omega),
        dhcpParseFrom_option o h255' h0' (by rw [hlen]; omega), hcode, hlen]
      generalize hcodeEq : p (dhcpOptions + i) = code at *
      generalize hlenEq : p (dhcpOptions + i + 1) = len at *
      by_cases hwhole : i + 2 + len.toNat ≤ k
      · -- the whole option has been received
        rw [if_pos hwhole] at h
        have hread : dhcpOption q (dhcpOptions + i + 2) code len o
            = dhcpOption p (dhcpOptions + i + 2) code len o :=
          dhcpOption_congr (fun j hj => (hsame _ (by omega)).symm) code o
        rw [hread]
        rw [← dhcpOption_msgType p (dhcpOptions + i + 2) code len o] at h
        exact ih (by omega) h
      · rw [if_neg hwhole] at h
        obtain ⟨hrest, h53, huse⟩ := h
        rw [dhcpParseFrom_short _ hrest, dhcpParseFrom_short _ hrest]
        exact judge_cut_value (m := k - (i + 2)) (fun j hj => hsame _ (by omega))
          (fun hc => Nat.sub_pos_of_lt (h53 hc)) fun ht huses => by
            have hfour := huse ht huses
            omega

/-! ## What is not settled may differ -/

/-- A prior message with the header of a reply, and `l` from byte `j` of the options on. -/
def priorWith (xid : UInt32) (j : Nat) (l : List UInt8) : Bytes :=
  copy (setField32 (setField32 (fun _ => 2) 4 xid) dhcpOptions (htonl dhcpMagicCookie))
    (dhcpOptions + j) (fun i => l.getD i 0) 0 l.length

/-- Two such messages, behind what has been received, lead to different judgements on the options
from byte `i` on, when the message type found before is `t`. -/
def Splits (kind : Reply) (xid : UInt32) (p : Bytes) (n i : Nat) (t : UInt8) : Prop :=
  ∃ j l l', 4 ≤ j ∧ n ≤ dhcpOptions + j ∧ ∀ o : DhcpOptions, o.msgType = t →
    kind.judge (dhcpParseFrom (fill p n (priorWith xid j l)) i o)
      ≠ kind.judge (dhcpParseFrom (fill p n (priorWith xid j l')) i o)

section splits

variable {kind : Reply} {xid : UInt32} {p : Bytes} {n i : Nat} {t : UInt8}

theorem holds_fill_priorWith (p : Bytes) (xid : UInt32) {j : Nat} (hj : n ≤ dhcpOptions + j)
    (l : List UInt8) : Holds (fill p n (priorWith xid j l)) (dhcpOptions + j) l :=
  (holds_copy _ _ l).congr fun x _ => fill_behind p _ (by omega)

/-- An option with the message type `v`, and the end. -/
def typeOption (v : UInt8) : List UInt8 := [53, 1, v, 255]

theorem msgType_of_typeOption {q : Bytes} {v : UInt8}
    (h : Holds q (dhcpOptions + i) (typeOption v)) (hi : i + 3 ≤ 312) (o : DhcpOptions) :
    (dhcpParseFrom q i o).msgType = v := by
  have hcode : q (dhcpOptions + i) = 53 := h 0 (by decide : 0 < 4)
  have hlen : q (dhcpOptions + i + 1) = 1 := h 1 (by decide : 1 < 4)
  have hvalue : q (dhcpOptions + i + 2) = v := h 2 (by decide : 2 < 4)
  have hend : q (dhcpOptions + (i + 3)) = 255 := h 3 (by decide : 3 < 4)
  rw [dhcpParseFrom_option o (by rw [hcode]; decide) (by rw [hcode]; decide)
    (by rw [hlen]; exact hi), hcode, hlen, show i + 2 + (1 : UInt8).toNat = i + 3 from rfl,
    dhcpParseFrom_end _ hend, dhcpOption_msgType, if_pos (by decide), hvalue]

/-- The message type may be any: that of the reply, or none. -/
theorem splits_of_msgType {j : Nat} (l : UInt8 → List UInt8) (hj4 : 4 ≤ j)
    (hj : n ≤ dhcpOptions + j) (h : ∀ (v : UInt8) (o : DhcpOptions), o.msgType = t →
      (dhcpParseFrom (fill p n (priorWith xid j (l v))) i o).msgType = v) :
    Splits kind xid p n i t := by
  refine ⟨j, l kind.type, l 0, hj4, hj, fun o ho hsame => ?_⟩
  have hzero : (0 : UInt8) ≠ kind.type := by cases kind <;> decide
  unfold Reply.judge at hsame
  rw [h kind.type o ho, h 0 o ho, if_neg (not_not_intro rfl), if_pos hzero] at hsame
  cases hsame

/-- Where the length has not been received, an option without a value may be followed by a message
type, and one with the code of the message type may hold any. -/
theorem splits_of_missing_length (hi4 : 4 ≤ i) (hcode : i < n - dhcpOptions)
    (hlen : n - dhcpOptions ≤ i + 1) (h255 : p (dhcpOptions + i) ≠ 255) (h0 : p (dhcpOptions + i) ≠ 0)
    (h : ¬ (312 ≤ i + 4 ∧ (p (dhcpOptions + i) = 53 → 312 ≤ i + 2))) : Splits kind xid p n i t := by
  have hj : n ≤ dhcpOptions + (i + 1) := by omega
  have hsame : ∀ prior, fill p n prior (dhcpOptions + i) = p (dhcpOptions + i) :=
    fun prior => fill_inside p prior (by omega)
  by_cases hroom : i + 5 ≤ 312
  · refine splits_of_msgType (fun v => 0 :: typeOption v) (by omega) hj fun v o _ => ?_
    obtain ⟨hfirst, hrest⟩ := holds_cons.mp (holds_fill_priorWith p xid hj (0 :: typeOption v))
    have hfirst' : fill p n (priorWith xid (i + 1) (0 :: typeOption v)) (dhcpOptions + i + 1) = 0 :=
      hfirst
    have hzero : i + 2 + (0 : UInt8).toNat = i + 2 := rfl
    rw [dhcpParseFrom_option o (by rwa [hsame]) (by rwa [hsame]) (by rw [hfirst', hzero]; omega),
      hfirst', hzero]
    exact msgType_of_typeOption hrest hroom _
  · have h53 : p (dhcpOptions + i) = 53 ∧ i + 2 < 312 := by
      by_contra hno
      exact h ⟨by omega, fun hc => Nat.le_of_not_lt fun hlt => hno ⟨hc, hlt⟩⟩
    refine splits_of_msgType (fun v => [1, v, 255]) (by omega) hj fun v o _ => ?_
    refine msgType_of_typeOption (holds_cons.mpr ⟨(hsame _).trans h53.1, ?_⟩) (by omega) o
    exact holds_fill_priorWith p xid hj [1, v, 255]

/-- Where a value that is used has not been wholly received, its first missing byte tells two prior
messages apart. -/
theorem splits_of_cut_value {code len : UInt8} (hi4 : 4 ≤ i) (hlow : i + 2 ≤ n - dhcpOptions)
    (hcut : n - dhcpOptions < i + 6) (htype : t = kind.type) (huses : kind.Uses code len)
    (hlast : ∀ prior o, dhcpParseFrom (fill p n prior) i o
      = dhcpOption (fill p n prior) (dhcpOptions + i + 2) code len o) : Splits kind xid p n i t := by
  have hj : n ≤ dhcpOptions + (n - dhcpOptions) := by omega
  refine ⟨n - dhcpOptions, [0], [1], by omega, hj, fun o ho hsame => ?_⟩
  rw [hlast, hlast] at hsame
  have hcode : ¬ (code = 53 ∧ len ≥ 1) := fun hc => not_uses_53 kind len (hc.1 ▸ huses)
  have hkept : ∀ prior, kind.judge (dhcpOption (fill p n prior) (dhcpOptions + i + 2) code len o)
      = some (kind.keep (dhcpOption (fill p n prior) (dhcpOptions + i + 2) code len o)) := by
    intro prior
    unfold Reply.judge
    rw [dhcpOption_msgType, if_neg hcode, ho, if_neg (not_not_intro htype)]
  rw [hkept, hkept] at hsame
  have hbyte := field32_inj (field32_of_keep huses (Option.some.inj hsame))
    (n - dhcpOptions - (i + 2)) (by omega)
  rw [show dhcpOptions + i + 2 + (n - dhcpOptions - (i + 2)) = n by omega,
    fill_behind _ _ (Nat.le_refl n), fill_behind _ _ (Nat.le_refl n)] at hbyte
  have hzero := holds_fill_priorWith p xid hj [0] 0 Nat.zero_lt_one
  have hone := holds_fill_priorWith p xid hj [1] 0 Nat.zero_lt_one
  rw [show dhcpOptions + (n - dhcpOptions) + 0 = n by omega,
    fill_behind _ _ (Nat.le_refl n)] at hzero hone
  rw [hzero, hone] at hbyte
  exact absurd hbyte (by decide)

/-- An option whose value has not been wholly received: there is room for a message type behind it, or
the value is one, or the value is used. -/
theorem splits_of_cut_option {code len : UInt8} (hi4 : 4 ≤ i) (hi : i < 312)
    (hlow : i + 2 ≤ n - dhcpOptions) (hcut : ¬ i + 2 + len.toNat ≤ n - dhcpOptions)
    (hstep : ∀ prior o, dhcpParseFrom (fill p n prior) i o
      = dhcpParseFrom (fill p n prior) (i + 2 + len.toNat)
        (dhcpOption (fill p n prior) (dhcpOptions + i + 2) code len o))
    (h : ¬ (312 ≤ i + 2 + len.toNat + 2 ∧ (code = 53 → i + 2 < n - dhcpOptions) ∧
      ((if code = 53 ∧ len ≥ 1 then p (dhcpOptions + i + 2) else t) = kind.type →
        kind.Uses code len → i + 6 ≤ n - dhcpOptions))) : Splits kind xid p n i t := by
  by_cases hrest : i + 2 + len.toNat + 3 ≤ 312
  · have hj : n ≤ dhcpOptions + (i + 2 + len.toNat) := by omega
    refine splits_of_msgType typeOption (by omega) hj fun v o _ => ?_
    rw [hstep]
    exact msgType_of_typeOption (holds_fill_priorWith p xid hj _) hrest _
  have hshort : ∀ prior o, dhcpParseFrom (fill p n prior) i o
      = dhcpOption (fill p n prior) (dhcpOptions + i + 2) code len o := fun prior o => by
    rw [hstep, dhcpParseFrom_short _ (by omega)]
  by_cases h53 : code = 53 ∧ n - dhcpOptions ≤ i + 2
  · -- the value is a message type that has not been received
    have hj : n ≤ dhcpOptions + (i + 2) := by omega
    have hpos : len ≥ 1 := by
      rw [ge_iff_le, UInt8.le_iff_toNat_le]
      show 1 ≤ len.toNat
      omega
    refine splits_of_msgType (fun v => [v]) (by omega) hj fun v o _ => ?_
    rw [hshort, dhcpOption_msgType, if_pos ⟨h53.1, hpos⟩]
    exact holds_fill_priorWith p xid hj [v] 0 Nat.zero_lt_one
  · -- the value is used, and its last bytes have not been received
    have hused : t = kind.type ∧ kind.Uses code len ∧ n - dhcpOptions < i + 6 := by
      by_contra hno
      refine h ⟨by omega, fun hc => Nat.lt_of_not_le fun hle => h53 ⟨hc, hle⟩,
        fun htype huses => Nat.le_of_not_lt fun hlt => ?_⟩
      have hcode53 : ¬ (code = 53 ∧ len ≥ 1) := fun hc => not_uses_53 kind len (hc.1 ▸ huses)
      rw [if_neg hcode53] at htype
      exact hno ⟨htype, huses, hlt⟩
    obtain ⟨htype, huses, hlast⟩ := hused
    exact splits_of_cut_value hi4 hlow hlast htype huses hshort

/-- **Options that are not settled** may be judged in two ways. -/
theorem splits_of_not_settled {rounds : Nat} (hrounds : 312 - i ≤ rounds) (hi4 : 4 ≤ i)
    (h : ¬ optionsSettled kind p (n - dhcpOptions) rounds i t) : Splits kind xid p n i t := by
  induction rounds generalizing i t with
  | zero =>
      unfold optionsSettled at h
      exact absurd trivial h
  | succ rounds ih =>
      unfold optionsSettled at h
      by_cases hi : 312 ≤ i
      · rw [if_pos hi] at h
        exact absurd trivial h
      rw [if_neg hi] at h
      by_cases hk : n - dhcpOptions ≤ i
      · -- the next option may be a message type
        rw [if_pos hk] at h
        have hj : n ≤ dhcpOptions + i := by omega
        exact splits_of_msgType typeOption hi4 hj fun v o _ =>
          msgType_of_typeOption (holds_fill_priorWith p xid hj _) (by omega) o
      rw [if_neg hk] at h
      have hcode : ∀ prior, fill p n prior (dhcpOptions + i) = p (dhcpOptions + i) :=
        fun prior => fill_inside p prior (by omega)
      dsimp only at h
      by_cases h255 : p (dhcpOptions + i) = 255
      · rw [if_pos h255] at h
        exact absurd trivial h
      rw [if_neg h255] at h
      by_cases h0 : p (dhcpOptions + i) = 0
      · rw [if_pos h0] at h
        obtain ⟨j, l, l', hj4, hj, hne⟩ := ih (by omega) (by omega) h
        refine ⟨j, l, l', hj4, hj, fun o ho => ?_⟩
        rw [dhcpParseFrom_pad o ((hcode _).trans h0), dhcpParseFrom_pad o ((hcode _).trans h0)]
        exact hne o ho
      rw [if_neg h0] at h
      have h255' : ∀ prior, fill p n prior (dhcpOptions + i) ≠ 255 := fun prior => by
        rwa [hcode]
      have h0' : ∀ prior, fill p n prior (dhcpOptions + i) ≠ 0 := fun prior => by rwa [hcode]
      by_cases hlast : 312 ≤ i + 1
      · rw [if_pos hlast] at h
        exact absurd trivial h
      rw [if_neg hlast] at h
      by_cases hk1 : n - dhcpOptions ≤ i + 1
      · rw [if_pos hk1] at h
        exact splits_of_missing_length hi4 (by omega) hk1 h255 h0 h
      rw [if_neg hk1] at h
      have hlen : ∀ prior, fill p n prior (dhcpOptions + i + 1) = p (dhcpOptions + i + 1) :=
        fun prior => fill_inside p prior (by omega)
      by_cases hfits : 312 < i + 2 + (p (dhcpOptions + i + 1)).toNat
      · rw [if_pos hfits] at h
        exact absurd trivial h
      rw [if_neg hfits] at h
      -- over any prior message the option is taken
      have hstep : ∀ prior o, dhcpParseFrom (fill p n prior) i o
          = dhcpParseFrom (fill p n prior) (i + 2 + (p (dhcpOptions + i + 1)).toNat)
            (dhcpOption (fill p n prior) (dhcpOptions + i + 2) (p (dhcpOptions + i))
              (p (dhcpOptions + i + 1)) o) := by
        intro prior o
        rw [dhcpParseFrom_option o (h255' prior) (h0' prior) (by rw [hlen]; omega), hlen, hcode]
      generalize p (dhcpOptions + i) = code at *
      generalize p (dhcpOptions + i + 1) = len at *
      by_cases hwhole : i + 2 + len.toNat ≤ n - dhcpOptions
      · rw [if_pos hwhole] at h
        obtain ⟨j, l, l', hj4, hj, hne⟩ := ih (by omega) (by omega) h
        refine ⟨j, l, l', hj4, hj, fun o ho => ?_⟩
        have hread : ∀ prior, dhcpOption (fill p n prior) (dhcpOptions + i + 2) code len o
            = dhcpOption p (dhcpOptions + i + 2) code len o := fun prior =>
          dhcpOption_congr (fun x hx => fill_inside p prior (by omega)) code o
        rw [hstep, hstep, hread, hread]
        refine hne _ ?_
        rw [dhcpOption_msgType, ho]
      rw [if_neg hwhole] at h
      exact splits_of_cut_option hi4 (by omega) (by omega) hwhole hstep h

end splits

/-! ## Verdicts that are settled -/

/-- The header of a reply that is looked into. -/
structure Reply.Heads (kind : Reply) (xid : UInt32) (p : Bytes) : Prop where
  op : kind = .offer → p 0 = 2
  xid : field32 p 4 = xid
  cookie : field32 p dhcpOptions = htonl dhcpMagicCookie

theorem verdict_of_heads {kind : Reply} {xid : UInt32} {p : Bytes} (h : kind.Heads xid p) :
    kind.verdict xid p
      = (kind.judge (dhcpParseFrom p 4 ⟨0, 0, 0, 0, 0⟩)).map fun o => (field32 p 16, o) := by
  have hparse : dhcpParseOpts p = some (dhcpParseFrom p 4 ⟨0, 0, 0, 0, 0⟩) := by
    refine dhcpParseOptsOver_of_cookie _ ?_
    rw [h.cookie]
    exact ntohl_htonl _
  unfold Reply.verdict
  rw [hparse, h.xid]
  cases kind with
  | offer =>
      dsimp only
      rw [h.op rfl, if_neg (by simp)]
      rfl
  | ack =>
      dsimp only
      rw [if_neg (not_not_intro rfl)]
      rfl

theorem heads_of_verdict {kind : Reply} {xid : UInt32} {p : Bytes}
    (h : kind.verdict xid p ≠ none) : kind.Heads xid p := by
  have hcookie : dhcpParseOpts p ≠ none → field32 p dhcpOptions = htonl dhcpMagicCookie := by
    intro hparse
    rw [dhcpParseOpts, ne_eq, ite_eq_left_iff, not_forall] at hparse
    obtain ⟨heq, -⟩ := hparse
    rw [← not_not.mp heq]
    exact (ntohl_htonl _).symm
  unfold Reply.verdict at h
  cases kind with
  | offer =>
      dsimp only at h
      by_cases hhead : p 0 ≠ 2 ∨ field32 p 4 ≠ xid
      · rw [if_pos hhead] at h
        exact absurd rfl h
      rw [if_neg hhead] at h
      rw [not_or, not_not, not_not] at hhead
      refine ⟨fun _ => hhead.1, hhead.2, hcookie fun hnone => h ?_⟩
      rw [hnone]
      rfl
  | ack =>
      dsimp only at h
      by_cases hhead : field32 p 4 ≠ xid
      · rw [if_pos hhead] at h
        exact absurd rfl h
      rw [if_neg hhead] at h
      refine ⟨(nomatch ·), not_not.mp hhead, hcookie fun hnone => h ?_⟩
      rw [hnone]
      rfl

section settled

variable {kind : Reply} {xid : UInt32} {p : Bytes} {n : Nat}

/-- A header that is found over some rest is plausible. -/
theorem plausible_of_heads (hn : 0 < n) {prior : Bytes} (h : kind.Heads xid (fill p n prior)) :
    Plausible kind xid p n := by
  have hmatches : ∀ {a : Nat} {l : List UInt8}, Holds (fill p n prior) a l → Matches p n a l :=
    fun hl i hi hin => (fill_inside p prior hin).symm.trans (hl i hi)
  exact ⟨fun hkind => (fill_inside p prior hn).symm.trans (h.op hkind),
    hmatches (field32_eq_iff.mp h.xid), hmatches (field32_eq_iff.mp h.cookie)⟩

/-- A plausible header is found over a rest that continues it. -/
theorem heads_fill_priorWith (hn : 0 < n) (h : Plausible kind xid p n) {j : Nat} (hj : 4 ≤ j)
    (l : List UInt8) : kind.Heads xid (fill p n (priorWith xid j l)) := by
  have hword : ∀ {a : Nat} {v : UInt32}, a + 4 ≤ dhcpOptions + j → Matches p n a (wordBytes v) →
      field32 (setField32 (setField32 (fun _ => 2) 4 xid) dhcpOptions (htonl dhcpMagicCookie)) a = v
        → field32 (fill p n (priorWith xid j l)) a = v := by
    intro a v ha hmatches hprior
    refine field32_eq_iff.mpr fun i hi => ?_
    have hi4 : i < 4 := hi
    by_cases hin : a + i < n
    · rw [fill_inside _ _ hin]
      exact hmatches i hi hin
    · rw [fill_behind _ _ (by omega), priorWith, copy_outside _ _ _ (by omega)]
      exact field32_eq_iff.mp hprior i hi
  refine ⟨fun hkind => (fill_inside p _ hn).trans (h.op hkind), hword ?_ h.xid ?_,
    hword (by omega) h.cookie (field32_setField32 _ _ _)⟩
  · unfold dhcpOptions
    omega
  · rw [field32_congr fun i hi => setField32_outside _ _ (Or.inl (by unfold dhcpOptions; omega)),
      field32_setField32]

/-- **What is settled, and only that, is the same** whatever was in the buffer before. -/
theorem settled_iff (hn : 0 < n) :
    Settled kind xid p n ↔
      ∀ q q', kind.verdict xid (fill p n q) = kind.verdict xid (fill p n q') := by
  constructor
  · rintro ⟨h⟩ q q'
    by_cases hplausible : Plausible kind xid p n
    · have hopts := h hplausible
      have hlong : dhcpOptions + 4 ≤ n := by
        by_contra hno
        exact not_optionsSettled (by decide) (by omega) hopts
      have hheads : ∀ prior, kind.Heads xid (fill p n prior) := by
        intro prior
        have hword : ∀ {a : Nat} {v : UInt32}, a + 4 ≤ n → Matches p n a (wordBytes v) →
            field32 (fill p n prior) a = v := fun ha hmatches => field32_eq_iff.mpr fun i hi => by
          have hi4 : i < 4 := hi
          rw [fill_inside _ _ (by omega)]
          exact hmatches i hi (by omega)
        exact ⟨fun hkind => (fill_inside p prior hn).trans ( hplausible.op hkind),
          hword (by unfold dhcpOptions at hlong; omega) hplausible.xid, hword hlong hplausible.cookie⟩
      have hagree : ∀ prior, AgreeBelow (dhcpOptions + (n - dhcpOptions)) p (fill p n prior) := by
        intro prior
        rw [show dhcpOptions + (n - dhcpOptions) = n by omega]
        exact agreeBelow_fill p n prior
      have hyi : field32 (fill p n q) 16 = field32 (fill p n q') 16 := field32_congr fun i hi => by
        unfold dhcpOptions at hlong
        rw [fill_inside _ _ (by omega), fill_inside _ _ (by omega)]
      rw [verdict_of_heads (hheads q), verdict_of_heads (hheads q'), hyi,
        judge_of_settled (hagree q) (by decide) hopts, judge_of_settled (hagree q') (by decide) hopts]
    · have hnone : ∀ prior, kind.verdict xid (fill p n prior) = none := by
        intro prior
        by_contra hsome
        exact hplausible (plausible_of_heads hn (heads_of_verdict hsome))
      rw [hnone, hnone]
  · refine fun hsame => ⟨fun hplausible => ?_⟩
    by_contra hnot
    obtain ⟨j, l, l', hj4, hj, hne⟩ :=
      splits_of_not_settled (by decide) (Nat.le_refl 4) hnot
    have heq := hsame (priorWith xid j l) (priorWith xid j l')
    rw [verdict_of_heads (heads_fill_priorWith hn hplausible hj4 l),
      verdict_of_heads (heads_fill_priorWith hn hplausible hj4 l')] at heq
    have hsnd := congrArg (Option.map Prod.snd) heq
    rw [Option.map_map, Option.map_map] at hsnd
    refine hne ⟨0, 0, 0, 0, 0⟩ rfl ?_
    simpa only [Function.comp_def, Option.map_id'] using hsnd

end settled

end MicroKernel.Net
