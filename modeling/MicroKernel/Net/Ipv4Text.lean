import MicroKernel.Lib.CArray
import MicroKernel.Lib.Decimal

set_option autoImplicit false

/-! # IPv4 addresses as text (`drivers/net/netstack.c`)

`parse_ipv4` and `format_ipv4`. A pointer is the list of the cells that it leads to. The parser is
one loop over the characters, with the value of the current group, or `-1` where none has started,
and the number of dots; it accepts four groups of digits (`parseIpv4_iff`), and what the printer
writes is among them (`parseIpv4_formatIpv4`).
-/

namespace MicroKernel.Net

open MicroKernel.Lib CArray

/-! ## The code -/

/-- An `int`. One that overflows has no value. -/
def int (i : Int) : Option Int := if -2 ^ 31 ≤ i ∧ i < 2 ^ 31 then some i else none

/-- `(out << 8) | part`. A shift that loses a bit has no value. -/
def shiftIn (out : UInt32) (part : Int) : Option UInt32 :=
  if out.toNat < 2 ^ 24 then some (out <<< 8 ||| UInt32.ofNat part.toNat) else none

/-- The loop of `parse_ipv4`. -/
def parseLoop : List UInt8 → UInt32 → Int → Int → Option UInt32
  | [], _, _, _ => none
  | c :: p, out, part, dots =>
      if 0x30 ≤ c ∧ c ≤ 0x39 then do
        let d : Int := c.toNat - 0x30
        if part < 0 then parseLoop p out d dots
        else
          let part ← int ((← int (part * 10)) + d)
          if 255 < part then some 0 else parseLoop p out part dots
      else if c = 0x2E ∨ c = 0 then
        -- an empty group
        if part < 0 then some 0
        else do
          let out ← shiftIn out part
          if c = 0x2E then
            let dots ← int (dots + 1)
            if 3 < dots then some 0 else parseLoop p out (-1) dots
          else if dots ≠ 3 then some 0
          else some out
      else some 0

/-- `parse_ipv4`; `none` is `NULL`. -/
def parseIpv4 : Option (List UInt8) → Option UInt32
  | none => some 0
  | some ip => parseLoop ip 0 (-1) 0

/-- `u8_to_dec`: the cells and the place behind the digits. -/
def u8ToDec (v : UInt8) (b : List UInt8) (out : Int) : Option (List UInt8 × Int) :=
  if 100 ≤ v then do
    let b ← write b out (0x30 + v / 100)
    let v := v % 100
    let b ← write b (out + 1) (0x30 + v / 10)
    let b ← write b (out + 2) (0x30 + v % 10)
    some (b, out + 3)
  else if 10 ≤ v then do
    let b ← write b out (0x30 + v / 10)
    let b ← write b (out + 1) (0x30 + v % 10)
    some (b, out + 2)
  else do
    let b ← write b out (0x30 + v)
    some (b, out + 1)

/-- `format_ipv4`: the cells of `buffer` afterwards. -/
def formatIpv4 (ip : UInt32) (buffer : List UInt8) : Option (List UInt8) := do
  let a := (ip >>> 24 &&& 0xFF).toUInt8
  let b := (ip >>> 16 &&& 0xFF).toUInt8
  let c := (ip >>> 8 &&& 0xFF).toUInt8
  let d := (ip &&& 0xFF).toUInt8
  let (buffer, p) ← u8ToDec a buffer 0
  let buffer ← write buffer p 0x2E
  let (buffer, p) ← u8ToDec b buffer (p + 1)
  let buffer ← write buffer p 0x2E
  let (buffer, p) ← u8ToDec c buffer (p + 1)
  let buffer ← write buffer p 0x2E
  let (buffer, p) ← u8ToDec d buffer (p + 1)
  write buffer p 0

example : parseIpv4 (some [0x31, 0x2E, 0x30, 0x30, 0x32, 0x2E, 0x30, 0x2E, 0x39, 0, 7])
    = some 0x01020009 := by decide

/-! ## Dotted text -/

/-- A group of digits with a value of at most 255. -/
structure IsOctet (g : List UInt8) : Prop where
  ne_nil : g ≠ []
  digits : ∀ c ∈ g, IsDigit c
  le : decimalValue g ≤ 255

/-- The values of groups behind `n`, each of them a byte. -/
def bigEndianFrom (n : Nat) (gs : List (List UInt8)) : Nat :=
  gs.foldl (fun n g => 256 * n + decimalValue g) n

/-- Four groups, with dots between them, whose values are the bytes of `v`. -/
def IsDotted (s : List UInt8) (v : UInt32) : Prop :=
  ∃ gs : List (List UInt8), gs.length = 4 ∧ (∀ g ∈ gs, IsOctet g) ∧ s = [0x2E].intercalate gs ∧
    v.toNat = bigEndianFrom 0 gs

/-! ## The parser -/

theorem int_eq_some {i : Int} (h : 0 ≤ i) (h' : i < 2 ^ 31) : int i = some i := by
  unfold int
  rw [if_pos ⟨by omega, h'⟩]

theorem shiftIn_eq {out : UInt32} {n : Nat} (hout : out.toNat < 2 ^ 24) (hn : n ≤ 255) :
    ∃ v, shiftIn out (n : Int) = some v ∧ v.toNat = 256 * out.toNat + n := by
  refine ⟨_, if_pos hout, ?_⟩
  have hshift : (out <<< 8).toNat = 256 * out.toNat := by
    rw [UInt32.toNat_shiftLeft, Nat.shiftLeft_eq]
    change out.toNat * 2 ^ 8 % 2 ^ 32 = _
    omega
  have hpart : (UInt32.ofNat (n : Int).toNat).toNat = n := by
    rw [Int.toNat_natCast, UInt32.toNat_ofNat']
    omega
  rw [UInt32.toNat_or, hshift, hpart]
  exact (Nat.two_pow_add_eq_or_of_lt (i := 8) (by omega) out.toNat).symm

section parser

variable {g rest : List UInt8} {out : UInt32} {n : Nat}

/-- A digit. -/
theorem parseLoop_digit {c : UInt8} (hc : IsDigit c) (p : List UInt8) (out : UInt32) (dots : Int)
    (hn : n ≤ 255) :
    parseLoop (c :: p) out n dots
      = if 10 * n + digit c ≤ 255 then parseLoop p out ((10 * n + digit c : Nat) : Int) dots
        else some 0 := by
  have hd := digit_lt hc
  have hle := UInt8.le_iff_toNat_le.mp hc.1
  change 48 ≤ c.toNat at hle
  have hdigit : ((n : Int) * 10 + ((c.toNat : Int) - 0x30)) = ((10 * n + digit c : Nat) : Int) := by
    unfold digit
    omega
  have hten : int ((n : Int) * 10) = some ((n : Int) * 10) := int_eq_some (by omega) (by omega)
  rw [parseLoop, if_pos (show 0x30 ≤ c ∧ c ≤ 0x39 from hc)]
  dsimp only
  rw [if_neg (by omega), hten, Option.bind_eq_bind, Option.bind_some, hdigit,
    int_eq_some (by omega) (by omega), Option.bind_some]
  by_cases h : 10 * n + digit c ≤ 255
  · rw [if_pos h, if_neg (by omega)]
  · rw [if_neg h, if_pos (by omega)]

/-- Digits, when a group has started. -/
theorem parseLoop_digits (hg : ∀ c ∈ g, IsDigit c) (out : UInt32) (dots : Int) (hn : n ≤ 255) :
    parseLoop (g ++ rest) out n dots
      = if decimalFrom n g ≤ 255 then parseLoop rest out (decimalFrom n g : Nat) dots
        else some 0 := by
  induction g generalizing n with
  | nil => rw [decimalFrom_nil, if_pos hn, List.nil_append]
  | cons c g ih =>
      have hc := hg c List.mem_cons_self
      rw [List.cons_append, parseLoop_digit hc _ _ _ hn, decimalFrom_cons]
      by_cases h : 10 * n + digit c ≤ 255
      · rw [if_pos h, ih (fun c hc => hg c (List.mem_cons_of_mem _ hc)) h]
      · -- the value does not get smaller again
        have hle := le_decimalFrom (10 * n + digit c) g
        rw [if_neg h, if_neg (by omega)]

/-- A whole group of digits. -/
theorem parseLoop_group (hne : g ≠ []) (hg : ∀ c ∈ g, IsDigit c) (out : UInt32) (dots : Int) :
    parseLoop (g ++ rest) out (-1) dots
      = if decimalValue g ≤ 255 then parseLoop rest out (decimalValue g : Nat) dots
        else some 0 := by
  obtain ⟨c, g, rfl⟩ := List.exists_cons_of_ne_nil hne
  have hc := hg c List.mem_cons_self
  have hd := digit_lt hc
  have hle := UInt8.le_iff_toNat_le.mp hc.1
  change 48 ≤ c.toNat at hle
  have hdigit : (c.toNat : Int) - 0x30 = (digit c : Nat) := by
    unfold digit
    omega
  rw [List.cons_append, parseLoop, if_pos (show 0x30 ≤ c ∧ c ≤ 0x39 from hc)]
  dsimp only
  rw [if_pos (by decide), hdigit,
    parseLoop_digits (fun c hc => hg c (List.mem_cons_of_mem _ hc)) _ _ (by omega)]
  unfold decimalValue
  rw [decimalFrom_cons, Nat.mul_zero, Nat.zero_add]

/-- A dot behind a group. -/
theorem parseLoop_dot (rest : List UInt8) (hn : n ≤ 255) (hout : out.toNat < 2 ^ 24) {d : Nat}
    (hd : d ≤ 3) :
    ∃ v, v.toNat = 256 * out.toNat + n ∧
      parseLoop (0x2E :: rest) out n d
        = if d = 3 then some 0 else parseLoop rest v (-1) ((d + 1 : Nat) : Int) := by
  obtain ⟨v, hshift, hv⟩ := shiftIn_eq hout hn
  refine ⟨v, hv, ?_⟩
  rw [parseLoop, if_neg (by decide), if_pos (by decide), if_neg (by omega), hshift,
    Option.bind_eq_bind, Option.bind_some, if_pos rfl, int_eq_some (by omega) (by omega),
    Option.bind_eq_bind, Option.bind_some]
  by_cases h : d = 3
  · rw [if_pos h, if_pos (by omega)]
  · rw [if_neg h, if_neg (by omega)]
    rfl

/-- The end of the string behind a group. -/
theorem parseLoop_end (rest : List UInt8) (hn : n ≤ 255) (hout : out.toNat < 2 ^ 24) (d : Nat) :
    ∃ v, v.toNat = 256 * out.toNat + n ∧
      parseLoop (0 :: rest) out n d = if d = 3 then some v else some 0 := by
  obtain ⟨v, hshift, hv⟩ := shiftIn_eq hout hn
  refine ⟨v, hv, ?_⟩
  rw [parseLoop, if_neg (by decide), if_pos (by decide), if_neg (by omega), hshift,
    Option.bind_eq_bind, Option.bind_some, if_neg (by decide)]
  by_cases h : d = 3
  · rw [if_pos h, if_neg (by omega)]
  · rw [if_neg h, if_pos (by omega)]

/-- Where no group has started, anything but a digit ends the loop. -/
theorem parseLoop_empty {c : UInt8} (hc : ¬ IsDigit c) (p : List UInt8) (out : UInt32) (dots : Int) :
    parseLoop (c :: p) out (-1) dots = some 0 := by
  rw [parseLoop, if_neg (show ¬ (0x30 ≤ c ∧ c ≤ 0x39) from hc)]
  split
  · rw [if_pos (by decide)]
  · rfl

/-- Behind a group, anything but a digit, a dot and the end does so too. -/
theorem parseLoop_other {c : UInt8} (hc : ¬ IsDigit c) (hdot : c ≠ 0x2E) (hend : c ≠ 0)
    (p : List UInt8) (out : UInt32) (part dots : Int) :
    parseLoop (c :: p) out part dots = some 0 := by
  rw [parseLoop, if_neg (show ¬ (0x30 ≤ c ∧ c ≤ 0x39) from hc), if_neg (by simp [hdot, hend])]

end parser

/-! ## What it accepts -/

section accepts

variable {out : UInt32} {d : Nat}

/-- As long as there are `d` bytes in `out`, a further one has room. -/
theorem room (hd : d ≤ 3) (hout : out.toNat < 256 ^ d) : out.toNat < 2 ^ 24 :=
  calc out.toNat < 256 ^ d := hout
    _ ≤ 256 ^ 3 := Nat.pow_le_pow_right (by decide) hd
    _ = 2 ^ 24 := by decide

/-- **Groups with dots between them are accepted** when the last of them is the fourth. -/
theorem parseLoop_groups {gs : List (List UInt8)} (hgs : ∀ g ∈ gs, IsOctet g) (hne : gs ≠ [])
    (hlen : gs.length + d = 4) (hout : out.toNat < 256 ^ d) (rest : List UInt8) :
    ∃ v, parseLoop ([0x2E].intercalate gs ++ 0 :: rest) out (-1) d = some v ∧
      v.toNat = bigEndianFrom out.toNat gs := by
  induction gs generalizing out d with
  | nil => exact absurd rfl hne
  | cons g gs ih =>
      have hg := hgs g List.mem_cons_self
      have hroom : out.toNat < 2 ^ 24 := room (by simp at hlen; omega) hout
      cases gs with
      | nil =>
          obtain ⟨v, hv, hend⟩ := parseLoop_end rest hg.le hroom d
          refine ⟨v, ?_, hv⟩
          rw [List.intercalate_singleton, parseLoop_group hg.ne_nil hg.digits, if_pos hg.le, hend,
            if_pos (by rw [List.length_singleton] at hlen; omega)]
      | cons g' gs =>
          have hd : d < 3 := by
            simp only [List.length_cons] at hlen
            omega
          obtain ⟨v, hv, hdot⟩ := parseLoop_dot ([0x2E].intercalate (g' :: gs) ++ 0 :: rest)
            hg.le hroom (Nat.le_of_lt hd)
          have hout' : v.toNat < 256 ^ (d + 1) := by
            have hle := hg.le
            rw [hv, Nat.pow_succ]
            omega
          obtain ⟨w, hw, hval⟩ := ih (fun g hg => hgs g (List.mem_cons_of_mem _ hg))
            (List.cons_ne_nil _ _) (by simp only [List.length_cons] at hlen ⊢; omega) hout'
          refine ⟨w, ?_, ?_⟩
          · rw [List.intercalate_cons_cons, List.append_assoc, List.append_assoc,
              parseLoop_group hg.ne_nil hg.digits, if_pos hg.le, List.singleton_append, hdot,
              if_neg (by omega)]
            exact hw
          · rw [hval, hv]
            rfl

/-- A string begins with a group of digits, which may be empty, and no digit behind it. -/
theorem exists_group (s : List UInt8) :
    ∃ g t, s = g ++ t ∧ (∀ c ∈ g, IsDigit c) ∧ ∀ c ∈ t.head?, ¬ IsDigit c := by
  induction s with
  | nil => exact ⟨[], [], rfl, by simp, by simp⟩
  | cons c s ih =>
      by_cases hc : IsDigit c
      · obtain ⟨g, t, rfl, hg, ht⟩ := ih
        exact ⟨c :: g, t, rfl, by simpa [hc] using hg, ht⟩
      · exact ⟨[], c :: s, rfl, by simp, by simpa using hc⟩

/-- **Nothing else is accepted**, and the loop ends on every string. -/
theorem parseLoop_returns (hd : d ≤ 3) (hout : out.toNat < 256 ^ d) {s : List UInt8} (hs : 0 ∉ s)
    (rest : List UInt8) :
    ∃ v, parseLoop (s ++ 0 :: rest) out (-1) d = some v ∧
      (v ≠ 0 → ∃ gs : List (List UInt8), gs.length + d = 4 ∧ (∀ g ∈ gs, IsOctet g) ∧
        s = [0x2E].intercalate gs ∧ v.toNat = bigEndianFrom out.toNat gs) := by
  -- the induction is on the length of what is left behind a group and its dot
  induction hn : s.length using Nat.strong_induction_on generalizing s out d with
  | _ n ih =>
      subst hn
      obtain ⟨g, t, rfl, hg, ht⟩ := exists_group s
      rw [List.append_assoc]
      by_cases hne : g = []
      · subst hne
        cases t with
        | nil => exact ⟨0, parseLoop_empty (by decide) _ _ _, fun h => absurd rfl h⟩
        | cons c t =>
            exact ⟨0, parseLoop_empty (ht c rfl) _ _ _, fun h => absurd rfl h⟩
      · rw [parseLoop_group hne hg]
        by_cases hle : decimalValue g ≤ 255
        · have hoctet : IsOctet g := ⟨hne, hg, hle⟩
          rw [if_pos hle]
          cases t with
          | nil =>
              obtain ⟨v, hv, hend⟩ := parseLoop_end rest hle (room hd hout) d
              rw [List.nil_append, hend]
              by_cases hlast : d = 3
              · rw [if_pos hlast]
                exact ⟨v, rfl, fun _ => ⟨[g], by simp [hlast], by simpa using hoctet, by simp, hv⟩⟩
              · rw [if_neg hlast]
                exact ⟨0, rfl, fun h => absurd rfl h⟩
          | cons c t =>
              have hc := ht c rfl
              have hend : c ≠ 0 := fun h => hs (by simp [h])
              by_cases hdot : c = 0x2E
              · subst hdot
                obtain ⟨v, hv, hloop⟩ := parseLoop_dot (t ++ 0 :: rest) hle (room hd hout) hd
                rw [List.cons_append, hloop]
                by_cases hlast : d = 3
                · rw [if_pos hlast]
                  exact ⟨0, rfl, fun h => absurd rfl h⟩
                · have hout' : v.toNat < 256 ^ (d + 1) := by
                    rw [hv, Nat.pow_succ]
                    omega
                  obtain ⟨w, hw, hgs⟩ := ih t.length (by simp; omega) (by omega) hout'
                    (fun h => hs (by simp [h])) rfl
                  rw [if_neg hlast]
                  refine ⟨w, hw, fun hne0 => ?_⟩
                  obtain ⟨gs, hlen, hall, rfl, hval⟩ := hgs hne0
                  obtain ⟨g', gs, rfl⟩ := List.exists_cons_of_ne_nil (l := gs) (by
                    rintro rfl
                    simp at hlen
                    omega)
                  refine ⟨g :: g' :: gs, by simp only [List.length_cons] at hlen ⊢; omega, ?_, ?_, ?_⟩
                  · rintro x hx
                    rcases List.mem_cons.mp hx with rfl | hx
                    · exact hoctet
                    · exact hall x hx
                  · rw [List.intercalate_cons_cons, List.append_assoc, List.singleton_append]
                  · rw [hval, hv]
                    rfl
              · exact ⟨0, parseLoop_other hc hdot hend _ _ _ _, fun h => absurd rfl h⟩
        · rw [if_neg hle]
          exact ⟨0, rfl, fun h => absurd rfl h⟩

end accepts

/-! ## The printer -/

section printer

variable {p rest : List UInt8} {i : Int}

/-- A character behind those that are written already. -/
theorem write_next (p rest : List UInt8) (hi : i = p.length) (hrest : 1 ≤ rest.length) (c : UInt8) :
    write (p ++ rest) i c = some ((p ++ [c]) ++ rest.drop 1) := by
  obtain ⟨x, rest, rfl⟩ := List.exists_cons_of_ne_nil (List.length_pos_iff.mp hrest)
  rw [write_at rfl hi, List.append_assoc]
  rfl

/-- **`u8_to_dec`** writes the decimal form. -/
theorem u8ToDec_eq (v : UInt8) (hi : i = p.length) (hrest : 3 ≤ rest.length) :
    u8ToDec v (p ++ rest) i = some ((p ++ decimalByte v) ++ rest.drop (decimalByte v).length,
      ((p ++ decimalByte v).length : Int)) := by
  have hone := fun c => write_next p rest hi (by omega) c
  have htwo := fun c c' => write_next (p ++ [c]) (rest.drop 1) (i := i + 1)
    (by simp [hi]) (by rw [List.length_drop]; omega) c'
  have hthree := fun c c' c'' => write_next (p ++ [c] ++ [c']) ((rest.drop 1).drop 1)
    (i := i + 2) (by simp [hi]) (by rw [List.length_drop, List.length_drop]; omega) c''
  unfold u8ToDec decimalByte
  split
  · rw [hone, Option.bind_eq_bind, Option.bind_some]
    dsimp only
    rw [htwo, Option.bind_some, hthree, Option.bind_some]
    simp [hi]
  · split
    · rw [hone, Option.bind_eq_bind, Option.bind_some, htwo, Option.bind_some]
      simp [hi]
    · rw [hone, Option.bind_eq_bind, Option.bind_some]
      simp [hi]

end printer

/-- The groups of an address. -/
def ipv4Groups (ip : UInt32) : List (List UInt8) :=
  [decimalByte (ip >>> 24 &&& 0xFF).toUInt8, decimalByte (ip >>> 16 &&& 0xFF).toUInt8,
    decimalByte (ip >>> 8 &&& 0xFF).toUInt8, decimalByte (ip &&& 0xFF).toUInt8]

/-- The text of an address. -/
def ipv4Text (ip : UInt32) : List UInt8 := [0x2E].intercalate (ipv4Groups ip)

theorem isOctet_decimalByte (v : UInt8) : IsOctet (decimalByte v) := by
  obtain ⟨hne, -, hdigits, hval⟩ := decimalByte_spec v
  refine ⟨hne, hdigits, ?_⟩
  have hlt := v.toNat_lt
  omega

/-- An address is what its four groups say. -/
theorem bigEndianFrom_ipv4Groups (ip : UInt32) : bigEndianFrom 0 (ipv4Groups ip) = ip.toNat := by
  have hval : ∀ v : UInt8, decimalValue (decimalByte v) = v.toNat := fun v =>
    (decimalByte_spec v).2.2.2
  have hlt := ip.toNat_lt
  have hmask : ∀ x : UInt32, (x &&& 0xFF).toUInt8.toNat = x.toNat % 256 := by
    intro x
    rw [UInt32.toNat_toUInt8, UInt32.toNat_and]
    change (x.toNat &&& 2 ^ 8 - 1) % 2 ^ 8 = _
    rw [Nat.and_two_pow_sub_one_eq_mod, Nat.mod_mod]
  have hshift : ∀ k : UInt32, k.toNat < 32 → (ip >>> k).toNat = ip.toNat / 2 ^ k.toNat := by
    intro k hk
    rw [UInt32.toNat_shiftRight, Nat.mod_eq_of_lt hk, Nat.shiftRight_eq_div_pow]
  unfold bigEndianFrom ipv4Groups
  simp only [List.foldl_cons, List.foldl_nil, hval, hmask, hshift 24 (by decide),
    hshift 16 (by decide), hshift 8 (by decide)]
  change 256 * (256 * (256 * (256 * 0 + ip.toNat / 2 ^ 24 % 256) + ip.toNat / 2 ^ 16 % 256)
    + ip.toNat / 2 ^ 8 % 256) + ip.toNat % 256 = ip.toNat
  omega

theorem ipv4Text_eq (ip : UInt32) :
    ipv4Text ip = decimalByte (ip >>> 24 &&& 0xFF).toUInt8 ++ ([0x2E] : List UInt8)
      ++ decimalByte (ip >>> 16 &&& 0xFF).toUInt8 ++ ([0x2E] : List UInt8)
      ++ decimalByte (ip >>> 8 &&& 0xFF).toUInt8 ++ ([0x2E] : List UInt8)
      ++ decimalByte (ip &&& 0xFF).toUInt8 := by
  unfold ipv4Text ipv4Groups
  simp only [List.intercalate_cons_cons, List.intercalate_singleton, List.append_assoc]

theorem length_ipv4Text (ip : UInt32) : (ipv4Text ip).length ≤ 15 := by
  have hlen : ∀ v : UInt8, (decimalByte v).length ≤ 3 := fun v => (decimalByte_spec v).2.1
  have ha := hlen (ip >>> 24 &&& 0xFF).toUInt8
  have hb := hlen (ip >>> 16 &&& 0xFF).toUInt8
  have hc := hlen (ip >>> 8 &&& 0xFF).toUInt8
  have hd := hlen (ip &&& 0xFF).toUInt8
  rw [ipv4Text_eq]
  simp only [List.length_append, List.length_singleton]
  omega

/-- **`format_ipv4`** writes the text of the address and a zero. -/
theorem formatIpv4_eq (ip : UInt32) {buffer : List UInt8} (hbuf : 16 ≤ buffer.length) :
    formatIpv4 ip buffer
      = some (ipv4Text ip ++ 0 :: buffer.drop ((ipv4Text ip).length + 1)) := by
  have hlen : ∀ v : UInt8, (decimalByte v).length ≤ 3 := fun v => (decimalByte_spec v).2.1
  rw [ipv4Text_eq]
  unfold formatIpv4
  simp only [Option.bind_eq_bind]
  generalize (ip >>> 24 &&& 0xFF).toUInt8 = a
  generalize (ip >>> 16 &&& 0xFF).toUInt8 = b
  generalize (ip >>> 8 &&& 0xFF).toUInt8 = c
  generalize (ip &&& 0xFF).toUInt8 = d
  have ha := hlen a
  have hb := hlen b
  have hc := hlen c
  have hd := hlen d
  -- a group, and the character behind it
  have hgroup : ∀ (v : UInt8) (p : List UInt8) (n : Nat) (i : Int), i = p.length →
      n + 4 ≤ buffer.length → u8ToDec v (p ++ buffer.drop n) i
        = some (p ++ decimalByte v ++ buffer.drop (n + (decimalByte v).length),
            ((p ++ decimalByte v).length : Int)) := by
    intro v p n i hi hn
    rw [u8ToDec_eq v hi (by rw [List.length_drop]; omega), List.drop_drop]
  have hchar : ∀ (x : UInt8) (p : List UInt8) (n : Nat), n + 1 ≤ buffer.length →
      write (p ++ buffer.drop n) p.length x = some (p ++ [x] ++ buffer.drop (n + 1)) := by
    intro x p n hn
    rw [write_next _ _ rfl (by rw [List.length_drop]; omega), List.drop_drop]
  have hplace : ∀ p : List UInt8, (p.length : Int) + 1 = ((p ++ [0x2E]).length : Int) := by
    intro p
    simp
  have hfirst := hgroup a [] 0 0 rfl (by omega)
  rw [List.drop_zero] at hfirst
  change u8ToDec a buffer 0 = _ at hfirst
  rw [hfirst, Option.bind_some]
  dsimp only
  rw [hchar _ _ _ (by omega), Option.bind_some, hgroup b _ _ _ (hplace _) (by omega),
    Option.bind_some]
  dsimp only
  rw [hchar _ _ _ (by omega), Option.bind_some, hgroup c _ _ _ (hplace _) (by omega),
    Option.bind_some]
  dsimp only
  rw [hchar _ _ _ (by omega), Option.bind_some, hgroup d _ _ _ (hplace _) (by omega),
    Option.bind_some]
  dsimp only
  have hcount : 0 + (decimalByte a).length + 1 + (decimalByte b).length + 1
      + (decimalByte c).length + 1 + (decimalByte d).length + 1
      = (decimalByte a ++ ([0x2E] : List UInt8) ++ decimalByte b ++ ([0x2E] : List UInt8)
        ++ decimalByte c ++ ([0x2E] : List UInt8) ++ decimalByte d).length + 1 := by
    simp only [List.length_append, List.length_singleton]
    omega
  rw [hchar _ _ _ (by omega), hcount, List.nil_append, List.append_assoc, List.singleton_append]

/-! ## The text form -/

/-- Groups of digits with dots between them have no zero in them. -/
theorem zero_not_mem_ipv4Text (ip : UInt32) : 0 ∉ ipv4Text ip := by
  have hgroup : ∀ v : UInt8, 0 ∉ decimalByte v := by
    intro v h
    exact absurd ((decimalByte_spec v).2.2.1 0 h) (by decide)
  rw [ipv4Text_eq]
  simp [hgroup]

/-- **The text form of addresses.** The parser ends on every string, with an address that is not zero
exactly on the dotted strings of that address; and the printer writes at most 15 characters and a
zero, which the parser reads back. No arithmetic overflows on the way. -/
theorem parseIpv4_iff (s rest : List UInt8) (hs : 0 ∉ s) (ip : UInt32) (buffer : List UInt8)
    (hbuf : 16 ≤ buffer.length) :
    (∃ w, parseIpv4 (some (s ++ 0 :: rest)) = some w ∧ ∀ v, v ≠ 0 → (w = v ↔ IsDotted s v)) ∧
    ∃ text, text.length ≤ 15 ∧ 0 ∉ text ∧
      formatIpv4 ip buffer = some (text ++ 0 :: buffer.drop (text.length + 1)) ∧
      parseIpv4 (some (text ++ 0 :: rest)) = some ip := by
  have haccept : ∀ {t : List UInt8} {v : UInt32}, IsDotted t v →
      parseIpv4 (some (t ++ 0 :: rest)) = some v := by
    rintro t v ⟨gs, hlen, hgs, rfl, hv⟩
    obtain ⟨w, hw, hval⟩ := parseLoop_groups hgs (List.ne_nil_of_length_pos (by omega)) (by omega)
      (show (0 : UInt32).toNat < 256 ^ 0 by decide) rest
    have heq : w = v := UInt32.toNat_inj.mp (hval.trans hv.symm)
    rw [← heq]
    exact hw
  constructor
  · obtain ⟨w, hw, hgs⟩ := parseLoop_returns (d := 0) (by omega)
      (show (0 : UInt32).toNat < 256 ^ 0 by decide) hs rest
    refine ⟨w, hw, fun v hv => ⟨?_, fun h => ?_⟩⟩
    · rintro rfl
      obtain ⟨gs, hlen, hall, hs, hval⟩ := hgs hv
      exact ⟨gs, by omega, hall, hs, hval⟩
    · have hv' := haccept h
      exact Option.some.inj (hw.symm.trans hv')
  · refine ⟨ipv4Text ip, length_ipv4Text ip, zero_not_mem_ipv4Text ip, formatIpv4_eq ip hbuf,
      haccept ⟨ipv4Groups ip, rfl, ?_, rfl, (bigEndianFrom_ipv4Groups ip).symm⟩⟩
    intro g hg
    simp only [ipv4Groups, List.mem_cons, List.not_mem_nil, or_false] at hg
    rcases hg with rfl | rfl | rfl | rfl
    · exact isOctet_decimalByte _
    · exact isOctet_decimalByte _
    · exact isOctet_decimalByte _
    · exact isOctet_decimalByte _

/-- The string `1.2.3.4`, and the address 10.0.2.15 in a buffer of 16 bytes. -/
theorem parseIpv4_iff_gateway :
    (∃ w, parseIpv4 (some ([0x31, 0x2E, 0x32, 0x2E, 0x33, 0x2E, 0x34] ++ 0 :: [])) = some w ∧
      ∀ v, v ≠ 0 → (w = v ↔ IsDotted [0x31, 0x2E, 0x32, 0x2E, 0x33, 0x2E, 0x34] v)) ∧
    ∃ text, text.length ≤ 15 ∧ 0 ∉ text ∧
      formatIpv4 0x0A00020F (List.replicate 16 0)
        = some (text ++ 0 :: (List.replicate 16 0).drop (text.length + 1)) ∧
      parseIpv4 (some (text ++ 0 :: [])) = some 0x0A00020F :=
  parseIpv4_iff _ [] (by decide) _ _ (by decide)

end MicroKernel.Net
