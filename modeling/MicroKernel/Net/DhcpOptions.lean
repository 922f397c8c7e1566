import MicroKernel.Lib.Tlv
import MicroKernel.Net.Dhcp

set_option autoImplicit false

/-! # The options of a DHCP message

`dhcp_parse_opts` walks over 312 bytes of options that a server, or whoever answers, has filled in.
The walk ends and stays inside them, whatever they are (`dhcpParseOptsChecked_eq`); and of options
that the functions `dhcp_opt_put_*` have written it finds the last of each kind
(`dhcpParseOpts_encode`).
-/

namespace MicroKernel.Net

open MicroKernel.Lib Bytes

/-! ## The walk -/

/-- `dhcp_parse_opts`, over what is filled in already. -/
def dhcpParseOptsOver (p : Bytes) (o : DhcpOptions) : Option DhcpOptions :=
  if ntohl (field32 p dhcpOptions) ≠ dhcpMagicCookie then none
  else some (dhcpParseLoop p 308 4 o)

theorem dhcpParseOpts_eq (p : Bytes) : dhcpParseOpts p = dhcpParseOptsOver p ⟨0, 0, 0, 0, 0⟩ := rfl

/-- What the walk finds from byte `i` of the options on. -/
def dhcpParseFrom (p : Bytes) (i : Nat) (o : DhcpOptions) : DhcpOptions :=
  dhcpParseLoop p (312 - i) i o

section walk

variable {p : Bytes} {i : Nat} (o : DhcpOptions)

/-- **There are enough rounds** when there are as many as bytes. -/
theorem dhcpParseLoop_rounds (p : Bytes) {n m i : Nat} (hn : 312 - i ≤ n) (hm : 312 - i ≤ m)
    (o : DhcpOptions) : dhcpParseLoop p n i o = dhcpParseLoop p m i o := by
  induction n generalizing i m o with
  | zero =>
      cases m with
      | zero => rfl
      | succ m =>
          unfold dhcpParseLoop
          rw [if_pos (by omega)]
  | succ n ih =>
      cases m with
      | zero =>
          unfold dhcpParseLoop
          rw [if_pos (by omega)]
      | succ m =>
          unfold dhcpParseLoop
          rw [ih (m := m) (by omega) (by omega)]
          dsimp only
          rw [ih (m := m) (by omega) (by omega)]

theorem dhcpParseOptsOver_of_cookie (h : ntohl (field32 p dhcpOptions) = dhcpMagicCookie) :
    dhcpParseOptsOver p o = some (dhcpParseFrom p 4 o) := if_neg (not_not_intro h)

/-- Behind the last byte there is nothing. -/
theorem dhcpParseFrom_out (h : 312 ≤ i) : dhcpParseFrom p i o = o := by
  unfold dhcpParseFrom
  rw [Nat.sub_eq_zero_of_le h]
  rfl

/-- The end ends the walk. -/
theorem dhcpParseFrom_end (h : p (dhcpOptions + i) = 255) : dhcpParseFrom p i o = o := by
  unfold dhcpParseFrom
  cases 312 - i with
  | zero => rfl
  | succ n =>
      unfold dhcpParseLoop
      dsimp only
      rw [if_pos h, ite_self]

/-- A pad is passed over. -/
theorem dhcpParseFrom_pad (h : p (dhcpOptions + i) = 0) :
    dhcpParseFrom p i o = dhcpParseFrom p (i + 1) o := by
  by_cases hi : 312 ≤ i
  · rw [dhcpParseFrom_out o hi, dhcpParseFrom_out o (by omega)]
  · unfold dhcpParseFrom
    obtain ⟨n, hn⟩ : ∃ n, 312 - i = n + 1 := ⟨312 - i - 1, by omega⟩
    rw [hn, dhcpParseLoop, if_neg hi]
    dsimp only
    rw [h, if_neg (by decide), if_pos rfl]
    exact dhcpParseLoop_rounds p (by omega) (by omega) o

section option

variable (h255 : p (dhcpOptions + i) ≠ 255) (h0 : p (dhcpOptions + i) ≠ 0)

include h255 h0

/-- An option that does not fit ends the walk. -/
theorem dhcpParseFrom_cut (h : 312 < i + 2 + (p (dhcpOptions + i + 1)).toNat) :
    dhcpParseFrom p i o = o := by
  unfold dhcpParseFrom
  cases 312 - i with
  | zero => rfl
  | succ n =>
      rw [dhcpParseLoop]
      dsimp only
      rw [if_neg h255, if_neg h0, if_pos h, ite_self, ite_self]

/-- An option that fits is taken, and the walk goes on behind it. -/
theorem dhcpParseFrom_option (h : i + 2 + (p (dhcpOptions + i + 1)).toNat ≤ 312) :
    dhcpParseFrom p i o
      = dhcpParseFrom p (i + 2 + (p (dhcpOptions + i + 1)).toNat)
          (dhcpOption p (dhcpOptions + i + 2) (p (dhcpOptions + i)) (p (dhcpOptions + i + 1)) o) := by
  unfold dhcpParseFrom
  obtain ⟨n, hn⟩ : ∃ n, 312 - i = n + 1 := ⟨312 - i - 1, by omega⟩
  rw [hn, dhcpParseLoop, if_neg (by omega)]
  dsimp only
  rw [if_neg h255, if_neg h0, if_neg (by omega), if_neg (by omega)]
  exact dhcpParseLoop_rounds p (by omega) (by omega) _

end option

end walk

/-! ## The walk stays inside -/

/-- A read of byte `i` of the options, of which there are 312. -/
def optionByte (p : Bytes) (i : Nat) : Option UInt8 :=
  if i < 312 then some (p (dhcpOptions + i)) else none

/-- A read of four bytes of the options. -/
def optionWord (p : Bytes) (i : Nat) : Option UInt32 :=
  if i + 4 ≤ 312 then some (field32 p (dhcpOptions + i)) else none

/-- The `switch` of `dhcp_parse_opts`, which ends at a read outside the options. -/
def dhcpOptionChecked (p : Bytes) (i : Nat) (code len : UInt8) (o : DhcpOptions) :
    Option DhcpOptions :=
  if code = 53 then
    if len ≥ 1 then (optionByte p i).map fun v => { o with msgType := v } else some o
  else if code = 54 then
    if len = 4 then (optionWord p i).map fun v => { o with serverId := v } else some o
  else if code = 1 then
    if len = 4 then (optionWord p i).map fun v => { o with subnet := v } else some o
  else if code = 3 then
    if len ≥ 4 then (optionWord p i).map fun v => { o with router := v } else some o
  else if code = 6 then
    if len ≥ 4 then (optionWord p i).map fun v => { o with dns := v } else some o
  else some o

/-- The loop of `dhcp_parse_opts`, which ends at a read outside the options, and also when it has
not come to an end of its own in the rounds it is given. -/
def dhcpParseLoopChecked (p : Bytes) : Nat → Nat → DhcpOptions → Option DhcpOptions
  | 0, _, _ => none
  | n + 1, i, o =>
      if 312 ≤ i then some o
      else
        (optionByte p i).bind fun code =>
          if code = 255 then some o
          else if code = 0 then dhcpParseLoopChecked p n (i + 1) o
          else if 312 ≤ i + 1 then some o
          else
            (optionByte p (i + 1)).bind fun len =>
              if 312 < i + 2 + len.toNat then some o
              else
                (dhcpOptionChecked p (i + 2) code len o).bind
                  (dhcpParseLoopChecked p n (i + 2 + len.toNat))

/-- `dhcp_parse_opts` with these checks: `none` when one of them fails. -/
def dhcpParseOptsChecked (p : Bytes) (o : DhcpOptions) : Option (Option DhcpOptions) :=
  (optionWord p 0).bind fun cookie =>
    if ntohl cookie ≠ dhcpMagicCookie then some none
    else (dhcpParseLoopChecked p 309 4 o).map some

theorem optionByte_inside (p : Bytes) {i : Nat} (hi : i < 312) :
    optionByte p i = some (p (dhcpOptions + i)) := if_pos hi

theorem optionWord_inside (p : Bytes) {i : Nat} (hi : i + 4 ≤ 312) :
    optionWord p i = some (field32 p (dhcpOptions + i)) := if_pos hi

/-- An option that fits is read inside. -/
theorem dhcpOptionChecked_eq (p : Bytes) {i : Nat} {code len : UInt8} (h : i + len.toNat ≤ 312)
    (o : DhcpOptions) :
    dhcpOptionChecked p i code len o = some (dhcpOption p (dhcpOptions + i) code len o) := by
  have hword : ∀ f : UInt32 → DhcpOptions, 4 ≤ len.toNat →
      (optionWord p i).map f = some (f (field32 p (dhcpOptions + i))) := by
    intro f hlen
    rw [optionWord_inside p (by omega), Option.map_some]
  have hge : len ≥ 4 → 4 ≤ len.toNat := fun hlen => UInt8.le_iff_toNat_le.mp hlen
  have heq : len = 4 → 4 ≤ len.toNat := by
    rintro rfl
    decide
  unfold dhcpOptionChecked dhcpOption
  split_ifs with h53 hlen _ hlen _ hlen _ hlen _ hlen
  · have hpos : 1 ≤ len.toNat := UInt8.le_iff_toNat_le.mp hlen
    rw [optionByte_inside p (by omega), Option.map_some]
  · rfl
  · exact hword _ (heq hlen)
  · rfl
  · exact hword _ (heq hlen)
  · rfl
  · exact hword _ (hge hlen)
  · rfl
  · exact hword _ (hge hlen)
  · rfl
  · rfl

theorem dhcpParseLoopChecked_eq (p : Bytes) {n i : Nat} (hn : 312 - i < n) (o : DhcpOptions) :
    dhcpParseLoopChecked p n i o = some (dhcpParseFrom p i o) := by
  induction n generalizing i o with
  | zero => omega
  | succ n ih =>
      unfold dhcpParseLoopChecked
      by_cases hi : 312 ≤ i
      · rw [if_pos hi, dhcpParseFrom_out o hi]
      rw [if_neg hi, optionByte_inside p (by omega), Option.bind_some]
      by_cases h255 : p (dhcpOptions + i) = 255
      · rw [if_pos h255, dhcpParseFrom_end o h255]
      by_cases h0 : p (dhcpOptions + i) = 0
      · rw [if_neg h255, if_pos h0, ih (by omega), dhcpParseFrom_pad o h0]
      rw [if_neg h255, if_neg h0]
      by_cases hi' : 312 ≤ i + 1
      · rw [if_pos hi', dhcpParseFrom_cut o h255 h0 (by omega)]
      rw [if_neg hi', optionByte_inside p (by omega), Option.bind_some, ← Nat.add_assoc]
      by_cases hfits : 312 < i + 2 + (p (dhcpOptions + i + 1)).toNat
      · rw [if_pos hfits, dhcpParseFrom_cut o h255 h0 hfits]
      · rw [if_neg hfits, dhcpOptionChecked_eq p (by omega), Option.bind_some, ih (by omega),
          dhcpParseFrom_option o h255 h0 (by omega)]
        rfl

/-- **The walk ends inside**, for every area of options: no check fails. -/
theorem dhcpParseOptsChecked_eq (p : Bytes) (o : DhcpOptions) :
    dhcpParseOptsChecked p o = some (dhcpParseOptsOver p o) := by
  unfold dhcpParseOptsChecked dhcpParseOptsOver
  rw [optionWord_inside p (by decide), Option.bind_some, Nat.add_zero,
    dhcpParseLoopChecked_eq p (by decide)]
  by_cases hcookie : ntohl (field32 p dhcpOptions) ≠ dhcpMagicCookie
  · rw [if_pos hcookie, if_pos hcookie]
  · rw [if_neg hcookie, if_neg hcookie]
    rfl

/-! ## Writing options -/

/-- The code of an option, which is not that of a pad or of the end. -/
abbrev OptionCode := { code : UInt8 // code ≠ 0 ∧ code ≠ 255 }

/-- What is put into the options: a pad, or an option by one of the three functions. -/
inductive DhcpItem where
  | pad
  | u8 (code : OptionCode) (v : UInt8)
  | u32 (code : OptionCode) (v : UInt32)
  | list (code : OptionCode) (lst : { l : List UInt8 // l.length < 256 })

/-- Put an item at `opt`. -/
def dhcpPut (p : Bytes) (opt : Nat) : DhcpItem → Bytes × Nat
  | .pad => (store8 p opt 0, opt + 1)
  | .u8 code v => dhcpOptPutU8 p opt code v
  | .u32 code v => dhcpOptPutU32 p opt code v
  | .list code lst => dhcpOptPutList p opt code lst

/-- Put items one after the other. -/
def dhcpPutAll (p : Bytes) (opt : Nat) (items : List DhcpItem) : Bytes × Nat :=
  items.foldl (fun q item => dhcpPut q.1 q.2 item) (p, opt)

/-- A message with the cookie, the items and the end byte, and where it ends. -/
def dhcpEncode (p : Bytes) (items : List DhcpItem) : Bytes × Nat :=
  let p := setField32 p dhcpOptions (htonl dhcpMagicCookie)
  let (p, opt) := dhcpPutAll p (dhcpOptions + 4) items
  (store8 p opt 255, opt + 1)

/-- The four bytes of a word as the machine stores it. -/
def wordBytes (v : UInt32) : List UInt8 :=
  [UInt8.ofNat v.toNat, UInt8.ofNat (v.toNat / 256), UInt8.ofNat (v.toNat / 65536),
    UInt8.ofNat (v.toNat / 16777216)]

/-- The option that is put, if it is one. -/
def DhcpItem.option? : DhcpItem → Option Tlv
  | .pad => none
  | .u8 code v => some ⟨code, [v], code.2.1, code.2.2, (by decide : 1 < 256)⟩
  | .u32 code v => some ⟨code, wordBytes (htonl v), code.2.1, code.2.2, (by decide : 4 < 256)⟩
  | .list code lst => some ⟨code, lst, code.2.1, code.2.2, lst.2⟩

theorem holds_setField32 (p : Bytes) (a : Nat) (v : UInt32) :
    Holds (setField32 p a v) a (wordBytes v) := by
  intro i hi
  have hi4 : i < 4 := hi
  unfold setField32
  rw [store32_byte p a _ hi4]
  obtain rfl | rfl | rfl | rfl : i = 0 ∨ i = 1 ∨ i = 2 ∨ i = 3 := by omega
  · exact congrArg UInt8.ofNat (Nat.div_one _)
  · rfl
  · rfl
  · rfl

/-- **What an item puts** is its bytes, and nothing before them. -/
theorem dhcpPut_spec (p : Bytes) (opt : Nat) (item : DhcpItem) :
    Holds (dhcpPut p opt item).1 opt (Tlv.stream [item.option?]) ∧
      (dhcpPut p opt item).2 = opt + (Tlv.stream [item.option?]).length ∧
      ∀ x, x < opt → (dhcpPut p opt item).1 x = p x := by
  -- the code and the length stay when the value is put behind them
  have hhead : ∀ (code len : UInt8) (value : List UInt8) (q : Bytes),
      Holds q (opt + 2) value → (∀ x, x < opt + 2 → q x
        = store8 (store8 p opt code) (opt + 1) len x) → Holds q opt (code :: len :: value) := by
    intro code len value q hvalue hq
    refine holds_cons.mpr ⟨?_, holds_cons.mpr ⟨?_, hvalue⟩⟩
    · rw [hq opt (by omega), store8_ne _ _ (by omega), store8_same]
    · rw [hq (opt + 1) (by omega), store8_same]
  have hbefore : ∀ (code len : UInt8) (x : Nat), x < opt →
      store8 (store8 p opt code) (opt + 1) len x = p x := by
    intro code len x hx
    rw [store8_ne _ _ (by omega), store8_ne _ _ (by omega)]
  cases item with
  | pad =>
      exact ⟨holds_cons.mpr ⟨store8_same _ _ _, holds_nil _ _⟩, rfl,
        fun x hx => store8_ne _ _ (by omega)⟩
  | u8 code v =>
      refine ⟨hhead code 1 [v] _ ?_ fun x hx => store8_ne _ _ (by omega), rfl, fun x hx => ?_⟩
      · exact holds_cons.mpr ⟨store8_same _ _ _, holds_nil _ _⟩
      · exact (store8_ne _ _ (by omega)).trans (hbefore code 1 x hx)
  | u32 code v =>
      refine ⟨hhead code 4 (wordBytes (htonl v)) _ (holds_setField32 _ _ _)
        fun x hx => setField32_outside _ _ (by omega), rfl, fun x hx => ?_⟩
      exact (setField32_outside _ _ (by omega)).trans (hbefore code 4 x hx)
  | list code lst =>
      have hlen : Tlv.stream [(DhcpItem.list code lst).option?]
          = (code : UInt8) :: UInt8.ofNat lst.1.length :: lst.1 := List.append_nil _
      have hkeep : ∀ x, x < opt + 2 → (dhcpPut p opt (.list code lst)).1 x
          = store8 (store8 p opt code) (opt + 1) (UInt8.ofNat lst.1.length) x := by
        intro x hx
        have hput : (dhcpPut p opt (.list code lst)).1
            = copy (store8 (store8 p opt code) (opt + 1) (UInt8.ofNat lst.1.length)) (opt + 2)
              (fun i => lst.1.getD i 0) 0 lst.1.length := rfl
        rw [hput]
        exact copy_outside _ _ _ (Or.inl hx)
      rw [hlen]
      refine ⟨hhead code _ lst.1 _ (holds_copy _ _ _) hkeep, ?_, fun x hx => ?_⟩
      · show opt + 2 + lst.1.length = opt + (lst.1.length + 1 + 1)
        omega
      · exact (hkeep x (by omega)).trans (hbefore code _ x hx)

/-- The options and pads of items. -/
def optionsOf (items : List DhcpItem) : List (Option Tlv) := items.map DhcpItem.option?

theorem dhcpPutAll_spec (p : Bytes) (opt : Nat) (items : List DhcpItem) :
    Holds (dhcpPutAll p opt items).1 opt (Tlv.stream (optionsOf items)) ∧
      (dhcpPutAll p opt items).2 = opt + (Tlv.stream (optionsOf items)).length ∧
      ∀ x, x < opt → (dhcpPutAll p opt items).1 x = p x := by
  induction items generalizing p opt with
  | nil => exact ⟨holds_nil p opt, rfl, fun _ _ => rfl⟩
  | cons item items ih =>
      obtain ⟨hput, hend, hbefore⟩ := dhcpPut_spec p opt item
      obtain ⟨hrest, hlast, hkeep⟩ := ih (dhcpPut p opt item).1 (dhcpPut p opt item).2
      have hsplit : Tlv.stream (optionsOf (item :: items))
          = Tlv.stream [item.option?] ++ Tlv.stream (optionsOf items) :=
        @List.flatMap_append _ _ [item.option?] _ _
      have hall : dhcpPutAll p opt (item :: items)
          = dhcpPutAll (dhcpPut p opt item).1 (dhcpPut p opt item).2 items := rfl
      rw [hend] at hrest hlast hkeep
      rw [hall, hend, hsplit, holds_append, List.length_append]
      refine ⟨⟨hput.congr fun i hi => hkeep _ (by omega), hrest⟩, ?_, fun x hx => ?_⟩
      · rw [← Nat.add_assoc]
        exact hlast
      · exact (hkeep x (by omega)).trans (hbefore x hx)

/-! ## What the walk finds -/

/-- The bytes of the value of an option, from address 0 on. -/
def valueBytes (x : Tlv) : Bytes := fun i => x.value.getD i 0

/-- The `switch` of `dhcp_parse_opts` on an option. -/
def applyOption (o : DhcpOptions) (x : Tlv) : DhcpOptions :=
  dhcpOption (valueBytes x) 0 x.code (UInt8.ofNat x.value.length) o

/-- The `switch` reads the value of the option only. -/
theorem dhcpOption_of_holds {p : Bytes} {a : Nat} {x : Tlv} (h : Holds p a x.value)
    (o : DhcpOptions) :
    dhcpOption p a x.code (UInt8.ofNat x.value.length) o = applyOption o x := by
  have hlen := x.length_toNat
  have hbyte : 1 ≤ x.value.length → p a = valueBytes x 0 := fun hpos => h 0 hpos
  have hword : 4 ≤ x.value.length → field32 p a = field32 (valueBytes x) 0 := by
    intro hfour
    have hload : load32 p a = load32 (valueBytes x) 0 := load32_congr fun i hi => by
      rw [h i (by omega), valueBytes, Nat.zero_add]
    rw [field32, field32, hload]
  have hge : ∀ n : UInt8, UInt8.ofNat x.value.length ≥ n → n.toNat ≤ x.value.length :=
    fun n hn => hlen ▸ UInt8.le_iff_toNat_le.mp hn
  have heq : UInt8.ofNat x.value.length = 4 → 4 ≤ x.value.length := by
    intro hfour
    rw [← hlen, hfour]
    decide
  unfold applyOption dhcpOption
  split_ifs with h53 hpos _ hfour _ hfour _ hfour _ hfour
  · rw [hbyte (hge 1 hpos)]
  · rfl
  · rw [hword (heq hfour)]
  · rfl
  · rw [hword (heq hfour)]
  · rfl
  · rw [hword (hge 4 hfour)]
  · rfl
  · rw [hword (hge 4 hfour)]
  · rfl
  · rfl

/-- **The walk takes the options of a stream** one after the other. -/
theorem dhcpParseFrom_stream {p : Bytes} {i : Nat} {items : List (Option Tlv)}
    (h : Holds p (dhcpOptions + i) (Tlv.stream items ++ [255]))
    (hfits : i + (Tlv.stream items).length < 312) (o : DhcpOptions) :
    dhcpParseFrom p i o = (items.filterMap id).foldl applyOption o := by
  induction items generalizing i o with
  | nil => exact dhcpParseFrom_end o (h 0 (Nat.zero_lt_one))
  | cons item items ih =>
      cases item with
      | none =>
          obtain ⟨h0, hrest⟩ := holds_cons.mp h
          rw [dhcpParseFrom_pad o h0]
          exact ih hrest (by rw [Tlv.stream_none, List.length_cons] at hfits; omega) o
      | some x =>
          rw [Tlv.stream_some, List.length_append, x.bytes_length] at hfits
          rw [Tlv.stream_some, List.append_assoc, holds_append, x.bytes_length] at h
          obtain ⟨hbytes, hrest⟩ := h
          obtain ⟨hcode, hbytes⟩ := holds_cons.mp hbytes
          obtain ⟨hlen, hvalue⟩ := holds_cons.mp hbytes
          have hlength := x.length_toNat
          rw [dhcpParseFrom_option o (by rw [hcode]; exact x.not_end)
            (by rw [hcode]; exact x.not_pad) (by rw [hlen, hlength]; omega), hcode, hlen, hlength,
            dhcpOption_of_holds hvalue]
          refine ih ?_ (by omega) (applyOption o x)
          rwa [Nat.add_assoc i, ← Nat.add_assoc dhcpOptions]

/-- An option with this code and an acceptable length. -/
def isOption (code : UInt8) (ok : Nat → Bool) (x : Tlv) : Bool :=
  x.code == code && ok x.value.length

/-- The value of the last such option. -/
def lastValue (code : UInt8) (ok : Nat → Bool) (items : List DhcpItem) : Option (List UInt8) :=
  (((optionsOf items).filterMap id).filter (isOption code ok)).getLast?.map Tlv.value

/-- The first four bytes of a value, as the machine reads them. -/
def valueWord (value : List UInt8) : UInt32 := field32 (fun i => value.getD i 0) 0

/-- What the items say, over what is filled in already. -/
def itemsSay (items : List DhcpItem) (o : DhcpOptions) : DhcpOptions where
  serverId := (lastValue 54 (· == 4) items).elim o.serverId valueWord
  subnet := (lastValue 1 (· == 4) items).elim o.subnet valueWord
  router := (lastValue 3 (4 ≤ ·) items).elim o.router valueWord
  dns := (lastValue 6 (4 ≤ ·) items).elim o.dns valueWord
  msgType := (lastValue 53 (1 ≤ ·) items).elim o.msgType fun value => value.getD 0 0

/-- A value of four bytes is the word that was put, in the order of the network. -/
theorem valueWord_wordBytes (v : UInt32) : valueWord (wordBytes v) = v := by
  have hsame : ∀ i, i < 4 → (wordBytes v).getD (0 + i) 0 = setField32 (fun _ => 0) 0 v (0 + i) :=
    fun i hi => by
      have h := holds_setField32 (fun _ => 0) 0 v i hi
      rw [h, Nat.zero_add]
  rw [valueWord, field32_congr hsame, field32_setField32]

/-- The tests of the lengths, on an option. -/
theorem length_tests (x : Tlv) :
    (UInt8.ofNat x.value.length ≥ 1 ↔ 1 ≤ x.value.length) ∧
      (UInt8.ofNat x.value.length ≥ 4 ↔ 4 ≤ x.value.length) ∧
      (UInt8.ofNat x.value.length = 4 ↔ x.value.length = 4) := by
  have hlen := x.length_toNat
  rw [ge_iff_le, ge_iff_le, UInt8.le_iff_toNat_le, UInt8.le_iff_toNat_le, ← UInt8.toNat_inj, hlen]
  exact ⟨Iff.rfl, Iff.rfl, Iff.rfl⟩

/-- **What one option changes.** -/
theorem applyOption_fields (o : DhcpOptions) (x : Tlv) :
    applyOption o x =
      { serverId := if isOption 54 (· == 4) x then valueWord x.value else o.serverId
        subnet := if isOption 1 (· == 4) x then valueWord x.value else o.subnet
        router := if isOption 3 (4 ≤ ·) x then valueWord x.value else o.router
        dns := if isOption 6 (4 ≤ ·) x then valueWord x.value else o.dns
        msgType := if isOption 53 (1 ≤ ·) x then x.value.getD 0 0 else o.msgType } := by
  obtain ⟨h1, h4, heq⟩ := length_tests x
  simp only [applyOption, dhcpOption, isOption, h1, h4, heq, beq_iff_eq, Bool.and_eq_true,
    decide_eq_true_eq]
  -- an option has one code
  by_cases h53 : x.code = 53
  · simp +decide only [h53, if_true, false_and, true_and, if_false]
    split <;> rfl
  by_cases h54 : x.code = 54
  · simp +decide only [h54, if_true, false_and, true_and, if_false]
    split <;> rfl
  by_cases h1 : x.code = 1
  · simp +decide only [h1, if_true, false_and, true_and, if_false]
    split <;> rfl
  by_cases h3 : x.code = 3
  · simp +decide only [h3, if_true, false_and, true_and, if_false]
    split <;> rfl
  simp only [h53, h54, h1, h3, false_and, if_false]
  by_cases h6 : x.code = 6
  · simp only [h6, true_and, if_true]
    split <;> rfl
  · simp only [h6, false_and, if_false]

/-- The options of a list leave what the last of each kind says. -/
theorem foldl_applyOption (items : List DhcpItem) (o : DhcpOptions) :
    ((optionsOf items).filterMap id).foldl applyOption o = itemsSay items o := by
  generalize hxs : (optionsOf items).filterMap id = xs
  have hlast : ∀ {β : Type} (field : DhcpOptions → β) (code : UInt8) (ok : Nat → Bool)
      (value : List UInt8 → β),
      (∀ o x, field (applyOption o x)
        = if isOption code ok x then value x.value else field o) →
      field (xs.foldl applyOption o) = (lastValue code ok items).elim (field o) value := by
    intro β field code ok value happly
    calc field (xs.foldl applyOption o)
        = xs.foldl (fun v x => if isOption code ok x then value x.value else v) (field o) :=
          (List.foldl_hom field fun o x => (happly o x).symm).symm
      _ = (xs.filter (isOption code ok)).getLast?.elim (field o) fun x => value x.value :=
          foldl_keep_last (isOption code ok) (fun x => value x.value) xs (field o)
      _ = (lastValue code ok items).elim (field o) value := by
          unfold lastValue
          rw [hxs]
          cases (xs.filter (isOption code ok)).getLast? with
          | none => rfl
          | some x => rfl
  have hserver := hlast DhcpOptions.serverId 54 (· == 4) valueWord fun o x =>
    congrArg DhcpOptions.serverId (applyOption_fields o x)
  have hsubnet := hlast DhcpOptions.subnet 1 (· == 4) valueWord fun o x =>
    congrArg DhcpOptions.subnet (applyOption_fields o x)
  have hrouter := hlast DhcpOptions.router 3 (4 ≤ ·) valueWord fun o x =>
    congrArg DhcpOptions.router (applyOption_fields o x)
  have hdns := hlast DhcpOptions.dns 6 (4 ≤ ·) valueWord fun o x =>
    congrArg DhcpOptions.dns (applyOption_fields o x)
  have htype := hlast DhcpOptions.msgType 53 (1 ≤ ·) (fun value => value.getD 0 0) fun o x =>
    congrArg DhcpOptions.msgType (applyOption_fields o x)
  unfold itemsSay
  rw [← hserver, ← hsubnet, ← hrouter, ← hdns, ← htype]

/-- **Decode undoes encode.** The parser stays inside the options whatever they are; and of items
that fit, with an end byte behind them, it finds the last of each kind. -/
theorem dhcpParseOpts_encode :
    (∀ (p : Bytes) (o : DhcpOptions), dhcpParseOptsChecked p o = some (dhcpParseOptsOver p o)) ∧
      ∀ (p : Bytes) (items : List DhcpItem) (o : DhcpOptions),
        (dhcpEncode p items).2 ≤ dhcpOptions + 312 →
        dhcpParseOptsOver (dhcpEncode p items).1 o = some (itemsSay items o) := by
  refine ⟨dhcpParseOptsChecked_eq, fun p items o hfits => ?_⟩
  generalize hq : setField32 p dhcpOptions (htonl dhcpMagicCookie) = q
  obtain ⟨hitems, hend, hbefore⟩ := dhcpPutAll_spec q (dhcpOptions + 4) items
  have hencode : dhcpEncode p items
      = (store8 (dhcpPutAll q (dhcpOptions + 4) items).1
          (dhcpPutAll q (dhcpOptions + 4) items).2 255,
        (dhcpPutAll q (dhcpOptions + 4) items).2 + 1) := by
    rw [← hq]
    rfl
  rw [hencode] at hfits ⊢
  dsimp only at hfits ⊢
  rw [hend] at hfits ⊢
  generalize dhcpPutAll q (dhcpOptions + 4) items = r at hitems hbefore
  have hcookie : ntohl (field32 (store8 r.1 (dhcpOptions + 4
      + (Tlv.stream (optionsOf items)).length) 255) dhcpOptions) = dhcpMagicCookie := by
    have hfield : field32 (store8 r.1 (dhcpOptions + 4
        + (Tlv.stream (optionsOf items)).length) 255) dhcpOptions = field32 q dhcpOptions :=
      field32_congr fun i hi => by
        rw [store8_ne _ _ (by omega), hbefore _ (by omega)]
    rw [hfield, ← hq, field32_setField32]
    rfl
  rw [dhcpParseOptsOver_of_cookie o hcookie]
  have hholds : Holds (store8 r.1 (dhcpOptions + 4 + (Tlv.stream (optionsOf items)).length) 255)
      (dhcpOptions + 4) (Tlv.stream (optionsOf items) ++ [255]) := by
    rw [holds_append]
    exact ⟨hitems.congr fun i hi => store8_ne _ _ (by omega),
      holds_cons.mpr ⟨store8_same _ _ _, holds_nil _ _⟩⟩
  exact congrArg some ((dhcpParseFrom_stream hholds (by omega) o).trans (foldl_applyOption items o))

/-- The options of a server: two routers, a name server that is too short, and the server's id a
second time. -/
def serverItems : List DhcpItem :=
  [.u8 ⟨53, by decide⟩ 2, .pad, .u32 ⟨54, by decide⟩ 0x0A000202,
    .list ⟨3, by decide⟩ ⟨[10, 0, 2, 2, 10, 0, 2, 1], by decide⟩, .pad, .pad,
    .list ⟨6, by decide⟩ ⟨[10, 0, 2], by decide⟩, .u32 ⟨54, by decide⟩ 0x0A000203]

theorem dhcpParseOpts_encode_server :
    dhcpParseOptsOver (dhcpEncode (fun _ => 0xAA) serverItems).1 ⟨1, 2, 3, 4, 0⟩
      = some ⟨htonl 0x0A000203, 2, htonl 0x0A000202, 4, 2⟩ := by
  have hsay : itemsSay serverItems ⟨1, 2, 3, 4, 0⟩
      = ⟨htonl 0x0A000203, 2, htonl 0x0A000202, 4, 2⟩ := by rfl
  rw [← hsay]
  exact dhcpParseOpts_encode.2 (fun _ => 0xAA) serverItems ⟨1, 2, 3, 4, 0⟩ (by decide)

end MicroKernel.Net
