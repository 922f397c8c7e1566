import MicroKernel.Net.Transmit

set_option autoImplicit false

/-! # The receive ring

`ne2000_receive_packet` has six ways to leave, and each moves the boundary by a rule of its own.
Two of them are wrong. The one for a packet that is larger than the caller's buffer subtracts one
from the next page without the wrap, which leaves the ring when the next packet starts on its first
page; and the recovery of a packet without a legal length writes 64 bytes whatever the size of the
buffer. A call is safe exactly when it takes neither with such a packet or such a buffer, and a
run of safe calls keeps the boundary in the ring (`receiveRing_iff`).
-/

namespace MicroKernel.Net

open MicroKernel.Lib Bytes

/-! ## Pages -/

/-- A page of the ring. -/
def InRing (page : UInt8) : Prop := rxStartPage ≤ page ∧ page < rxStopPage

instance (page : UInt8) : Decidable (InRing page) := inferInstanceAs (Decidable (_ ∧ _))

theorem inRing_iff (page : UInt8) : InRing page ↔ 0x40 ≤ page.toNat ∧ page.toNat < 0x80 := by
  rw [InRing, UInt8.le_iff_toNat_le, UInt8.lt_iff_toNat_lt]
  rfl

theorem inRing_nextPage {page : UInt8} (h : InRing page) : InRing (nextPage page) := by
  rw [inRing_iff] at h
  have hadd : (page + 1).toNat = page.toNat + 1 := by
    rw [UInt8.toNat_add]
    exact Nat.mod_eq_of_lt (by show page.toNat + 1 < 256; omega)
  unfold nextPage
  dsimp only
  split
  · decide
  · rename_i hlt
    rw [ge_iff_le, UInt8.le_iff_toNat_le] at hlt
    have hstop : rxStopPage.toNat = 0x80 := rfl
    rw [inRing_iff]
    omega

theorem toNat_sub_one {page : UInt8} (h : InRing page) : (page - 1).toNat = page.toNat - 1 := by
  rw [inRing_iff] at h
  rw [UInt8.toNat_sub_of_le]
  · rfl
  · rw [UInt8.le_iff_toNat_le]
    show 1 ≤ page.toNat
    omega

theorem inRing_previousPage {page : UInt8} (h : InRing page) : InRing (previousPage page) := by
  have hsub := toNat_sub_one h
  rw [inRing_iff] at h
  unfold previousPage
  dsimp only
  split
  · decide
  · rename_i hge
    rw [UInt8.lt_iff_toNat_lt] at hge
    have hstart : rxStartPage.toNat = 0x40 := rfl
    rw [inRing_iff]
    omega

/-- Without the wrap, one page of the ring is left. -/
theorem inRing_sub_one_iff {page : UInt8} (h : InRing page) : InRing (page - 1) ↔ page ≠ 0x40 := by
  have hsub := toNat_sub_one h
  have hne : page ≠ 0x40 ↔ page.toNat ≠ 0x40 := not_congr UInt8.toNat_inj.symm
  rw [inRing_iff] at h
  rw [inRing_iff, hne]
  omega

/-! ## Up to the header -/

/-- The page that the scan over empty pages ends at. -/
def foundPage (c : Card) : UInt8 := (skipEmpty c.curr 5 (nextPage c.bnry) c).1

/-- There is a packet, and its header is read in time. -/
def ReadsHeader (c : Card) : Prop :=
  nextPage c.bnry ≠ c.curr ∧ foundPage c ≠ c.curr ∧
    (skipEmpty c.curr 5 (nextPage c.bnry) c).2.SignalsWithin 0x40 10000

theorem skipEmpty_spec (current : UInt8) (n : Nat) {page : UInt8} (h : InRing page) (c : Card) :
    InRing (skipEmpty current n page c).1 ∧
      ∃ reads, (skipEmpty current n page c).2 = c.withReads reads := by
  induction n generalizing page c with
  | zero => exact ⟨h, c.reads, rfl⟩
  | succ n ih =>
      unfold skipEmpty
      split
      · exact ⟨h, c.reads, rfl⟩
      · obtain ⟨⟨reads, hreads⟩, -⟩ := pollIsr_spec 0x40 10000 c
        dsimp only
        rw [hreads]
        split
        · exact ih (inRing_nextPage h) _
        · exact ⟨h, reads, rfl⟩

/-- **A call, up to the header**: it ends at once and does nothing, or it goes on with the header
of the page found. The card has only been read. -/
theorem receive_cases {c : Card} (hbnry : InRing c.bnry) :
    (¬ ReadsHeader c → ∃ reads result, result ≤ (0 : Int) ∧ ∀ buffer bufferSize,
      ne2000ReceivePacket c buffer bufferSize = ⟨result, buffer, c.withReads reads⟩) ∧
    (ReadsHeader c → InRing (foundPage c) ∧ ∃ reads, ∀ buffer bufferSize,
      ne2000ReceivePacket c buffer bufferSize
        = receiveData (c.withReads reads) buffer bufferSize (foundPage c)
            (headerAt c (foundPage c))) := by
  obtain ⟨hpage, reads, hreads⟩ := skipEmpty_spec c.curr 5 (inRing_nextPage hbnry) c
  obtain ⟨⟨reads', hreads'⟩, hiff⟩ := pollIsr_spec 0x40 10000 (c.withReads reads)
  have hskip : skipEmpty c.curr 5 (nextPage c.bnry) c = (foundPage c, c.withReads reads) :=
    Prod.ext rfl hreads
  have hpoll : pollIsr 0x40 10000 (c.withReads reads)
      = ((pollIsr 0x40 10000 (c.withReads reads)).1, c.withReads reads') :=
    Prod.ext rfl hreads'
  generalize (pollIsr 0x40 10000 (c.withReads reads)).1 = timeout at hpoll hiff
  have hunfold : ∀ buffer bufferSize, ne2000ReceivePacket c buffer bufferSize
      = if nextPage c.bnry = c.curr then ⟨0, buffer, c⟩
        else if foundPage c = c.curr then ⟨0, buffer, c.withReads reads⟩
        else if timeout ≤ 0 then ⟨-1, buffer, c.withReads reads'⟩
        else receiveData (c.withReads reads') buffer bufferSize (foundPage c)
          (headerAt c (foundPage c)) := by
    intro buffer bufferSize
    unfold ne2000ReceivePacket
    rw [hskip]
    dsimp only
    rw [hpoll]
    rfl
  -- `ReadsHeader` asks for the three conditions that lead past these exits
  unfold ReadsHeader
  rw [hreads]
  constructor
  · intro hnot
    by_cases h1 : nextPage c.bnry = c.curr
    · exact ⟨c.reads, 0, Int.le_refl 0, fun buffer bufferSize => by
        rw [hunfold, if_pos h1]
        rfl⟩
    by_cases h2 : foundPage c = c.curr
    · exact ⟨reads, 0, Int.le_refl 0, fun buffer bufferSize => by
        rw [hunfold, if_neg h1, if_pos h2]⟩
    have h3 : ¬ 0 < timeout := fun hpos => hnot ⟨h1, h2, hiff.mp hpos⟩
    exact ⟨reads', -1, by decide, fun buffer bufferSize => by
      rw [hunfold, if_neg h1, if_neg h2, if_pos (by omega)]⟩
  · rintro ⟨h1, h2, h3⟩
    have hpos := hiff.mpr h3
    exact ⟨hpage, reads', fun buffer bufferSize => by
      rw [hunfold, if_neg h1, if_neg h2, if_neg (by omega)]⟩

/-! ## What a call may do -/

/-- A call stays in bounds: what it writes to `BNRY` is a page of the ring, it leaves the bytes
behind the caller's buffer alone, and it returns no more bytes than the buffer has. -/
structure InBounds (c : Card) (buffer : Bytes) (size : Nat) (r : RxResult) : Prop where
  boundaries : ∃ pages, r.card.boundaries = c.boundaries ++ pages ∧ ∀ page ∈ pages, InRing page
  buffer : ∀ i, size ≤ i → r.buffer i = buffer i
  result : 0 < r.result → r.result ≤ size

/-- `c'` is `c`, as far as the boundary is concerned. -/
def SameBoundary (c c' : Card) : Prop := c'.boundaries = c.boundaries ∧ c'.bnry = c.bnry

section exits

variable {c c' : Card} {buffer buffer' : Bytes} {size : Nat} {result : Int}

/-- A way out without a new boundary. -/
theorem InBounds.keep (hc : SameBoundary c c') (hbuffer : ∀ i, size ≤ i → buffer' i = buffer i)
    (hresult : 0 < result → result ≤ size) : InBounds c buffer size ⟨result, buffer', c'⟩ :=
  ⟨⟨[], by rw [List.append_nil]; exact hc.1, fun page hpage => nomatch hpage⟩, hbuffer, hresult⟩

/-- A way out with a new boundary. -/
theorem InBounds.move (hc : SameBoundary c c') {page : UInt8} (hpage : InRing page)
    (hbuffer : ∀ i, size ≤ i → buffer' i = buffer i) (hresult : 0 < result → result ≤ size) :
    InBounds c buffer size ⟨result, buffer', ne2000Write c' .bnry page⟩ := by
  refine ⟨⟨[page], congrArg (· ++ [page]) hc.1, fun p hp => ?_⟩, hbuffer, hresult⟩
  rw [List.mem_singleton] at hp
  rwa [hp]

theorem sameBoundary_poll (h : SameBoundary c c') (bit : UInt8) (timeout : Nat) :
    SameBoundary c (pollIsr bit timeout c').2 := by
  obtain ⟨⟨reads, hreads⟩, -⟩ := pollIsr_spec bit timeout c'
  rw [hreads]
  exact h

theorem sameBoundary_cr (h : SameBoundary c c') (value : UInt8) :
    SameBoundary c (ne2000Write c' .cr value) := h

/-- The card with which a call goes on behind the header. -/
theorem sameBoundary_header (h : SameBoundary c c') (length : Nat) :
    SameBoundary c (ne2000Write
      (if length > 1518 then (pollIsr 0x40 10000 c').2 else c') .cr 0x22) := by
  apply sameBoundary_cr
  split
  · exact sameBoundary_poll h _ _
  · exact h

/-- **The recovery stays in bounds** with a buffer of 64 bytes. -/
theorem recoverPacket_inBounds (h : SameBoundary c c') {page : UInt8} (hpage : InRing page)
    (hsize : 64 ≤ size) : InBounds c buffer size (recoverPacket c' buffer page) := by
  have hcopy : ∀ i, size ≤ i → copy buffer 0 (remoteRead c' page 0) 0 64 i = buffer i :=
    fun i hi => copy_outside _ _ _ (by omega)
  unfold recoverPacket
  dsimp only
  split
  · rename_i offset _
    refine InBounds.move (sameBoundary_cr (sameBoundary_poll h _ _) _) hpage (fun i hi => ?_)
      fun _ => by omega
    rw [copy_outside _ _ _ (by omega)]
    exact hcopy i hi
  · exact InBounds.move (sameBoundary_cr (sameBoundary_poll h _ _) _) hpage hcopy
      fun hpos => by omega

end exits

/-- What a header may say, for a buffer of `size` bytes: a packet without a legal length needs a
buffer of 64 bytes, and behind a packet that does not fit the ring must not start over. -/
def SafeHeader (h : Header) (size : Nat) : Prop :=
  h.status &&& 0x01 ≠ 0 → InRing h.nextPage →
    (h.length < 60 ∨ 1518 < h.length → 64 ≤ size) ∧
    (60 ≤ h.length → h.length ≤ 1518 → size < h.length - 4 → h.nextPage ≠ 0x40)

/-- **The six ways out**, each in bounds for a safe header. -/
theorem receiveData_inBounds {c c' : Card} (hc : SameBoundary c c') {page : UInt8}
    (hpage : InRing page) {h : Header} {size : UInt16} (hsafe : SafeHeader h size.toNat)
    (buffer : Bytes) : InBounds c buffer size.toNat (receiveData c' buffer size page h) := by
  have hsame := sameBoundary_header hc h.length
  have hkeep : ∀ i, size.toNat ≤ i → buffer i = buffer i := fun i _ => rfl
  have hfail : (0 : Int) < -1 → (-1 : Int) ≤ size.toNat := fun hpos => by omega
  unfold receiveData
  dsimp only
  generalize ne2000Write (if h.length > 1518 then (pollIsr 0x40 10000 c').2 else c') .cr 0x22
    = c₂ at hsame ⊢
  by_cases hstatus : h.status &&& 0x01 = 0
  · -- bad status
    rw [if_pos hstatus]
    by_cases hnext : h.nextPage ≥ rxStartPage ∧ h.nextPage < rxStopPage
    · rw [if_pos hnext]
      exact InBounds.move hsame (inRing_previousPage hnext) hkeep hfail
    · rw [if_neg hnext]
      exact InBounds.move hsame hpage hkeep hfail
  rw [if_neg hstatus]
  by_cases hout : h.nextPage < rxStartPage ∨ h.nextPage ≥ rxStopPage
  · -- bad next page
    rw [if_pos hout]
    exact InBounds.move hsame hpage hkeep hfail
  have hnext : InRing h.nextPage := by
    rw [not_or, UInt8.not_lt, ge_iff_le, UInt8.not_le] at hout
    exact hout
  obtain ⟨hrecover, hlarge⟩ := hsafe hstatus hnext
  rw [if_neg hout]
  by_cases hlen : h.length < 60 ∨ h.length > 1518
  · rw [if_pos hlen]
    exact recoverPacket_inBounds hsame hpage (hrecover hlen)
  rw [if_neg hlen]
  by_cases hfits : h.length - 4 > size.toNat
  · -- larger than the buffer
    rw [if_pos hfits]
    have hne := hlarge (by omega) (by omega) (by omega)
    exact InBounds.move hsame ((inRing_sub_one_iff hnext).mpr hne) hkeep hfail
  rw [if_neg hfits]
  have hcopy : ∀ i, size.toNat ≤ i →
      copy buffer 0 (remoteRead c₂ page 4) 0 (h.length - 4) i = buffer i :=
    fun i hi => copy_outside _ _ _ (by omega)
  have hpoll := sameBoundary_poll hsame 0x40 10000
  split
  · exact InBounds.keep hpoll hcopy hfail
  · exact InBounds.move (sameBoundary_cr hpoll _) (inRing_previousPage hnext) hcopy
      fun _ => by omega

/-! ## What goes wrong with other headers -/

theorem findOffset_congr {b b' : Bytes} {n i : Nat} (h : ∀ j, j ≤ i + n → b j = b' j) :
    findOffset b n i = findOffset b' n i := by
  induction n generalizing i with
  | zero => rfl
  | succ n ih =>
      unfold findOffset
      rw [h i (by omega), h (i + 1) (by omega), ih fun j hj => h j (by omega)]

/-- The recovery overwrites the 64 bytes, whatever was in them. -/
theorem recoverPacket_buffer (c : Card) (page : UInt8) (b b' : Bytes) {i : Nat} (hi : i < 64) :
    (recoverPacket c b page).buffer i = (recoverPacket c b' page).buffer i := by
  have hsame : ∀ j, j < 64 → copy b 0 (remoteRead c page 0) 0 64 j
      = copy b' 0 (remoteRead c page 0) 0 64 j := by
    intro j hj
    rw [copy_inside _ _ _ (by omega) (by omega), copy_inside _ _ _ (by omega) (by omega)]
  have hfind : findOffset (copy b 0 (remoteRead c page 0) 0 64) 20 0
      = findOffset (copy b' 0 (remoteRead c page 0) 0 64) 20 0 :=
    findOffset_congr fun j hj => hsame j (by omega)
  unfold recoverPacket
  dsimp only
  rw [hfind]
  generalize copy b 0 (remoteRead c page 0) 0 64 = p at hsame ⊢
  generalize copy b' 0 (remoteRead c page 0) 0 64 = q at hsame ⊢
  cases findOffset q 20 0 with
  | none => exact hsame i hi
  | some offset =>
      show copy p 0 p offset (64 - offset) i = copy q 0 q offset (64 - offset) i
      by_cases hshift : i < 64 - offset
      · rw [copy_inside _ _ _ (by omega) (by omega), copy_inside _ _ _ (by omega) (by omega)]
        exact hsame _ (by omega)
      · rw [copy_outside _ _ _ (by omega), copy_outside _ _ _ (by omega)]
        exact hsame i hi

/-- **A header that is not safe takes the call out of bounds**, for some contents of the buffer. -/
theorem safeHeader_of_inBounds {c c' : Card} (hc : SameBoundary c c') {page : UInt8} {h : Header}
    {size : UInt16} (hall : ∀ buffer, InBounds c buffer size.toNat (receiveData c' buffer size page h)) :
    SafeHeader h size.toNat := by
  intro hstatus hnext
  have hsame := sameBoundary_header hc h.length
  have hin : ¬ (h.nextPage < rxStartPage ∨ h.nextPage ≥ rxStopPage) := by
    rw [not_or, UInt8.not_lt, ge_iff_le, UInt8.not_le]
    exact hnext
  unfold receiveData at hall
  simp only [if_neg hstatus, if_neg hin] at hall
  generalize ne2000Write (if h.length > 1518 then (pollIsr 0x40 10000 c').2 else c') .cr 0x22
    = c₂ at hsame hall
  constructor
  · intro hlen
    by_contra hsmall
    simp only [if_pos hlen] at hall
    -- byte `size` is the same for two buffers that differ in it
    have h0 := (hall fun _ => 0).buffer size.toNat (Nat.le_refl _)
    have h1 := (hall fun _ => 1).buffer size.toNat (Nat.le_refl _)
    rw [recoverPacket_buffer c₂ page (fun _ => 0) (fun _ => 1) (by omega), h1] at h0
    cases h0
  · intro h60 h1518 hlarge hfirst
    have hlegal : ¬ (h.length < 60 ∨ h.length > 1518) := by omega
    simp only [if_neg hlegal, if_pos hlarge] at hall
    obtain ⟨pages, hpages, hring⟩ := (hall fun _ => 0).boundaries
    have hwritten : c.boundaries ++ [h.nextPage - 1] = c.boundaries ++ pages :=
      (congrArg (· ++ [h.nextPage - 1]) hsame.1).symm.trans hpages
    rw [List.append_cancel_left hwritten.symm] at hring
    have hbad := hring _ (List.mem_singleton_self _)
    exact (inRing_sub_one_iff hnext).mp hbad hfirst

/-! ## Calls and runs -/

/-- A call is in bounds, whatever the caller's buffer holds. -/
def RingSafe (c : Card) (size : UInt16) : Prop :=
  ∀ buffer, InBounds c buffer size.toNat (ne2000ReceivePacket c buffer size)

/-- If the call reads a header, the header is safe. -/
def SafeCall (c : Card) (size : UInt16) : Prop :=
  ReadsHeader c → SafeHeader (headerAt c (foundPage c)) size.toNat

theorem ringSafe_iff {c : Card} (hbnry : InRing c.bnry) (size : UInt16) :
    RingSafe c size ↔ SafeCall c size := by
  obtain ⟨hnone, hheader⟩ := receive_cases hbnry
  by_cases hreads : ReadsHeader c
  · obtain ⟨hpage, reads, heq⟩ := hheader hreads
    have hsame : SameBoundary c (c.withReads reads) := ⟨rfl, rfl⟩
    unfold RingSafe
    simp only [heq]
    constructor
    · exact fun hall _ => safeHeader_of_inBounds hsame hall
    · exact fun hsafe buffer => receiveData_inBounds hsame hpage (hsafe hreads) buffer
  · obtain ⟨reads, result, hresult, heq⟩ := hnone hreads
    refine iff_of_true (fun buffer => ?_) fun h => absurd h hreads
    rw [heq]
    exact InBounds.keep ⟨rfl, rfl⟩ (fun i _ => rfl) fun hpos => by omega

/-- The boundary register holds the last page written to it. -/
theorem bnry_cases {c : Card} (hbnry : InRing c.bnry) (buffer : Bytes) (size : UInt16) :
    SameBoundary c (ne2000ReceivePacket c buffer size).card ∨
    ∃ page, (ne2000ReceivePacket c buffer size).card.boundaries = c.boundaries ++ [page] ∧
      (ne2000ReceivePacket c buffer size).card.bnry = page := by
  have hmove : ∀ c' : Card, SameBoundary c c' → ∀ page,
      (ne2000Write c' .bnry page).boundaries = c.boundaries ++ [page] ∧
        (ne2000Write c' .bnry page).bnry = page :=
    fun c' h page => ⟨congrArg (· ++ [page]) h.1, rfl⟩
  obtain ⟨hnone, hheader⟩ := receive_cases hbnry
  by_cases hreads : ReadsHeader c
  · obtain ⟨-, reads, heq⟩ := hheader hreads
    rw [heq]
    generalize headerAt c (foundPage c) = h
    have hread : SameBoundary c (c.withReads reads) := ⟨rfl, rfl⟩
    have hsame := sameBoundary_header hread h.length
    unfold receiveData
    dsimp only
    generalize ne2000Write (if h.length > 1518 then (pollIsr 0x40 10000 (c.withReads reads)).2
      else c.withReads reads) .cr 0x22 = c₂ at hsame ⊢
    have hpoll := sameBoundary_poll hsame 0x40 10000
    -- the exits in the order of the source; only a timeout of the data leaves the boundary alone
    split
    · split
      · exact Or.inr ⟨_, hmove c₂ hsame _⟩
      · exact Or.inr ⟨_, hmove c₂ hsame _⟩
    · split
      · exact Or.inr ⟨_, hmove c₂ hsame _⟩
      · split
        · unfold recoverPacket
          dsimp only
          split
          · exact Or.inr ⟨_, hmove _ (sameBoundary_cr hpoll _) _⟩
          · exact Or.inr ⟨_, hmove _ (sameBoundary_cr hpoll _) _⟩
        · split
          · exact Or.inr ⟨_, hmove c₂ hsame _⟩
          · split
            · exact Or.inl hpoll
            · exact Or.inr ⟨_, hmove _ (sameBoundary_cr hpoll _) _⟩
  · obtain ⟨reads, result, -, heq⟩ := hnone hreads
    rw [heq]
    exact Or.inl ⟨rfl, rfl⟩

/-- A call of the driver. Between two calls the card may change all but its boundary. -/
structure RxCall where
  card : Card
  buffer : Bytes
  size : UInt16

/-- The boundary after a call. -/
def RxCall.run (bnry : UInt8) (call : RxCall) : UInt8 :=
  (ne2000ReceivePacket { call.card with bnry := bnry } call.buffer call.size).card.bnry

/-- The boundary after a sequence of calls. -/
def receiveRun (bnry : UInt8) (calls : List RxCall) : UInt8 := calls.foldl RxCall.run bnry

/-- Every call of the run is safe where it is made. -/
def SafeRun : UInt8 → List RxCall → Prop
  | _, [] => True
  | bnry, call :: calls =>
      SafeCall { call.card with bnry := bnry } call.size ∧ SafeRun (call.run bnry) calls

theorem RxCall.inRing_run {bnry : UInt8} (h : InRing bnry) {call : RxCall}
    (hsafe : SafeCall { call.card with bnry := bnry } call.size) : InRing (call.run bnry) := by
  have hcard : InRing ({ call.card with bnry := bnry } : Card).bnry := h
  have hbounds := (ringSafe_iff hcard call.size).mpr hsafe call.buffer
  rcases bnry_cases hcard call.buffer call.size with hsame | ⟨page, hpages, hbnry⟩
  · have hkept : call.run bnry = bnry := hsame.2
    rwa [hkept]
  · obtain ⟨pages, hpages', hring⟩ := hbounds.boundaries
    have hwritten : call.run bnry = page := hbnry
    rw [hwritten]
    rw [hpages] at hpages'
    rw [List.append_cancel_left hpages'.symm] at hring
    exact hring page (List.mem_singleton_self page)

/-- **The receive ring.** A call is in bounds exactly when the header it reads is safe; and a run
of such calls keeps the boundary in the ring. -/
theorem receiveRing_iff {c : Card} (hbnry : InRing c.bnry) (size : UInt16) (calls : List RxCall) :
    (RingSafe c size ↔ SafeCall c size) ∧
      (SafeRun c.bnry calls → InRing (receiveRun c.bnry calls)) := by
  refine ⟨ringSafe_iff hbnry size, ?_⟩
  generalize c.bnry = bnry at hbnry
  induction calls generalizing bnry with
  | nil => exact fun _ => hbnry
  | cons call calls ih =>
      exact fun hsafe => ih (call.run bnry) (call.inRing_run hbnry hsafe.1) hsafe.2

/-- A card with a packet of full length in the last pages of its ring, and the next one at the
first page. -/
def fullPacketCard : Card :=
  { readyCard with
    mem := fun a => ([0x01, 0x40, 0xEE, 0x05] : List UInt8).getD (a - 0x7A00) 0
    curr := 0x40
    bnry := 0x79 }

/-- A buffer with room for the packet. -/
theorem receiveRing_iff_fullPacket : RingSafe fullPacketCard 1518 ∧
    InRing (receiveRun 0x79 [⟨fullPacketCard, fun _ => 0, 1518⟩]) := by
  have hlength : (headerAt fullPacketCard (foundPage fullPacketCard)).length = 1518 := by
    decide
  have hsafe : SafeCall fullPacketCard 1518 := by
    have hsize : (1518 : UInt16).toNat = 1518 := rfl
    intro _ _ _
    rw [hlength, hsize]
    exact ⟨fun _ => by omega, fun _ _ hlarge => by omega⟩
  have hcalls : ∀ c : Card, SafeCall c 1518 → SafeRun c.bnry [⟨c, fun _ => 0, 1518⟩] :=
    fun c hc => ⟨hc, trivial⟩
  obtain ⟨hcall, hrun⟩ := receiveRing_iff (c := fullPacketCard) (by decide) 1518
    [⟨fullPacketCard, fun _ => 0, 1518⟩]
  exact ⟨hcall.mpr hsafe, hrun (hcalls fullPacketCard hsafe)⟩

/-- The buffer of the interrupt handler has 1500 bytes, and the boundary becomes `0x3F`. -/
theorem not_ringSafe_fullPacket :
    InRing fullPacketCard.curr ∧ InRing fullPacketCard.bnry ∧ ¬ RingSafe fullPacketCard 1500 := by
  refine ⟨by decide, by decide, fun h => ?_⟩
  obtain ⟨pages, hpages, hring⟩ := (h fun _ => 0).boundaries
  have hwritten : (ne2000ReceivePacket fullPacketCard (fun _ => 0) 1500).card.boundaries = [0x3F] := by
    decide
  have hpages' : [0x3F] = pages := hwritten.symm.trans hpages
  have hbad := hring 0x3F (by rw [← hpages']; exact List.mem_singleton_self _)
  exact absurd hbad (by decide)

end MicroKernel.Net
