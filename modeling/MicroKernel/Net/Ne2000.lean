import MicroKernel.Net.Udp

set_option autoImplicit false

/-! # The driver of the network card (`drivers/net/ne2000.c`)

`ne2000_send_packet` and `ne2000_receive_packet`, over the registers of the card they use. The card
has a memory of its own, which is read and written through the data port from the remote start
address on; a command with the bit `TXP` sends `TBCR` bytes from page `TPSR` on. What a read of
the interrupt status gives is up to the card: it is a parameter, read by read.

A packet is written to the card word by word, as its length decides how many words there are. The
writes to registers that set up a remote read, and the reads of the words after them, are taken
together (`remoteRead`).
-/

namespace MicroKernel.Net

open MicroKernel.Lib Bytes

/-! ## The card -/

/-- `RX_START_PAGE`. -/
def rxStartPage : UInt8 := 0x40

/-- `RX_STOP_PAGE`. -/
def rxStopPage : UInt8 := 0x80

/-- `TX_START_PAGE`. -/
def txStartPage : UInt8 := 0x20

/-- The registers and the memory of the card. `reads` counts the reads of the interrupt status,
`transmissions` and `boundaries` hold what was sent and what was written to `BNRY`, in order. -/
structure Card where
  mem : Bytes
  curr : UInt8
  bnry : UInt8
  cr : UInt8
  rsar0 : UInt8
  rsar1 : UInt8
  rbcr0 : UInt8
  rbcr1 : UInt8
  tpsr : UInt8
  tbcr0 : UInt8
  tbcr1 : UInt8
  isr : Nat → UInt8
  reads : Nat
  transmissions : List Frame
  boundaries : List UInt8

/-- The registers of page 0 that the driver writes. -/
inductive Reg where
  | cr | bnry | tpsr | tbcr0 | tbcr1 | isr | rsar0 | rsar1 | rbcr0 | rbcr1

/-- What a command with `TXP` sends. -/
def Card.transmission (c : Card) : Frame :=
  ⟨fun i => c.mem (256 * c.tpsr.toNat + i), c.tbcr0.toNat + 256 * c.tbcr1.toNat⟩

/-- `ne2000_write`. Ones that are written to the interrupt status clear its bits, which show in
later reads of it. -/
def ne2000Write (c : Card) (reg : Reg) (value : UInt8) : Card :=
  match reg with
  | .cr =>
      let sent := if value &&& 0x04 = 0 then [] else [c.transmission]
      { c with cr := value, transmissions := c.transmissions ++ sent }
  | .bnry => { c with bnry := value, boundaries := c.boundaries ++ [value] }
  | .tpsr => { c with tpsr := value }
  | .tbcr0 => { c with tbcr0 := value }
  | .tbcr1 => { c with tbcr1 := value }
  | .isr => c
  | .rsar0 => { c with rsar0 := value }
  | .rsar1 => { c with rsar1 := value }
  | .rbcr0 => { c with rbcr0 := value }
  | .rbcr1 => { c with rbcr1 := value }

/-- The remote address. -/
def Card.rsar (c : Card) : Nat := c.rsar0.toNat + 256 * c.rsar1.toNat

/-- The remote byte count. -/
def Card.rbcr (c : Card) : Nat := c.rbcr0.toNat + 256 * c.rbcr1.toNat

/-- `outw` to the data port: the card takes the word while its byte count is not used up, low
byte first, and moves on by two bytes. -/
def outw (c : Card) (w : UInt16) : Card :=
  if c.rbcr = 0 then c
  else
    let address := c.rsar + 2
    let count := c.rbcr - 2
    { c with
      mem := store16 c.mem c.rsar w.toNat
      rsar0 := UInt8.ofNat address
      rsar1 := UInt8.ofNat (address / 256)
      rbcr0 := UInt8.ofNat count
      rbcr1 := UInt8.ofNat (count / 256) }

/-- The loop `while (!(ne2000_read(NE2000_ISR) & bit) && timeout-- > 0)`, and what is left of
`timeout` after it. -/
def pollIsr (bit : UInt8) : Nat → Card → Int × Card
  | timeout, c =>
      let set := c.isr c.reads &&& bit ≠ 0
      let c := { c with reads := c.reads + 1 }
      if set then (timeout, c)
      else
        match timeout with
        | 0 => (-1, c)
        | timeout + 1 => pollIsr bit timeout c

/-! ## Sending -/

/-- The loop that writes the words of the packet, `n` of them from index `i` on. -/
def writeWords (data : Bytes) : Nat → Nat → Card → Card
  | 0, _, c => c
  | n + 1, i, c =>
      let word := UInt16.ofNat ((data i).toNat + 256 * (data (i + 1)).toNat)
      writeWords data n (i + 2) (outw c word)

/-- The loop that pads with zeros: `n` words. -/
def padWords : Nat → Card → Card
  | 0, c => c
  | n + 1, c => padWords n (outw c 0)

/-- The first half of `ne2000_send_packet`: the packet is written to the transmit page. -/
def loadPacket (c : Card) (data : Bytes) (length sendLength : Nat) : Card :=
  let c := ne2000Write c .cr 0x22
  let c := ne2000Write c .rbcr0 (UInt8.ofNat sendLength)
  let c := ne2000Write c .rbcr1 (UInt8.ofNat (sendLength / 256))
  let c := ne2000Write c .isr 0x40
  let c := ne2000Write c .rsar0 0
  let c := ne2000Write c .rsar1 txStartPage
  let c := ne2000Write c .cr 0x12
  let c := writeWords data (length / 2) 0 c
  let c := if length % 2 = 1 then outw c (UInt16.ofNat (data (length - 1)).toNat) else c
  padWords ((sendLength - length + 1) / 2) c

/-- The second half: the packet is sent from there. -/
def startTransmission (c : Card) (sendLength : Nat) : Card :=
  let c := ne2000Write c .isr 0x40
  let c := ne2000Write c .tpsr txStartPage
  let c := ne2000Write c .tbcr0 (UInt8.ofNat sendLength)
  let c := ne2000Write c .tbcr1 (UInt8.ofNat (sendLength / 256))
  ne2000Write c .cr 0x26

/-- `ne2000_send_packet`. -/
def ne2000SendPacket (c : Card) (data : Bytes) (length : UInt16) : Card :=
  if length > 1500 then c
  else
    let sendLength := if length.toNat < 60 then 60 else length.toNat
    match pollIsr 0x40 10000 (loadPacket c data length.toNat sendLength) with
    | (timeout, c) =>
        if timeout ≤ 0 then c
        else
          match pollIsr 0x02 100000 (startTransmission c sendLength) with
          | (timeout, c) =>
              -- after a timeout the status is read once more, for a message
              if timeout ≤ 0 then { c with reads := c.reads + 1 } else ne2000Write c .isr 0x02

/-- `nic_send`, whose result is not the driver's. -/
def nicSend (initialized : Bool) (c : Card) (f : Frame) : Bool × Card :=
  if initialized then (true, ne2000SendPacket c f.bytes (UInt16.ofNat f.length)) else (false, c)

/-! ## Receiving -/

/-- The bytes of the card from byte `offset` of a page on, as remote DMA reads them: behind the
last page of the ring comes its first one. -/
def remoteRead (c : Card) (page : UInt8) (offset : Nat) : Bytes := fun i =>
  let address := 256 * page.toNat + offset + i
  c.mem (if address < 0x8000 then address else address - 0x4000)

/-- The page behind a page. -/
def nextPage (page : UInt8) : UInt8 :=
  let next := page + 1
  if next ≥ rxStopPage then rxStartPage else next

/-- The page before a page, for `BNRY`. -/
def previousPage (page : UInt8) : UInt8 :=
  let previous := page - 1
  if previous < rxStartPage then rxStopPage - 1 else previous

/-- The four bytes in front of a packet. -/
structure Header where
  status : UInt8
  nextPage : UInt8
  length : Nat

/-- The header in a page. -/
def headerAt (c : Card) (page : UInt8) : Header :=
  let h := remoteRead c page 0
  ⟨h 0, h 1, load16 h 2⟩

/-- The loop that skips at most `n` empty pages. -/
def skipEmpty (current : UInt8) : Nat → UInt8 → Card → UInt8 × Card
  | 0, page, c => (page, c)
  | n + 1, page, c =>
      if page = current then (page, c)
      else
        let h := remoteRead c page 0
        let c := (pollIsr 0x40 10000 c).2
        if h 0 = 0 ∧ h 1 = 0 ∧ h 2 = 0 ∧ h 3 = 0 then skipEmpty current n (nextPage page) c
        else (page, c)

/-- What `ne2000_receive_packet` returns, with the caller's buffer and the card after it. -/
structure RxResult where
  result : Int
  buffer : Bytes
  card : Card

/-- The search for an EtherType in the recovered bytes, `n` of them from `i` on: where the frame
starts. -/
def findOffset (buffer : Bytes) : Nat → Nat → Option Nat
  | 0, _ => none
  | n + 1, i =>
      let val := 256 * (buffer i).toNat + (buffer (i + 1)).toNat
      let frameStart : Int := (i : Int) - 12
      if (val = 0x0800 ∨ val = 0x0806 ∨ val = 0x86DD) ∧ frameStart ≥ -4 ∧ frameStart < 10 then
        some (if frameStart < 0 then 4 else frameStart.toNat)
      else findOffset buffer n (i + 1)

/-- The recovery of a packet whose length is not legal: 64 bytes of the page are read, and moved
to the start of the frame in them, if there is one. -/
def recoverPacket (c : Card) (buffer : Bytes) (page : UInt8) : RxResult :=
  let buffer := copy buffer 0 (remoteRead c page 0) 0 64
  let c := (pollIsr 0x40 10000 c).2
  let c := ne2000Write (ne2000Write c .cr 0x22) .bnry page
  match findOffset buffer 20 0 with
  | some offset => ⟨64 - offset, copy buffer 0 buffer offset (64 - offset), c⟩
  | none => ⟨-1, buffer, c⟩

/-- The part of `ne2000_receive_packet` behind the header. -/
def receiveData (c : Card) (buffer : Bytes) (bufferSize : UInt16) (page : UInt8) (h : Header) :
    RxResult :=
  -- the hex dump of a page with a length that is too large
  let c := if h.length > 1518 then (pollIsr 0x40 10000 c).2 else c
  let c := ne2000Write c .cr 0x22
  if h.status &&& 0x01 = 0 then
    if h.nextPage ≥ rxStartPage ∧ h.nextPage < rxStopPage then
      ⟨-1, buffer, ne2000Write c .bnry (previousPage h.nextPage)⟩
    else ⟨-1, buffer, ne2000Write c .bnry page⟩
  else if h.nextPage < rxStartPage ∨ h.nextPage ≥ rxStopPage then
    ⟨-1, buffer, ne2000Write c .bnry page⟩
  else if h.length < 60 ∨ h.length > 1518 then recoverPacket c buffer page
  else if h.length - 4 > bufferSize.toNat then
    ⟨-1, buffer, ne2000Write c .bnry (h.nextPage - 1)⟩
  else
    let buffer := copy buffer 0 (remoteRead c page 4) 0 (h.length - 4)
    match pollIsr 0x40 10000 c with
    | (timeout, c) =>
        if timeout ≤ 0 then ⟨-1, buffer, c⟩
        else
          ⟨(h.length - 4 : Nat), buffer,
            ne2000Write (ne2000Write c .cr 0x22) .bnry (previousPage h.nextPage)⟩

/-- `ne2000_receive_packet`. -/
def ne2000ReceivePacket (c : Card) (buffer : Bytes) (bufferSize : UInt16) : RxResult :=
  if nextPage c.bnry = c.curr then ⟨0, buffer, c⟩
  else
    match skipEmpty c.curr 5 (nextPage c.bnry) c with
    | (page, c) =>
        if page = c.curr then ⟨0, buffer, c⟩
        else
          match pollIsr 0x40 10000 c with
          | (timeout, c) =>
              if timeout ≤ 0 then ⟨-1, buffer, c⟩
              else receiveData c buffer bufferSize page (headerAt c page)

end MicroKernel.Net
