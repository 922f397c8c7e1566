import MicroKernel.Lib.RingQueue
import MicroKernel.Lib.Spinlock

set_option autoImplicit false

/-! # The receive ring of the E1000 (`drivers/net/e1000.c`)

The device and the driver share a ring of descriptors. The device fills the descriptor at RDH, as long
as RDH is not RDT, and then goes on to the next one; `e1000_receive_packet` takes the frame behind RDT
off and then writes RDT. There is no lock between the two: they interleave access by access, and what
the model of the device may do is what its manual says of the two registers and of the bit DD.

`Sound` is the invariant: the frames between RDT and RDH are a queue (`Lib.RingQueue`) that the memory
holds, and the call in progress has read what belongs to its first frame.
-/

namespace MicroKernel.Net.E1000

open MicroKernel.Lib

/-- `E1000_NUM_RX_DESC`. -/
def numRxDesc : Nat := 32

/-- `RX_BUFFER_SIZE`. -/
def rxBufferSize : Nat := 8192

theorem numRxDesc_pos : 0 < numRxDesc := by decide

/-- `struct e1000_rx_desc`, as far as the driver reads it. -/
structure RxDesc where
  length : UInt16
  status : UInt8

/-- `rx_descs`, the memory behind `rx_buffers`, and the registers RDH and RDT. -/
structure RxRing where
  descs : Nat → RxDesc
  buffers : Nat → Nat → UInt8
  rdh : Nat
  rdt : Nat
  rdh_lt : rdh < numRxDesc
  rdt_lt : rdt < numRxDesc

/-! ## The driver -/

/-- What a call returns: 0 without a frame and, after a message, for a frame of a length that is not
valid; else the length, with the frame in the buffer of the caller. -/
inductive RxResult
  | none
  | invalid
  | packet (bytes : List UInt8)
  deriving DecidableEq

/-- The next access of `e1000_receive_packet`, with its local variables. -/
inductive RxAccess
  | readHead (bufferSize : Nat)
  | readTail (bufferSize head : Nat)
  | readStatus (bufferSize nextDesc : Nat)
  | readLength (bufferSize nextDesc : Nat)
  | rejectStatus (nextDesc : Nat)
  | rejectTail (nextDesc : Nat)
  | copy (nextDesc packetLength : Nat) (copied : List UInt8)
  | clearStatus (nextDesc : Nat) (copied : List UInt8)
  | clearLength (nextDesc : Nat) (copied : List UInt8)
  | writeTail (nextDesc : Nat) (copied : List UInt8)

namespace RxRing

/-- `rx_descs[i].status = 0`. -/
def clearStatus (r : RxRing) (i : Nat) : RxRing :=
  { r with descs := Function.update r.descs i { r.descs i with status := 0 } }

/-- `rx_descs[i].length = 0`. -/
def clearLength (r : RxRing) (i : Nat) : RxRing :=
  { r with descs := Function.update r.descs i { r.descs i with length := 0 } }

/-- A write of RDT; the register holds the number of a descriptor. -/
def writeTail (r : RxRing) (i : Nat) : RxRing :=
  { r with rdt := i % numRxDesc, rdt_lt := Nat.mod_lt _ numRxDesc_pos }

end RxRing

/-- `e1000_receive_packet`, access by access. `memcpy` reads the frame byte by byte. -/
def rxAccess (a : RxAccess) (r : RxRing) : (RxAccess ⊕ RxResult) × RxRing :=
  match a with
  | .readHead bufferSize => (.inl (.readTail bufferSize r.rdh), r)
  | .readTail bufferSize head =>
      let nextDesc := (r.rdt + 1) % numRxDesc
      if nextDesc = head then (.inr .none, r) else (.inl (.readStatus bufferSize nextDesc), r)
  | .readStatus bufferSize nextDesc =>
      if (r.descs nextDesc).status &&& 0x01 = 0 then (.inr .none, r)
      else (.inl (.readLength bufferSize nextDesc), r)
  | .readLength bufferSize nextDesc =>
      let packetLength := (r.descs nextDesc).length.toNat
      if packetLength = 0 ∨ bufferSize < packetLength ∨ rxBufferSize < packetLength then
        (.inl (.rejectStatus nextDesc), r)
      else (.inl (.copy nextDesc packetLength []), r)
  | .rejectStatus nextDesc => (.inl (.rejectTail nextDesc), r.clearStatus nextDesc)
  | .rejectTail nextDesc => (.inr .invalid, r.writeTail nextDesc)
  | .copy nextDesc packetLength copied =>
      let copied' := copied ++ [r.buffers nextDesc copied.length]
      if copied'.length = packetLength then (.inl (.clearStatus nextDesc copied'), r)
      else (.inl (.copy nextDesc packetLength copied'), r)
  | .clearStatus nextDesc copied => (.inl (.clearLength nextDesc copied), r.clearStatus nextDesc)
  | .clearLength nextDesc copied => (.inl (.writeTail nextDesc copied), r.clearLength nextDesc)
  | .writeTail nextDesc copied => (.inr (.packet copied), r.writeTail nextDesc)

/-- `e1000_receive_packet` as an object in shared memory: a call with the size of the buffer. -/
def rxObject : SharedObject Nat RxResult RxRing where
  Loc := RxAccess
  start := .readHead
  access := rxAccess

/-! ## The device -/

namespace RxRing

/-- The device stores a frame at RDH and writes the descriptor back. -/
def store (r : RxRing) (frame : List UInt8) (status : UInt8) : RxRing :=
  { r with
    descs := Function.update r.descs r.rdh ⟨UInt16.ofNat frame.length, status⟩
    buffers := Function.update r.buffers r.rdh fun i => frame.getD i (r.buffers r.rdh i) }

/-- The device goes on to the next descriptor. -/
def advance (r : RxRing) : RxRing :=
  { r with rdh := (r.rdh + 1) % numRxDesc, rdh_lt := Nat.mod_lt _ numRxDesc_pos }

/-- Descriptor `i` is done, and its buffer has the frame. -/
structure Holds (r : RxRing) (i : Nat) (frame : List UInt8) : Prop where
  done : (r.descs i).status &&& 0x01 ≠ 0
  length : (r.descs i).length.toNat = frame.length
  le : frame.length ≤ rxBufferSize
  bytes : ∀ j, j < frame.length → frame[j]? = some (r.buffers i j)

end RxRing

/-- The ring, whether the descriptor at RDH is written back, the call in progress with the size of its
buffer, and what happened: the frames that the device accepted and the results of the calls. -/
structure RxMachine where
  ring : RxRing
  stored : Bool
  call : Option (Nat × RxAccess)
  accepted : List (List UInt8)
  results : List (Nat × RxResult)

/-- A step of the device or of the driver. The calls do not overlap. -/
inductive RxMachine.Step : RxMachine → RxMachine → Prop
  | store {m : RxMachine} {frame : List UInt8} {status : UInt8} :
      m.stored = false → m.ring.rdh ≠ m.ring.rdt → frame.length ≤ rxBufferSize →
      status &&& 0x01 ≠ 0 →
      Step m { m with
        ring := m.ring.store frame status, stored := true, accepted := m.accepted ++ [frame] }
  | advance {m : RxMachine} : m.stored = true →
      Step m { m with ring := m.ring.advance, stored := false }
  | call {m : RxMachine} (bufferSize : Nat) : m.call = none →
      Step m { m with call := some (bufferSize, rxObject.start bufferSize) }
  | access {m : RxMachine} {bufferSize : Nat} {a a' : RxAccess} {r : RxRing} :
      m.call = some (bufferSize, a) → rxAccess a m.ring = (.inl a', r) →
      Step m { m with ring := r, call := some (bufferSize, a') }
  | last {m : RxMachine} {bufferSize : Nat} {a : RxAccess} {x : RxResult} {r : RxRing} :
      m.call = some (bufferSize, a) → rxAccess a m.ring = (.inr x, r) →
      Step m { m with ring := r, call := none, results := m.results ++ [(bufferSize, x)] }

/-- `m'` is reached from `m`. -/
def RxMachine.Reaches (m m' : RxMachine) : Prop := Relation.ReflTransGen RxMachine.Step m m'

/-- After `initialize_rings_and_buffers` and `e1000_init`: RDH is 0 and RDT the last descriptor. -/
structure RxMachine.Initial (m : RxMachine) : Prop where
  rdh : m.ring.rdh = 0
  rdt : m.ring.rdt = numRxDesc - 1
  stored : m.stored = false
  call : m.call = none
  accepted : m.accepted = []
  results : m.results = []

/-- What a call with the size of its buffer makes of a frame. -/
def verdict (bufferSize : Nat) (frame : List UInt8) : RxResult :=
  if frame.length = 0 ∨ bufferSize < frame.length then .invalid else .packet frame

/-! ## What the memory holds -/

section holds

variable {r r' : RxRing} {i : Nat} {frame : List UInt8}

theorem RxRing.Holds.congr (h : r.Holds i frame) (hd : r'.descs i = r.descs i)
    (hb : r'.buffers i = r.buffers i) : r'.Holds i frame :=
  ⟨hd ▸ h.done, hd ▸ h.length, h.le, hb ▸ h.bytes⟩

theorem RxRing.holds_store {status : UInt8} (hle : frame.length ≤ rxBufferSize)
    (hdone : status &&& 0x01 ≠ 0) : (r.store frame status).Holds r.rdh frame := by
  have hdesc : (r.store frame status).descs r.rdh = ⟨UInt16.ofNat frame.length, status⟩ :=
    Function.update_self ..
  refine ⟨hdesc ▸ hdone, ?_, hle, fun j hj => ?_⟩
  · rw [hdesc]
    have hle' : frame.length ≤ 8192 := hle
    exact UInt16.toNat_ofNat_of_lt' (by simp [UInt16.size]; omega)
  · have hbyte : (r.store frame status).buffers r.rdh j = frame.getD j (r.buffers r.rdh j) := by
      simp [RxRing.store]
    rw [hbyte, List.getElem?_eq_getElem hj]
    simp [hj]

theorem RxRing.store_descs_ne (hne : i ≠ r.rdh) {frame' : List UInt8} {status : UInt8} :
    (r.store frame' status).descs i = r.descs i := Function.update_of_ne hne _ _

theorem RxRing.Holds.store_ne (h : r.Holds i frame) (hne : i ≠ r.rdh) (frame' : List UInt8)
    (status : UInt8) : (r.store frame' status).Holds i frame :=
  h.congr (RxRing.store_descs_ne hne) (Function.update_of_ne hne _ _)

theorem RxRing.Holds.clearStatus_ne {j : Nat} (h : r.Holds i frame) (hne : i ≠ j) :
    (r.clearStatus j).Holds i frame := h.congr (Function.update_of_ne hne _ _) rfl

theorem RxRing.Holds.clearLength_ne {j : Nat} (h : r.Holds i frame) (hne : i ≠ j) :
    (r.clearLength j).Holds i frame := h.congr (Function.update_of_ne hne _ _) rfl

theorem verdict_eq_packet {bufferSize : Nat} (h : ¬ (frame.length = 0 ∨ bufferSize < frame.length)) :
    verdict bufferSize frame = .packet frame := if_neg h

theorem verdict_ne_none (bufferSize : Nat) (frame : List UInt8) :
    verdict bufferSize frame ≠ .none := by
  unfold verdict
  split
  · exact RxResult.noConfusion
  · exact RxResult.noConfusion

end holds

/-! ## The invariant -/

/-- The status of the first frame is cleared already. -/
def RxAccess.consumes : RxAccess → Bool
  | .rejectTail _ => true
  | .clearLength .. => true
  | .writeTail .. => true
  | _ => false

/-- The number of the first frame whose descriptor is not yet cleared. -/
def firstHeld (call : Option (Nat × RxAccess)) : Nat :=
  if call.any (·.2.consumes) then 1 else 0

/-- What a call has read belongs to the first frame of the queue. -/
def RxAccess.Agrees (bufferSize : Nat) (q : RingQueue (List UInt8) numRxDesc) : RxAccess → Prop
  | .readHead size => size = bufferSize
  | .readTail size head => size = bufferSize ∧ (head ≠ q.head → 0 < q.count)
  | .readStatus size next => size = bufferSize ∧ next = q.head ∧ 0 < q.count
  | .readLength size next => size = bufferSize ∧ next = q.head ∧ 0 < q.count
  | .rejectStatus next => next = q.head ∧ 0 < q.count ∧
      verdict bufferSize (q.slots q.head) = .invalid
  | .rejectTail next => next = q.head ∧ 0 < q.count ∧
      verdict bufferSize (q.slots q.head) = .invalid
  | .copy next length copied => next = q.head ∧ 0 < q.count ∧
      verdict bufferSize (q.slots q.head) = .packet (q.slots q.head) ∧
      length = (q.slots q.head).length ∧ copied.length < length ∧
      copied = (q.slots q.head).take copied.length
  | .clearStatus next copied => next = q.head ∧ 0 < q.count ∧ copied = q.slots q.head ∧
      verdict bufferSize (q.slots q.head) = .packet (q.slots q.head)
  | .clearLength next copied => next = q.head ∧ 0 < q.count ∧ copied = q.slots q.head ∧
      verdict bufferSize (q.slots q.head) = .packet (q.slots q.head)
  | .writeTail next copied => next = q.head ∧ 0 < q.count ∧ copied = q.slots q.head ∧
      verdict bufferSize (q.slots q.head) = .packet (q.slots q.head)

/-- The frame that the device has stored and not yet passed. -/
structure AtHead (m : RxMachine) (rest : List (List UInt8)) : Prop where
  none : m.stored = false → rest = []
  some : m.stored = true → ∃ frame, rest = [frame] ∧ m.ring.Holds m.ring.rdh frame ∧
    m.ring.rdh ≠ m.ring.rdt

/-- The invariant: the queue of the frames in the ring, and the frames that were taken off, with the
sizes of the buffers. -/
structure RxMachine.Sound (m : RxMachine) (q : RingQueue (List UInt8) numRxDesc)
    (taken : List (Nat × List UInt8)) (rest : List (List UInt8)) : Prop where
  head : q.head = (m.ring.rdt + 1) % numRxDesc
  tail : q.tail = m.ring.rdh
  held : q.HeldFrom m.ring.Holds (firstHeld m.call)
  call : ∀ bufferSize a, m.call = some (bufferSize, a) → a.Agrees bufferSize q
  device : AtHead m rest
  accepted : m.accepted = taken.map Prod.snd ++ q.toList ++ rest
  results : m.results.filter (·.2 ≠ .none) = taken.map fun t => (t.1, verdict t.1 t.2)

section sound

variable {m m' : RxMachine} {q : RingQueue (List UInt8) numRxDesc}
  {taken : List (Nat × List UInt8)} {rest : List (List UInt8)}

theorem RxMachine.Initial.sound (h : m.Initial) :
    m.Sound ⟨fun _ => [], 0, 0, numRxDesc_pos, numRxDesc_pos⟩ [] [] := by
  have hnil : (⟨fun _ => [], 0, 0, numRxDesc_pos, numRxDesc_pos⟩ :
      RingQueue (List UInt8) numRxDesc).toList = [] := RingQueue.toList_eq_nil.mpr rfl
  refine ⟨?_, h.rdh.symm, fun k _ hk => ?_, fun size a ha => ?_, ⟨fun _ => rfl, fun hs => ?_⟩, ?_, ?_⟩
  · rw [h.rdt]
    rfl
  · rw [← RingQueue.length_toList, hnil] at hk
    cases hk
  · rw [h.call] at ha
    cases ha
  · rw [h.stored] at hs
    cases hs
  · rw [h.accepted, hnil]
    rfl
  · rw [h.results]
    rfl

/-- The queue is full when RDH is RDT. -/
theorem RxMachine.Sound.push (h : m.Sound q taken rest) (hne : m.ring.rdh ≠ m.ring.rdt)
    (frame : List UInt8) : ∃ q', q.push frame = some q' := by
  have hnext : RingQueue.next numRxDesc q.tail ≠ q.head := by
    have h1 := m.ring.rdh_lt
    have h2 := m.ring.rdt_lt
    unfold numRxDesc at h1 h2
    rw [h.head, h.tail, RingQueue.next]
    unfold numRxDesc
    omega
  unfold RingQueue.push
  rw [if_neg hnext]
  exact ⟨_, rfl⟩

/-- A push leaves the first frame what it is. -/
theorem RxAccess.Agrees.push {bufferSize : Nat} {a : RxAccess} {frame : List UInt8}
    {q' : RingQueue (List UInt8) numRxDesc} (h : a.Agrees bufferSize q)
    (hq : q.push frame = some q') : a.Agrees bufferSize q' := by
  obtain ⟨hslots, hhead, -, hcount⟩ := RingQueue.push_eq_some hq
  have hsame : 0 < q.count → q'.slots q'.head = q.slots q.head := by
    intro hpos
    rw [hslots, hhead, Function.update_of_ne (RingQueue.head_ne_tail_of_pos hpos)]
  have hpos : 0 < q'.count := by omega
  cases a with
  | readHead size => exact h
  | readTail size head => exact ⟨h.1, fun _ => hpos⟩
  | readStatus size next => exact ⟨h.1, hhead ▸ h.2.1, hpos⟩
  | readLength size next => exact ⟨h.1, hhead ▸ h.2.1, hpos⟩
  | rejectStatus next => exact ⟨hhead ▸ h.1, hpos, (hsame h.2.1).symm ▸ h.2.2⟩
  | rejectTail next => exact ⟨hhead ▸ h.1, hpos, (hsame h.2.1).symm ▸ h.2.2⟩
  | copy next length copied => exact ⟨hhead ▸ h.1, hpos, (hsame h.2.1).symm ▸ h.2.2⟩
  | clearStatus next copied => exact ⟨hhead ▸ h.1, hpos, (hsame h.2.1).symm ▸ h.2.2⟩
  | clearLength next copied => exact ⟨hhead ▸ h.1, hpos, (hsame h.2.1).symm ▸ h.2.2⟩
  | writeTail next copied => exact ⟨hhead ▸ h.1, hpos, (hsame h.2.1).symm ▸ h.2.2⟩

theorem RxMachine.Sound.store (h : m.Sound q taken rest) {frame : List UInt8} {status : UInt8}
    (hs : m.stored = false) (hne : m.ring.rdh ≠ m.ring.rdt) (hle : frame.length ≤ rxBufferSize)
    (hdone : status &&& 0x01 ≠ 0) :
    RxMachine.Sound { m with
      ring := m.ring.store frame status, stored := true, accepted := m.accepted ++ [frame] }
      q taken [frame] where
  head := h.head
  tail := h.tail
  held := h.held.congr_tail fun i f hi hf => hf.store_ne (h.tail ▸ hi) frame status
  call := h.call
  device :=
    ⟨fun (hf : true = false) => absurd hf (by decide),
      fun _ => ⟨frame, rfl, RxRing.holds_store hle hdone, hne⟩⟩
  accepted := by rw [h.accepted, h.device.none hs, List.append_nil]
  results := h.results

theorem RxMachine.Sound.advance (h : m.Sound q taken rest) (hs : m.stored = true) :
    ∃ q', RxMachine.Sound { m with ring := m.ring.advance, stored := false } q' taken [] := by
  obtain ⟨frame, rfl, hholds, hne⟩ := h.device.some hs
  obtain ⟨q', hq⟩ := h.push hne frame
  obtain ⟨-, hhead, htail, -⟩ := RingQueue.push_eq_some hq
  have hheld := h.held.push hq (by rw [h.tail]; exact hholds)
  refine ⟨q', hhead.trans h.head, ?_, fun k hk hlt => ?_, fun size a ha => ?_,
    ⟨fun _ => rfl, fun (hf : false = true) => absurd hf (by decide)⟩, ?_, h.results⟩
  · rw [htail, h.tail]
    rfl
  · exact (hheld k hk hlt).congr rfl rfl
  · exact (h.call size a ha).push hq
  · rw [h.accepted, RingQueue.toList_push hq, List.append_nil, List.append_assoc]

theorem RxMachine.Sound.begin (h : m.Sound q taken rest) (bufferSize : Nat) (hc : m.call = none) :
    RxMachine.Sound { m with call := some (bufferSize, rxObject.start bufferSize) } q taken rest where
  head := h.head
  tail := h.tail
  held := by
    have hheld := h.held
    rw [hc] at hheld
    exact hheld
  call size a ha := by
    cases ha
    exact rfl
  device := ⟨h.device.none, h.device.some⟩
  accepted := h.accepted
  results := h.results

/-- An access of the driver that changes the first descriptor at most, and not RDT. -/
theorem RxMachine.Sound.go (h : m.Sound q taken rest) {bufferSize : Nat} {a a' : RxAccess} {r : RxRing}
    (hc : m.call = some (bufferSize, a)) (hagrees : a'.Agrees bufferSize q)
    (hrdh : r.rdh = m.ring.rdh) (hrdt : r.rdt = m.ring.rdt)
    (hsame : ∀ i f, i ≠ q.head → m.ring.Holds i f → r.Holds i f)
    (hfirst : r = m.ring ∧ a'.consumes = a.consumes ∨ 0 < q.count ∧ a'.consumes = true) :
    RxMachine.Sound { m with ring := r, call := some (bufferSize, a') } q taken rest := by
  have hcall : ∀ b : RxAccess, firstHeld (some (bufferSize, b)) = if b.consumes then 1 else 0 := by
    intro b
    simp [firstHeld]
  have hheld := h.held
  rw [hc, hcall] at hheld
  refine ⟨h.head.trans (by rw [hrdt]), h.tail.trans hrdh.symm, ?_, fun size b hb => ?_,
    ⟨h.device.none, fun hs => ?_⟩, h.accepted, h.results⟩
  · change q.HeldFrom r.Holds (firstHeld (some (bufferSize, a')))
    rw [hcall]
    rcases hfirst with ⟨rfl, heq⟩ | ⟨-, heq⟩
    · rw [heq]
      exact hheld
    · rw [heq]
      cases hb : a.consumes with
      | true =>
          rw [hb] at hheld
          exact hheld.congr_behind hsame
      | false =>
          rw [hb] at hheld
          exact hheld.congr_head hsame
  · cases hb
    exact hagrees
  · obtain ⟨frame, hrest, hholds, hne⟩ := h.device.some hs
    refine ⟨frame, hrest, ?_, by rw [hrdh, hrdt]; exact hne⟩
    change r.Holds r.rdh frame
    rcases hfirst with ⟨rfl, -⟩ | ⟨hpos, -⟩
    · exact hholds
    · rw [hrdh]
      exact hsame _ _ (h.tail ▸ (RingQueue.head_ne_tail_of_pos hpos).symm) hholds

/-- The first frame, while its descriptor is not cleared. -/
theorem RxMachine.Sound.holds_head (h : m.Sound q taken rest) {bufferSize : Nat} {a : RxAccess}
    (hc : m.call = some (bufferSize, a)) (ha : a.consumes = false) (hpos : 0 < q.count) :
    m.ring.Holds q.head (q.slots q.head) := by
  have hheld := h.held
  rw [hc] at hheld
  simp only [firstHeld, Option.any_some, ha] at hheld
  exact hheld.head hpos

/-- **An access of the driver** keeps the invariant. -/
theorem RxMachine.Sound.access (h : m.Sound q taken rest) {bufferSize : Nat} {a a' : RxAccess}
    {r : RxRing} (hc : m.call = some (bufferSize, a)) (hacc : rxAccess a m.ring = (.inl a', r)) :
    RxMachine.Sound { m with ring := r, call := some (bufferSize, a') } q taken rest := by
  have hagrees := h.call _ _ hc
  cases a with
  | readHead size =>
      cases hacc
      refine h.go hc ⟨hagrees, fun hne => ?_⟩ rfl rfl (fun _ _ _ hf => hf) (Or.inl ⟨rfl, rfl⟩)
      refine Nat.pos_of_ne_zero fun h0 => hne ?_
      rw [← h.tail]
      exact (RingQueue.toList_eq_nil.mp (List.length_eq_zero_iff.mp
        ((RingQueue.length_toList q).trans h0))).symm
  | readTail size head =>
      unfold rxAccess at hacc
      dsimp only at hacc
      split at hacc
      · cases hacc
      next hne =>
      cases hacc
      rw [← h.head] at hne
      exact h.go hc ⟨hagrees.1, h.head.symm, hagrees.2 (Ne.symm hne)⟩ rfl rfl (fun _ _ _ hf => hf)
        (Or.inl ⟨rfl, rfl⟩)
  | readStatus size next =>
      unfold rxAccess at hacc
      dsimp only at hacc
      split at hacc
      · cases hacc
      · cases hacc
        exact h.go hc hagrees rfl rfl (fun _ _ _ hf => hf) (Or.inl ⟨rfl, rfl⟩)
  | readLength size next =>
      obtain ⟨rfl, rfl, hpos⟩ := hagrees
      have hholds := h.holds_head hc rfl hpos
      unfold rxAccess at hacc
      dsimp only at hacc
      rw [hholds.length] at hacc
      split at hacc
      next hbad =>
        cases hacc
        have hinvalid : verdict size (q.slots q.head) = .invalid := by
          refine if_pos ?_
          rcases hbad with h0 | hsize | hbig
          · exact Or.inl h0
          · exact Or.inr hsize
          · exact absurd hholds.le (Nat.not_le_of_lt hbig)
        exact h.go hc ⟨rfl, hpos, hinvalid⟩ rfl rfl (fun _ _ _ hf => hf) (Or.inl ⟨rfl, rfl⟩)
      next hgood =>
        cases hacc
        rw [not_or, not_or] at hgood
        have hvalid : verdict size (q.slots q.head) = .packet (q.slots q.head) :=
          verdict_eq_packet fun hor => hor.elim hgood.1 hgood.2.1
        exact h.go hc ⟨rfl, hpos, hvalid, rfl, Nat.pos_of_ne_zero hgood.1, rfl⟩ rfl rfl
          (fun _ _ _ hf => hf) (Or.inl ⟨rfl, rfl⟩)
  | rejectStatus next =>
      obtain ⟨rfl, hpos, hinvalid⟩ := hagrees
      cases hacc
      exact h.go hc ⟨rfl, hpos, hinvalid⟩ rfl rfl (fun _ _ hi hf => hf.clearStatus_ne hi)
        (Or.inr ⟨hpos, rfl⟩)
  | rejectTail next => cases hacc
  | copy next length copied =>
      obtain ⟨rfl, hpos, hvalid, rfl, hlt, hcopied⟩ := hagrees
      have hholds := h.holds_head hc rfl hpos
      have hbyte := hholds.bytes copied.length hlt
      -- one byte more of the frame is copied
      have hmore : copied ++ [m.ring.buffers q.head copied.length]
          = (q.slots q.head).take (copied.length + 1) := by
        rw [List.take_add_one, hbyte, ← hcopied]
        rfl
      have hlen : (copied ++ [m.ring.buffers q.head copied.length]).length = copied.length + 1 := by
        simp
      unfold rxAccess at hacc
      dsimp only at hacc
      rw [hlen] at hacc
      split at hacc
      next hend =>
        cases hacc
        refine h.go hc ⟨rfl, hpos, ?_, hvalid⟩ rfl rfl (fun _ _ _ hf => hf) (Or.inl ⟨rfl, rfl⟩)
        rw [hmore, hend, List.take_length]
      next hmid =>
        cases hacc
        exact h.go hc ⟨rfl, hpos, hvalid, rfl, by omega, by rw [hlen]; exact hmore⟩ rfl rfl
          (fun _ _ _ hf => hf) (Or.inl ⟨rfl, rfl⟩)
  | clearStatus next copied =>
      obtain ⟨rfl, hpos, hrest⟩ := hagrees
      cases hacc
      exact h.go hc ⟨rfl, hpos, hrest⟩ rfl rfl (fun _ _ hi hf => hf.clearStatus_ne hi)
        (Or.inr ⟨hpos, rfl⟩)
  | clearLength next copied =>
      obtain ⟨rfl, hpos, hrest⟩ := hagrees
      cases hacc
      exact h.go hc ⟨rfl, hpos, hrest⟩ rfl rfl (fun _ _ hi hf => hf.clearLength_ne hi)
        (Or.inr ⟨hpos, rfl⟩)
  | writeTail next copied => cases hacc

/-- The end of a call that takes the first frame off. -/
theorem RxMachine.Sound.finish (h : m.Sound q taken rest) {bufferSize : Nat} {a : RxAccess}
    (hc : m.call = some (bufferSize, a)) (ha : a.consumes = true) (hpos : 0 < q.count) :
    ∃ q', RxMachine.Sound { m with
      ring := m.ring.writeTail q.head
      call := none
      results := m.results ++ [(bufferSize, verdict bufferSize (q.slots q.head))] }
      q' (taken ++ [(bufferSize, q.slots q.head)]) rest := by
  obtain ⟨q', hq⟩ := RingQueue.pop_of_pos hpos
  obtain ⟨-, -, hhead, htail, -⟩ := RingQueue.pop_eq_some hq
  have hmod : q.head % numRxDesc = q.head := Nat.mod_eq_of_lt q.head_lt
  have hheld := h.held
  rw [hc] at hheld
  simp only [firstHeld, Option.any_some, ha, if_true] at hheld
  refine ⟨q', ?_, htail.trans h.tail, fun k hk hlt => ?_, fun size b hb => absurd hb (by simp),
    ⟨h.device.none, fun hs => ?_⟩, ?_, ?_⟩
  · change q'.head = (q.head % numRxDesc + 1) % numRxDesc
    rw [hhead, hmod]
    rfl
  · exact (hheld.pop hq k hk hlt).congr rfl rfl
  · obtain ⟨frame, hrest, hholds, -⟩ := h.device.some hs
    refine ⟨frame, hrest, hholds.congr rfl rfl, ?_⟩
    change m.ring.rdh ≠ q.head % numRxDesc
    rw [hmod, ← h.tail]
    exact (RingQueue.head_ne_tail_of_pos hpos).symm
  · rw [h.accepted, RingQueue.toList_pop hq, List.map_append]
    simp
  · rw [List.filter_append, h.results, List.map_append]
    simp [verdict_ne_none]

/-- **The last access of a call** keeps the invariant. -/
theorem RxMachine.Sound.last (h : m.Sound q taken rest) {bufferSize : Nat} {a : RxAccess}
    {x : RxResult} {r : RxRing} (hc : m.call = some (bufferSize, a))
    (hacc : rxAccess a m.ring = (.inr x, r)) :
    ∃ q' taken', RxMachine.Sound { m with
      ring := r, call := none, results := m.results ++ [(bufferSize, x)] } q' taken' rest := by
  have hagrees := h.call _ _ hc
  -- a call that returns 0 has taken nothing off
  have hnothing : a.consumes = false → x = .none → r = m.ring →
      ∃ q' taken', RxMachine.Sound { m with
        ring := r, call := none, results := m.results ++ [(bufferSize, x)] } q' taken' rest := by
    rintro ha rfl rfl
    have hheld := h.held
    rw [hc] at hheld
    simp only [firstHeld, Option.any_some, ha] at hheld
    refine ⟨q, taken, h.head, h.tail, hheld, fun size b hb => absurd hb (by simp),
      ⟨h.device.none, h.device.some⟩, h.accepted, ?_⟩
    rw [List.filter_append, h.results]
    simp
  cases a with
  | readHead size => cases hacc
  | readTail size head =>
      unfold rxAccess at hacc
      dsimp only at hacc
      split at hacc
      · cases hacc
        exact hnothing rfl rfl rfl
      · cases hacc
  | readStatus size next =>
      obtain ⟨rfl, rfl, hpos⟩ := hagrees
      have hholds := h.holds_head hc rfl hpos
      unfold rxAccess at hacc
      dsimp only at hacc
      rw [if_neg hholds.done] at hacc
      cases hacc
  | readLength size next =>
      unfold rxAccess at hacc
      dsimp only at hacc
      split at hacc
      · cases hacc
      · cases hacc
  | rejectStatus next => cases hacc
  | rejectTail next =>
      obtain ⟨rfl, hpos, hinvalid⟩ := hagrees
      cases hacc
      obtain ⟨q', hq⟩ := h.finish hc rfl hpos
      rw [hinvalid] at hq
      exact ⟨q', _, hq⟩
  | copy next length copied =>
      unfold rxAccess at hacc
      dsimp only at hacc
      split at hacc
      · cases hacc
      · cases hacc
  | clearStatus next copied => cases hacc
  | clearLength next copied => cases hacc
  | writeTail next copied =>
      obtain ⟨rfl, hpos, rfl, hvalid⟩ := hagrees
      cases hacc
      obtain ⟨q', hq⟩ := h.finish hc rfl hpos
      rw [hvalid] at hq
      exact ⟨q', _, hq⟩

/-- **Every step keeps the invariant**. -/
theorem RxMachine.Sound.step (h : m.Sound q taken rest) (hs : m.Step m') :
    ∃ q' taken' rest', m'.Sound q' taken' rest' := by
  cases hs with
  | store hst hne hle hdone => exact ⟨_, _, _, h.store hst hne hle hdone⟩
  | advance hst =>
      obtain ⟨q', hq⟩ := h.advance hst
      exact ⟨q', _, _, hq⟩
  | call bufferSize hc => exact ⟨_, _, _, h.begin bufferSize hc⟩
  | access hc hacc => exact ⟨_, _, _, h.access hc hacc⟩
  | last hc hacc =>
      obtain ⟨q', taken', hq⟩ := h.last hc hacc
      exact ⟨q', taken', _, hq⟩

theorem RxMachine.Reaches.sound (hr : m.Reaches m') (h : m.Sound q taken rest) :
    ∃ q' taken' rest', m'.Sound q' taken' rest' := by
  induction hr with
  | refl => exact ⟨q, taken, rest, h⟩
  | tail _ hs ih =>
      obtain ⟨q', taken', rest', h'⟩ := ih
      exact h'.step hs

end sound

/-! ## A call alone -/

section alone

variable {r : RxRing} {bufferSize : Nat} {frame : List UInt8}

/-- The ring after a frame is taken off. -/
def RxRing.recycled (r : RxRing) (i : Nat) : RxRing :=
  ((r.clearStatus i).clearLength i).writeTail i

theorem rxAccess_copy {i k : Nat} (hbytes : ∀ j, j < frame.length → frame[j]? = some (r.buffers i j))
    (hk : k < frame.length) :
    rxAccess (.copy i frame.length (frame.take k)) r
      = if k + 1 = frame.length then (.inl (.clearStatus i frame), r)
        else (.inl (.copy i frame.length (frame.take (k + 1))), r) := by
  have htake : (frame.take k).length = k := by simp; omega
  have hmore : frame.take k ++ [r.buffers i k] = frame.take (k + 1) := by
    rw [List.take_add_one, hbytes k hk]
    rfl
  have hlen : (frame.take (k + 1)).length = k + 1 := by simp; omega
  simp only [rxAccess, htake, hmore, hlen]
  split
  next hend => rw [hend, List.take_length]
  next => rfl

/-- `memcpy` copies the rest of the frame, and the call ends. -/
theorem returns_of_copy {i : Nat} (hbytes : ∀ j, j < frame.length → frame[j]? = some (r.buffers i j))
    {k : Nat} (hk : k < frame.length) :
    ∃ a, Relation.ReflTransGen rxObject.Goes (.copy i frame.length (frame.take k), r) a ∧
      rxObject.access a.1 a.2 = (.inr (.packet frame), r.recycled i) := by
  obtain ⟨d, hd⟩ : ∃ d, frame.length = k + 1 + d := ⟨frame.length - (k + 1), by omega⟩
  induction d generalizing k with
  | zero =>
      have h1 : rxObject.Goes (.copy i frame.length (frame.take k), r) (.clearStatus i frame, r) :=
        (rxAccess_copy hbytes hk).trans (if_pos hd.symm)
      have h2 : rxObject.Goes (.clearStatus i frame, r) (.clearLength i frame, r.clearStatus i) := rfl
      have h3 : rxObject.Goes (.clearLength i frame, r.clearStatus i)
          (.writeTail i frame, (r.clearStatus i).clearLength i) := rfl
      exact ⟨_, ((Relation.ReflTransGen.single h1).tail h2).tail h3, rfl⟩
  | succ d ih =>
      have h1 : rxObject.Goes (.copy i frame.length (frame.take k), r)
          (.copy i frame.length (frame.take (k + 1)), r) :=
        (rxAccess_copy hbytes hk).trans (if_neg (by omega))
      obtain ⟨a, hgo, hend⟩ := ih (k := k + 1) (by omega) (by omega)
      exact ⟨a, hgo.head h1, hend⟩

/-- A call comes to the length of the first frame. -/
theorem goes_readLength (hne : (r.rdt + 1) % numRxDesc ≠ r.rdh)
    (h : r.Holds ((r.rdt + 1) % numRxDesc) frame) :
    Relation.ReflTransGen rxObject.Goes (.readHead bufferSize, r)
      (.readLength bufferSize ((r.rdt + 1) % numRxDesc), r) := by
  have h1 : rxObject.Goes (.readHead bufferSize, r) (.readTail bufferSize r.rdh, r) := rfl
  have h2 : rxObject.Goes (.readTail bufferSize r.rdh, r)
      (.readStatus bufferSize ((r.rdt + 1) % numRxDesc), r) := if_neg hne
  have h3 : rxObject.Goes (.readStatus bufferSize ((r.rdt + 1) % numRxDesc), r)
      (.readLength bufferSize ((r.rdt + 1) % numRxDesc), r) := if_neg h.done
  exact ((Relation.ReflTransGen.single h1).tail h2).tail h3

/-- A frame whose length is valid is copied. -/
theorem goes_copy {i : Nat} (h : r.Holds i frame) (hvalid : verdict bufferSize frame = .packet frame) :
    0 < frame.length ∧
      rxObject.Goes (.readLength bufferSize i, r) (.copy i frame.length (frame.take 0), r) := by
  have hgood : ¬ (frame.length = 0 ∨ bufferSize < frame.length) := by
    intro hbad
    rw [verdict, if_pos hbad] at hvalid
    cases hvalid
  rw [not_or] at hgood
  have hcond : ¬ (frame.length = 0 ∨ bufferSize < frame.length ∨ rxBufferSize < frame.length) := by
    rintro (h0 | hsize | hbig)
    · exact hgood.1 h0
    · exact hgood.2 hsize
    · exact absurd h.le (Nat.not_le_of_lt hbig)
  refine ⟨Nat.pos_of_ne_zero hgood.1, ?_⟩
  simp only [SharedObject.Goes, rxObject, rxAccess, h.length, hcond, if_false, List.take_zero]

/-- **A call alone** takes the first frame off. -/
theorem returns_packet (hne : (r.rdt + 1) % numRxDesc ≠ r.rdh)
    (h : r.Holds ((r.rdt + 1) % numRxDesc) frame)
    (hvalid : verdict bufferSize frame = .packet frame) :
    rxObject.Returns bufferSize r (.packet frame) (r.recycled ((r.rdt + 1) % numRxDesc)) := by
  obtain ⟨hpos, hfirst⟩ := goes_copy h hvalid
  obtain ⟨a, hgo, hend⟩ := returns_of_copy h.bytes hpos
  exact ⟨a, ((goes_readLength hne h).tail hfirst).trans hgo, hend⟩

/-- A call alone says of the first frame what its length is worth. -/
theorem returns_verdict (hne : (r.rdt + 1) % numRxDesc ≠ r.rdh)
    (h : r.Holds ((r.rdt + 1) % numRxDesc) frame) :
    ∃ r', rxObject.Returns bufferSize r (verdict bufferSize frame) r' := by
  by_cases hbad : frame.length = 0 ∨ bufferSize < frame.length
  · have hinvalid : verdict bufferSize frame = .invalid := if_pos hbad
    have h1 : rxObject.Goes (.readLength bufferSize ((r.rdt + 1) % numRxDesc), r)
        (.rejectStatus ((r.rdt + 1) % numRxDesc), r) := by
      have hcond : frame.length = 0 ∨ bufferSize < frame.length ∨ rxBufferSize < frame.length :=
        hbad.imp_right Or.inl
      simp only [SharedObject.Goes, rxObject, rxAccess, h.length, hcond, if_true]
    have h2 : rxObject.Goes (.rejectStatus ((r.rdt + 1) % numRxDesc), r)
        (.rejectTail ((r.rdt + 1) % numRxDesc), r.clearStatus ((r.rdt + 1) % numRxDesc)) := rfl
    rw [hinvalid]
    exact ⟨_, _, ((goes_readLength hne h).tail h1).tail h2, rfl⟩
  · have hvalid : verdict bufferSize frame = .packet frame := verdict_eq_packet hbad
    rw [hvalid]
    exact ⟨_, returns_packet hne h hvalid⟩

/-- A call alone changes nothing when no frame is behind RDT. -/
theorem returns_none (heq : (r.rdt + 1) % numRxDesc = r.rdh) :
    rxObject.Returns bufferSize r .none r := by
  have h1 : rxObject.Goes (.readHead bufferSize, r) (.readTail bufferSize r.rdh, r) := rfl
  exact ⟨_, .single h1, if_pos heq⟩

end alone

/-! ## Frames are received once and in order -/

section fifo

variable {m₀ m : RxMachine}

/-- The frames in the ring are at most 31: with the one that the device has stored, RDH is not RDT. -/
theorem RxMachine.Sound.length_lt {q : RingQueue (List UInt8) numRxDesc}
    {taken : List (Nat × List UInt8)} {rest : List (List UInt8)} (h : m.Sound q taken rest) :
    (q.toList ++ rest).length < numRxDesc := by
  rw [List.length_append, RingQueue.length_toList]
  have hcount := q.count_lt
  cases hst : m.stored with
  | false =>
      rw [h.device.none hst]
      exact hcount
  | true =>
      obtain ⟨frame, hrest, -, hne⟩ := h.device.some hst
      obtain ⟨q', hq⟩ := h.push hne frame
      obtain ⟨-, -, -, hcount'⟩ := RingQueue.push_eq_some hq
      have hlt := q'.count_lt
      rw [hrest, List.length_singleton, ← hcount']
      exact hlt

/-- Between two calls, the next one by itself says what the oldest frame behind RDT is worth. -/
theorem RxMachine.Sound.returns_head {q : RingQueue (List UInt8) numRxDesc}
    {taken : List (Nat × List UInt8)} {rest : List (List UInt8)} (h : m.Sound q taken rest)
    (hc : m.call = none) {frame : List UInt8} (hframe : q.toList.head? = some frame)
    (bufferSize : Nat) : ∃ r, rxObject.Returns bufferSize m.ring (verdict bufferSize frame) r := by
  have hpos : 0 < q.count := by
    rw [← RingQueue.length_toList]
    exact List.length_pos_of_mem (List.mem_of_mem_head? hframe)
  obtain ⟨q', hq⟩ := RingQueue.pop_of_pos hpos
  rw [RingQueue.toList_pop hq] at hframe
  have hheld := h.held
  rw [hc] at hheld
  have hhead := hheld.head hpos
  obtain rfl : q.slots q.head = frame := by simpa using hframe
  have hne := RingQueue.head_ne_tail_of_pos hpos
  rw [h.head, h.tail] at hne
  rw [h.head] at hhead ⊢
  exact returns_verdict hne hhead

/-- **The ring is a queue.** However the device and one caller interleave, the calls return the frames
that the device has accepted, each of them once and in their order; at most 31 are outstanding. While
no call is in progress, a call by itself returns the oldest frame of those that RDH has passed, and 0
when there are none. -/
theorem rx_fifo (h₀ : m₀.Initial) (hr : m₀.Reaches m) :
    ∃ (taken : List (Nat × List UInt8)) (pending rest : List (List UInt8)),
      m.accepted = taken.map Prod.snd ++ pending ++ rest ∧
      (m.results.filter (·.2 ≠ .none) = taken.map fun t => (t.1, verdict t.1 t.2)) ∧
      (pending ++ rest).length < numRxDesc ∧ (m.stored = false → rest = []) ∧
      (m.call = none → ∀ bufferSize,
        (pending = [] → rxObject.Returns bufferSize m.ring .none m.ring) ∧
        ∀ frame, pending.head? = some frame →
          ∃ r, rxObject.Returns bufferSize m.ring (verdict bufferSize frame) r) := by
  obtain ⟨q, taken, rest, h⟩ := hr.sound h₀.sound
  refine ⟨taken, q.toList, rest, h.accepted, h.results, h.length_lt, h.device.none,
    fun hc bufferSize => ⟨fun hnil => ?_, fun frame hframe => h.returns_head hc hframe bufferSize⟩⟩
  have heq := RingQueue.toList_eq_nil.mp hnil
  rw [h.head, h.tail] at heq
  exact returns_none heq

/-- While no frame is half stored, the next call is about the first frame that no call has taken off. -/
theorem RxMachine.Initial.returns_next (h₀ : m₀.Initial) (hr : m₀.Reaches m) (hs : m.stored = false)
    (hc : m.call = none) {frame : List UInt8}
    (hframe : m.accepted[(m.results.filter (·.2 ≠ .none)).length]? = some frame) (bufferSize : Nat) :
    ∃ r, rxObject.Returns bufferSize m.ring (verdict bufferSize frame) r := by
  obtain ⟨q, taken, rest, h⟩ := hr.sound h₀.sound
  refine h.returns_head hc ?_ bufferSize
  rw [h.accepted, h.device.none hs, List.append_nil, h.results, List.length_map,
    List.getElem?_append_right (by rw [List.length_map]), List.length_map, Nat.sub_self] at hframe
  rw [List.head?_eq_getElem?]
  exact hframe

/-- The rings as `initialize_rings_and_buffers` and `e1000_init` leave them. -/
def RxMachine.boot (buffers : Nat → Nat → UInt8) : RxMachine where
  ring := ⟨fun _ => ⟨0, 0⟩, buffers, 0, numRxDesc - 1, by decide, by decide⟩
  stored := false
  call := none
  accepted := []
  results := []

theorem RxMachine.reaches_boot (buffers : Nat → Nat → UInt8) :
    (RxMachine.boot buffers).Reaches (RxMachine.boot buffers) := .refl

theorem RxMachine.initial_boot (buffers : Nat → Nat → UInt8) : (RxMachine.boot buffers).Initial :=
  ⟨rfl, rfl, rfl, rfl, rfl, rfl⟩

/-- A frame comes in. -/
theorem RxMachine.Reaches.frame (hr : m₀.Reaches m) (hs : m.stored = false)
    (hne : m.ring.rdh ≠ m.ring.rdt) (frame : List UInt8) (hle : frame.length ≤ rxBufferSize) :
    m₀.Reaches { m with
      ring := (m.ring.store frame 1).advance, stored := false, accepted := m.accepted ++ [frame] } :=
  (hr.tail (.store hs hne hle (by decide : (1 : UInt8) &&& 0x01 ≠ 0))).tail (.advance rfl)

/-- A call that nothing interrupts. -/
theorem RxMachine.Reaches.returns (hr : m₀.Reaches m) (hc : m.call = none) {bufferSize : Nat}
    {x : RxResult} {r : RxRing} (hx : rxObject.Returns bufferSize m.ring x r) :
    m₀.Reaches { m with ring := r, results := m.results ++ [(bufferSize, x)] } := by
  obtain ⟨a, hgo, hend⟩ := hx
  have hrun : m₀.Reaches { m with ring := a.2, call := some (bufferSize, a.1) } := by
    clear hend
    induction hgo with
    | refl => exact hr.tail (.call bufferSize hc)
    | tail _ hgoes ih => exact ih.tail (.access rfl hgoes)
  have hlast := hrun.tail (.last rfl hend)
  rw [← hc] at hlast
  exact hlast

/-- Three frames come in behind a call without a frame. The next two calls have a buffer for the first
one and none for the second one, and the third frame is still there. -/
theorem rx_fifo_three : ∃ m : RxMachine, (RxMachine.boot fun _ _ => 0).Reaches m ∧
    m.accepted = [[7], [1, 2, 3], [9]] ∧
    m.results = [(2048, .none), (2048, .packet [7]), (2, .invalid)] ∧
    ∃ r, rxObject.Returns 2048 m.ring (.packet [9]) r := by
  have h₀ := RxMachine.initial_boot fun _ _ => 0
  have hnone := (RxMachine.reaches_boot fun _ _ => 0).returns rfl
    (@returns_none _ 2048 rfl)
  have hframes := ((hnone.frame rfl (by decide) [7] (by decide)).frame rfl (by decide) [1, 2, 3]
    (by decide)).frame rfl (by decide) [9] (by decide)
  obtain ⟨r₁, hfirst⟩ := h₀.returns_next hframes rfl rfl (show _ = some [7] from rfl) 2048
  have hr₁ := hframes.returns rfl hfirst
  obtain ⟨r₂, hsecond⟩ := h₀.returns_next hr₁ rfl rfl (show _ = some [1, 2, 3] from rfl) 2
  have hr₂ := hr₁.returns rfl hsecond
  refine ⟨_, hr₂, rfl, rfl, ?_⟩
  obtain ⟨taken, pending, rest, hacc, hres, -, hrest, hcall⟩ := rx_fifo h₀ hr₂
  -- two calls have taken frames off, so the third frame is pending
  have htaken : (taken.map Prod.snd).length = 2 := by
    have hlen := congrArg List.length hres
    rw [List.length_map] at hlen ⊢
    exact hlen.symm
  rw [hrest rfl, List.append_nil] at hacc
  have hpending : [[7], [1, 2, 3], [9]].drop 2 = pending := by
    have hdrop := congrArg (List.drop 2) hacc
    rw [List.drop_left' htaken] at hdrop
    exact hdrop
  exact (hcall rfl 2048).2 [9] (by rw [← hpending]; rfl)

end fifo

/-! ## A call that is interrupted

`check_received_packet` runs in the interrupt handler, `e1000_isr`, and calls `e1000_receive_packet`,
as the commands of the shell do. Nothing keeps the interrupt out of their calls. -/

/-- Nothing is received any more: the descriptor behind RDT is not done, and RDH, which stops at RDT,
does not come to it. -/
structure RxMachine.Deaf (m : RxMachine) : Prop where
  clear : (m.ring.descs ((m.ring.rdt + 1) % numRxDesc)).status &&& 0x01 = 0
  rdh : m.ring.rdh ≠ (m.ring.rdt + 1) % numRxDesc
  stored : m.stored = true → m.ring.rdh ≠ m.ring.rdt
  call : ∀ bufferSize a, m.call = some (bufferSize, a) →
    (∃ size, a = .readHead size) ∨ (∃ size head, a = .readTail size head) ∨
      ∃ size, a = .readStatus size ((m.ring.rdt + 1) % numRxDesc)

section deaf

variable {m m' : RxMachine}

theorem RxMachine.Deaf.step (h : m.Deaf) (hs : m.Step m') :
    m'.Deaf ∧ ∃ later, m'.results = m.results ++ later ∧ ∀ t ∈ later, t.2 = .none := by
  have hsame : ∃ later, m.results = m.results ++ later ∧ ∀ t ∈ later, t.2 = RxResult.none :=
    ⟨[], (List.append_nil _).symm, fun t ht => absurd ht List.not_mem_nil⟩
  cases hs with
  | store hst hne hle hdone =>
      -- the frame goes to RDH, and that is not the descriptor behind RDT
      refine ⟨⟨?_, h.rdh, fun _ => hne, h.call⟩, hsame⟩
      change ((m.ring.store _ _).descs ((m.ring.rdt + 1) % numRxDesc)).status &&& 0x01 = 0
      rw [RxRing.store_descs_ne h.rdh.symm]
      exact h.clear
  | advance hst =>
      refine ⟨⟨h.clear, ?_, fun (hf : false = true) => absurd hf (by decide), h.call⟩, hsame⟩
      have hne := h.stored hst
      have h1 := m.ring.rdh_lt
      have h2 := m.ring.rdt_lt
      change (m.ring.rdh + 1) % numRxDesc ≠ (m.ring.rdt + 1) % numRxDesc
      unfold numRxDesc at h1 h2 ⊢
      omega
  | call bufferSize hc =>
      refine ⟨⟨h.clear, h.rdh, h.stored, fun size a ha => ?_⟩, hsame⟩
      cases ha
      exact Or.inl ⟨_, rfl⟩
  | access hc hacc =>
      rcases h.call _ _ hc with ⟨size, rfl⟩ | ⟨size, head, rfl⟩ | ⟨size, rfl⟩
      · cases hacc
        refine ⟨⟨h.clear, h.rdh, h.stored, fun size' a ha => ?_⟩, hsame⟩
        cases ha
        exact Or.inr (Or.inl ⟨_, _, rfl⟩)
      · unfold rxAccess at hacc
        dsimp only at hacc
        split at hacc
        · cases hacc
        · cases hacc
          refine ⟨⟨h.clear, h.rdh, h.stored, fun size' a ha => ?_⟩, hsame⟩
          cases ha
          exact Or.inr (Or.inr ⟨_, rfl⟩)
      · unfold rxAccess at hacc
        dsimp only at hacc
        rw [if_pos h.clear] at hacc
        cases hacc
  | last hc hacc =>
      have hnothing : ∀ {bufferSize : Nat} {x : RxResult} {r : RxRing}, x = .none → r = m.ring →
          RxMachine.Deaf { m with
            ring := r, call := none, results := m.results ++ [(bufferSize, x)] } ∧
          ∃ later, m.results ++ [(bufferSize, x)] = m.results ++ later ∧ ∀ t ∈ later, t.2 = .none := by
        rintro bufferSize x r rfl rfl
        refine ⟨⟨h.clear, h.rdh, h.stored, fun size a ha => absurd ha (by simp)⟩, _, rfl, ?_⟩
        intro t ht
        rw [List.mem_singleton.mp ht]
      rcases h.call _ _ hc with ⟨size, rfl⟩ | ⟨size, head, rfl⟩ | ⟨size, rfl⟩
      · cases hacc
      · unfold rxAccess at hacc
        dsimp only at hacc
        split at hacc
        · cases hacc
          exact hnothing rfl rfl
        · cases hacc
      · unfold rxAccess at hacc
        dsimp only at hacc
        rw [if_pos h.clear] at hacc
        cases hacc
        exact hnothing rfl rfl

theorem RxMachine.Deaf.reaches (h : m.Deaf) (hr : m.Reaches m') :
    m'.Deaf ∧ ∃ later, m'.results = m.results ++ later ∧ ∀ t ∈ later, t.2 = .none := by
  induction hr with
  | refl => exact ⟨h, [], (List.append_nil _).symm, fun t ht => absurd ht List.not_mem_nil⟩
  | tail _ hs ih =>
      obtain ⟨hdeaf, later, hres, hnone⟩ := ih
      obtain ⟨hdeaf', more, hres', hnone'⟩ := hdeaf.step hs
      refine ⟨hdeaf', later ++ more, by rw [hres', hres, List.append_assoc], fun t ht => ?_⟩
      exact (List.mem_append.mp ht).elim (hnone t) (hnone' t)

end deaf

section interrupted

variable {m₀ m : RxMachine}

end interrupted

end MicroKernel.Net.E1000
