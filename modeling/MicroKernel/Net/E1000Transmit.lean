import MicroKernel.Lib.Bytes
import MicroKernel.Lib.RingQueue

set_option autoImplicit false

/-! # The transmit ring of the E1000 (`drivers/net/e1000.c`)

`e1000_send_packet` writes the address of a packet to the descriptor at `tx_cur` and then writes TDT. The
device fetches the descriptors from TDH on, as long as TDH is not TDT, and only then reads the packets.
The driver does not look whether the descriptor at `tx_cur` is free: with seven frames in the ring, TDT
comes back to TDH, and to the device the ring is empty.

The invariant (`Sound`) says that the descriptors between TDH and TDT are a queue (`Lib.RingQueue`), and
counts its frames.
-/

namespace MicroKernel.Net.E1000

open MicroKernel.Lib

/-- `E1000_NUM_TX_DESC`. -/
def numTxDesc : Nat := 8

theorem numTxDesc_pos : 0 < numTxDesc := by decide

/-- `struct e1000_tx_desc`. -/
structure TxDesc where
  bufferAddr : Nat
  length : UInt16
  cso : UInt8
  cmd : UInt8
  status : UInt8
  css : UInt8
  special : UInt16

/-- `tx_descs`, the registers TDH and TDT, and `tx_cur`. -/
structure TxRing where
  descs : Nat → TxDesc
  tdh : Nat
  tdt : Nat
  txCur : Nat
  tdh_lt : tdh < numTxDesc
  tdt_lt : tdt < numTxDesc

/-! ## The driver -/

/-- The next writes of `e1000_send_packet`, with its parameters. -/
inductive TxAccess
  | descriptor (packet length : Nat)
  | tail (packet length : Nat)

/-- The check of `e1000_send_packet`; a length that no frame has leads to a message only. -/
def txStart (packet length : Nat) : Option TxAccess :=
  if 1518 < length ∨ length < 14 then none else some (.descriptor packet length)

/-- What `e1000_send_packet` writes to a descriptor, with the bits EOP, IFCS, RS and IDE. -/
def txDesc (packet length : Nat) : TxDesc := ⟨packet, UInt16.ofNat length, 0, 0x8B, 0, 0, 0⟩

namespace TxRing

/-- The writes to `tx_descs[tail]`. -/
def setUp (r : TxRing) (packet length : Nat) : TxRing :=
  { r with descs := Function.update r.descs r.txCur (txDesc packet length) }

/-- `tx_cur = (tx_cur + 1) % E1000_NUM_TX_DESC`, and the write of TDT. -/
def publish (r : TxRing) : TxRing :=
  { r with
    txCur := (r.txCur + 1) % numTxDesc
    tdt := (r.txCur + 1) % numTxDesc
    tdt_lt := Nat.mod_lt _ numTxDesc_pos }

/-! ## The device -/

/-- The device has sent the frame at TDH. It sets the bit DD if the bit RS asks for it. -/
def advance (r : TxRing) : TxRing :=
  { r with
    descs := Function.update r.descs r.tdh { r.descs r.tdh with
      status :=
        if (r.descs r.tdh).cmd &&& 0x08 ≠ 0 then (r.descs r.tdh).status ||| 0x01
        else (r.descs r.tdh).status }
    tdh := (r.tdh + 1) % numTxDesc
    tdh_lt := Nat.mod_lt _ numTxDesc_pos }

/-- The descriptors that the device is still to fetch. -/
def waiting (r : TxRing) : RingQueue TxDesc numTxDesc := ⟨r.descs, r.tdh, r.tdt, r.tdh_lt, r.tdt_lt⟩

end TxRing

/-- The bytes behind an address. -/
def bytesAt (memory : Bytes) (addr length : Nat) : List UInt8 :=
  (List.range length).map fun i => memory (addr + i)

/-- The frame of a descriptor, as it stands in the memory. -/
def TxDesc.frame (memory : Bytes) (d : TxDesc) : List UInt8 :=
  bytesAt memory d.bufferAddr d.length.toNat

/-- The ring, the memory, the call in progress, and what happened: the frames of the calls, as they stood
when TDT was written; the frames that the device sent, as they stood when it read them; and how often TDT
was written with seven frames in the ring. -/
structure TxMachine where
  ring : TxRing
  memory : Bytes
  call : Option TxAccess
  handed : List (List UInt8)
  sent : List (List UInt8)
  overruns : Nat

/-- A step of the driver, of the device, or of a program that writes to the memory. The calls do not
overlap. -/
inductive TxMachine.Step (mayWrite : TxMachine → Bytes → Prop) : TxMachine → TxMachine → Prop
  | call {m : TxMachine} {a : TxAccess} (packet length : Nat) :
      m.call = none → txStart packet length = some a → Step mayWrite m { m with call := some a }
  | descriptor {m : TxMachine} {packet length : Nat} : m.call = some (.descriptor packet length) →
      Step mayWrite m { m with
        ring := m.ring.setUp packet length, call := some (.tail packet length) }
  | tail {m : TxMachine} {packet length : Nat} : m.call = some (.tail packet length) →
      Step mayWrite m { m with
        ring := m.ring.publish
        call := none
        handed := m.handed ++ [bytesAt m.memory packet length]
        overruns := m.overruns + if m.ring.waiting.count + 1 = numTxDesc then 1 else 0 }
  | send {m : TxMachine} : m.ring.tdh ≠ m.ring.tdt →
      Step mayWrite m { m with
        ring := m.ring.advance, sent := m.sent ++ [(m.ring.descs m.ring.tdh).frame m.memory] }
  | write {m : TxMachine} {memory : Bytes} : mayWrite m memory → Step mayWrite m { m with memory }

/-- `m'` is reached from `m`. -/
def TxMachine.Reaches (mayWrite : TxMachine → Bytes → Prop) (m m' : TxMachine) : Prop :=
  Relation.ReflTransGen (TxMachine.Step mayWrite) m m'

/-- After `e1000_init`. -/
structure TxMachine.Initial (m : TxMachine) : Prop where
  tdh : m.ring.tdh = 0
  tdt : m.ring.tdt = 0
  txCur : m.ring.txCur = 0
  call : m.call = none
  handed : m.handed = []
  sent : m.sent = []
  overruns : m.overruns = 0

/-- The frames that wait, as they stand in the memory. -/
def TxMachine.waitingFrames (m : TxMachine) : List (List UInt8) :=
  m.ring.waiting.toList.map (TxDesc.frame m.memory)

/-! ## Steps of the ring -/

section ring

variable {r : TxRing}

/-- The descriptor at TDT is not one that waits. -/
theorem TxRing.toList_setUp (hcur : r.txCur = r.tdt) (packet length : Nat) :
    (r.setUp packet length).waiting.toList = r.waiting.toList := by
  refine RingQueue.toList_congr_tail rfl rfl fun i hi => ?_
  refine Function.update_of_ne ?_ _ _
  rw [hcur]
  exact hi

/-- With seven frames in the ring, it becomes empty. -/
theorem TxRing.toList_publish_full (hcur : r.txCur = r.tdt) (hfull : r.waiting.count + 1 = numTxDesc) :
    r.publish.waiting.toList = [] := by
  have hnone : r.waiting.push (r.descs r.tdt) = none := by
    rw [RingQueue.push_eq_none, RingQueue.length_toList]
    omega
  unfold RingQueue.push at hnone
  split at hnone
  next hnext =>
    refine RingQueue.toList_eq_nil.mpr ?_
    change r.tdh = (r.txCur + 1) % numTxDesc
    rw [hcur]
    exact hnext.symm
  next => cases hnone

/-- Otherwise the descriptor at TDT is pushed. -/
theorem TxRing.push_publish (hcur : r.txCur = r.tdt) (hroom : r.waiting.count + 1 ≠ numTxDesc) :
    r.waiting.push (r.descs r.tdt) = some r.publish.waiting := by
  have hnext : RingQueue.next numTxDesc r.tdt ≠ r.tdh := by
    intro heq
    have hnone : r.waiting.push (r.descs r.tdt) = none := if_pos heq
    rw [RingQueue.push_eq_none, RingQueue.length_toList] at hnone
    have hpos := numTxDesc_pos
    omega
  refine (if_neg hnext).trans ?_
  simp [TxRing.waiting, TxRing.publish, hcur, RingQueue.next]

/-- The device takes the first of the frames that wait. -/
theorem TxRing.toList_advance (hne : r.tdh ≠ r.tdt) (memory : Bytes) :
    r.waiting.count = r.advance.waiting.count + 1 ∧ r.waiting.toList.map (TxDesc.frame memory)
      = (r.descs r.tdh).frame memory :: r.advance.waiting.toList.map (TxDesc.frame memory) := by
  obtain ⟨q, hq⟩ : ∃ q, r.waiting.pop = some (r.descs r.tdh, q) := ⟨_, if_neg hne⟩
  obtain ⟨-, hslots, hhead, htail, hcount⟩ := RingQueue.pop_eq_some hq
  have hhead' : r.advance.waiting.head = q.head := hhead.symm
  have htail' : r.advance.waiting.tail = q.tail := htail.symm
  constructor
  · rw [hcount]
    unfold RingQueue.count
    rw [hhead', htail']
  · rw [RingQueue.toList_pop hq, List.map_cons]
    congr 1
    refine (RingQueue.map_toList_congr hhead' htail' fun i => ?_).symm
    -- only the status of the descriptor has changed
    rw [hslots]
    change TxDesc.frame memory (Function.update r.descs r.tdh _ i) = _
    by_cases hi : i = r.tdh
    · rw [hi, Function.update_self]
      rfl
    · rw [Function.update_of_ne hi]
      rfl

theorem txDesc_frame (memory : Bytes) (packet : Nat) {length : Nat} (hle : length ≤ 1518) :
    (txDesc packet length).frame memory = bytesAt memory packet length := by
  have hlength : (txDesc packet length).length.toNat = length :=
    UInt16.toNat_ofNat_of_lt' (by simp [UInt16.size]; omega)
  unfold TxDesc.frame
  rw [hlength]
  rfl

end ring

/-! ## The invariant -/

/-- What a call has done so far. -/
def TxAccess.Agrees (r : TxRing) : TxAccess → Prop
  | .descriptor _ length => length ≤ 1518
  | .tail packet length => length ≤ 1518 ∧ r.descs r.tdt = txDesc packet length

/-- The invariant, whatever is written to the memory. -/
structure TxMachine.Sound (m : TxMachine) : Prop where
  cur : m.ring.txCur = m.ring.tdt
  call : ∀ a, m.call = some a → a.Agrees m.ring
  count : m.handed.length = m.sent.length + m.ring.waiting.count + numTxDesc * m.overruns

/-- The frames that were sent, and those that wait, are frames of the calls, each once and in order. -/
def TxMachine.InOrder (m : TxMachine) : Prop := (m.sent ++ m.waitingFrames).Sublist m.handed

/-- Nothing is written to a buffer whose frame waits. -/
def LeavesFrames (m : TxMachine) (memory : Bytes) : Prop :=
  ∀ d ∈ m.ring.waiting.toList, d.frame memory = d.frame m.memory

section sound

variable {mayWrite : TxMachine → Bytes → Prop} {m₀ m m' : TxMachine}

theorem txStart_agrees {packet length : Nat} {a : TxAccess} (h : txStart packet length = some a)
    (r : TxRing) : a.Agrees r := by
  unfold txStart at h
  split at h
  · cases h
  next hlength =>
    cases h
    exact Nat.le_of_not_lt fun hlt => hlength (Or.inl hlt)

/-- **A step** keeps the invariant. -/
theorem TxMachine.Sound.step (h : m.Sound) (hs : TxMachine.Step mayWrite m m') : m'.Sound := by
  cases hs with
  | call packet length hnone hstart =>
      refine ⟨h.cur, fun a ha => ?_, h.count⟩
      cases ha
      exact txStart_agrees hstart _
  | descriptor hc =>
      refine ⟨h.cur, fun a ha => ?_, h.count⟩
      cases ha
      refine ⟨h.call _ hc, ?_⟩
      change Function.update _ m.ring.txCur _ m.ring.tdt = _
      rw [h.cur, Function.update_self]
  | tail hc =>
      refine ⟨rfl, fun a ha => absurd ha (by simp), ?_⟩
      have hcount := h.count
      rw [List.length_append, List.length_singleton, hcount]
      by_cases hfull : m.ring.waiting.count + 1 = numTxDesc
      · have hnone : m.ring.publish.waiting.count = 0 := by
          rw [← RingQueue.length_toList, m.ring.toList_publish_full h.cur hfull]
          rfl
        simp only [hnone, if_pos hfull, Nat.mul_add, Nat.mul_one]
        omega
      · have hmore := (RingQueue.push_eq_some (m.ring.push_publish h.cur hfull)).2.2.2
        simp only [hmore, if_neg hfull, Nat.add_zero]
        omega
  | send hne =>
      refine ⟨h.cur, fun a ha => ?_, ?_⟩
      · have hagrees := h.call a ha
        cases a with
        | descriptor packet length => exact hagrees
        | tail packet length =>
            refine ⟨hagrees.1, ?_⟩
            change Function.update _ m.ring.tdh _ m.ring.tdt = _
            rw [Function.update_of_ne hne.symm]
            exact hagrees.2
      · have hcount := h.count
        rw [(m.ring.toList_advance hne m.memory).1] at hcount
        simp only [List.length_append, List.length_singleton]
        omega
  | write hw => exact ⟨h.cur, h.call, h.count⟩

/-- A step keeps the order, if it leaves the frames that wait alone. -/
theorem TxMachine.InOrder.step (ho : m.InOrder) (h : m.Sound)
    (hs : TxMachine.Step LeavesFrames m m') : m'.InOrder := by
  cases hs with
  | call packet length hnone hstart => exact ho
  | descriptor hc =>
      unfold TxMachine.InOrder TxMachine.waitingFrames
      simp only [m.ring.toList_setUp h.cur]
      exact ho
  | @tail packet length hc =>
      obtain ⟨hle, hdesc⟩ := h.call _ hc
      unfold TxMachine.InOrder TxMachine.waitingFrames
      simp only
      by_cases hfull : m.ring.waiting.count + 1 = numTxDesc
      · -- TDT has come to TDH, and nothing waits any more
        rw [m.ring.toList_publish_full h.cur hfull, List.map_nil, List.append_nil]
        exact ((List.sublist_append_left _ _).trans ho).trans (List.sublist_append_left _ _)
      · rw [RingQueue.toList_push (m.ring.push_publish h.cur hfull), List.map_append, List.map_singleton,
          hdesc, txDesc_frame _ _ hle, ← List.append_assoc]
        exact ho.append (List.Sublist.refl _)
  | send hne =>
      have hfirst := (m.ring.toList_advance hne m.memory).2
      unfold TxMachine.InOrder TxMachine.waitingFrames at ho ⊢
      rw [hfirst] at ho
      simp only [List.append_assoc, List.singleton_append]
      exact ho
  | @write memory hw =>
      have hsame : m.ring.waiting.toList.map (TxDesc.frame memory)
          = m.ring.waiting.toList.map (TxDesc.frame m.memory) := List.map_congr_left hw
      unfold TxMachine.InOrder TxMachine.waitingFrames at ho ⊢
      simp only [hsame]
      exact ho

theorem TxMachine.Initial.waiting_nil (h : m.Initial) : m.ring.waiting.toList = [] :=
  RingQueue.toList_eq_nil.mpr (h.tdh.trans h.tdt.symm)

theorem TxMachine.Initial.sound (h : m.Initial) : m.Sound := by
  refine ⟨h.txCur.trans h.tdt.symm, fun a ha => ?_, ?_⟩
  · rw [h.call] at ha
    cases ha
  · rw [h.handed, h.sent, h.overruns, ← RingQueue.length_toList, h.waiting_nil]
    rfl

theorem TxMachine.Initial.inOrder (h : m.Initial) : m.InOrder := by
  unfold TxMachine.InOrder TxMachine.waitingFrames
  rw [h.waiting_nil, h.sent, h.handed]
  exact List.Sublist.refl _

theorem TxMachine.Initial.reaches (h₀ : m₀.Initial) (hr : m₀.Reaches mayWrite m) : m.Sound := by
  induction hr with
  | refl => exact h₀.sound
  | tail _ hs ih => exact ih.step hs

theorem TxMachine.Initial.reaches_inOrder (h₀ : m₀.Initial) (hr : m₀.Reaches LeavesFrames m) :
    m.InOrder := by
  induction hr with
  | refl => exact h₀.inOrder
  | tail hr hs ih => exact ih.step (h₀.reaches hr) hs

/-- **Frames are sent in order**, if nothing is written to the buffer of a frame that waits: the frames
that were sent and those that wait are frames of the calls, each once and in the order of the calls. They
are all of them exactly if TDT was never written with seven frames in the ring; each time it was, eight
frames are gone. -/
theorem tx_inOrder (h₀ : m₀.Initial) (hr : m₀.Reaches LeavesFrames m) :
    (m.sent ++ m.waitingFrames).Sublist m.handed ∧
    (m.sent ++ m.waitingFrames = m.handed ↔ m.overruns = 0) ∧
    m.handed.length = (m.sent ++ m.waitingFrames).length + 8 * m.overruns := by
  have horder := h₀.reaches_inOrder hr
  have hlength : m.handed.length = (m.sent ++ m.waitingFrames).length + 8 * m.overruns := by
    unfold TxMachine.waitingFrames
    rw [List.length_append, List.length_map, RingQueue.length_toList]
    exact (h₀.reaches hr).count
  refine ⟨horder, ⟨fun heq => ?_, fun hzero => ?_⟩, hlength⟩
  · rw [heq] at hlength
    omega
  · refine horder.eq_of_length ?_
    rw [hlength, hzero]
    rfl

/-- **A frame that waits is not safe**: whatever is written to its buffer is what the device sends. -/
theorem tx_late (hne : m.ring.tdh ≠ m.ring.tdt) {frame : List UInt8}
    (hlen : frame.length = (m.ring.descs m.ring.tdh).length.toNat) :
    ∃ m', m.Reaches (fun _ _ => True) m' ∧ m'.handed = m.handed ∧ m'.sent = m.sent ++ [frame] := by
  let memory : Bytes := fun x => frame.getD (x - (m.ring.descs m.ring.tdh).bufferAddr) 0
  have hframe : (m.ring.descs m.ring.tdh).frame memory = frame := by
    unfold TxDesc.frame bytesAt
    rw [← hlen]
    refine List.ext_getElem (by simp) fun i hi hi' => ?_
    simp [memory, hi']
  have hwrite : TxMachine.Step (fun _ _ => True) m { m with memory } := .write trivial
  have hsend := @TxMachine.Step.send (fun _ _ => True) { m with memory } hne
  refine ⟨_, (Relation.ReflTransGen.single hwrite).tail hsend, rfl, ?_⟩
  change m.sent ++ [(m.ring.descs m.ring.tdh).frame memory] = _
  rw [hframe]

end sound

/-! ### One packet -/

/-- The ring behind `e1000_init`, and a memory of zeros. -/
def idleTx : TxMachine where
  ring := ⟨fun _ => ⟨0, 0, 0, 0, 0xFF, 0, 0⟩, 0, 0, 0, numTxDesc_pos, numTxDesc_pos⟩
  memory := fun _ => 0
  call := none
  handed := []
  sent := []
  overruns := 0

/-- A whole call of `e1000_send_packet`. -/
def TxMachine.sendPacket (m : TxMachine) (packet length : Nat) : TxMachine :=
  { m with
    ring := (m.ring.setUp packet length).publish
    handed := m.handed ++ [bytesAt m.memory packet length]
    overruns := m.overruns + if m.ring.waiting.count + 1 = numTxDesc then 1 else 0 }

/-- Calls for packets of 60 bytes, one after the other. -/
def TxMachine.sendPackets (m : TxMachine) (packets : List Nat) : TxMachine :=
  packets.foldl (fun m packet => m.sendPacket packet 60) m

/-- The device sends the first frame that waits. -/
def TxMachine.transmit (m : TxMachine) : TxMachine :=
  { m with ring := m.ring.advance, sent := m.sent ++ [(m.ring.descs m.ring.tdh).frame m.memory] }

section runs

variable {mayWrite : TxMachine → Bytes → Prop} {m₀ m : TxMachine}

theorem TxMachine.Reaches.sendPacket (hr : m₀.Reaches mayWrite m) (hc : m.call = none)
    (packet : Nat) {length : Nat} (hlen : ¬ (1518 < length ∨ length < 14)) :
    m₀.Reaches mayWrite (m.sendPacket packet length) := by
  have hcall : TxMachine.Step mayWrite m { m with call := some (.descriptor packet length) } :=
    .call packet length hc (if_neg hlen)
  have hdone := ((hr.tail hcall).tail (.descriptor rfl)).tail (.tail rfl)
  rw [← hc] at hdone
  exact hdone

theorem TxMachine.Reaches.sendPackets (hr : m₀.Reaches mayWrite m) (hc : m.call = none)
    (packets : List Nat) : m₀.Reaches mayWrite (m.sendPackets packets) := by
  induction packets generalizing m with
  | nil => exact hr
  | cons packet packets ih => exact ih (hr.sendPacket hc packet (by decide)) hc

theorem TxMachine.Reaches.transmit (hr : m₀.Reaches mayWrite m) (hne : m.ring.tdh ≠ m.ring.tdt) :
    m₀.Reaches mayWrite m.transmit := hr.tail (.send hne)

end runs

/-- The ring behind `e1000_init`, and a packet of the bytes `n` at `0x1000 * n`. -/
def packetsTx : TxMachine := { idleTx with memory := fun x => UInt8.ofNat (x / 0x1000) }

/-- Two packets, of which the first one is sent and its buffer used again. -/
def reusedTx : TxMachine :=
  { (packetsTx.sendPackets [0x1000, 0x2000]).transmit with
    memory := fun x => if x < 0x2000 then 0 else UInt8.ofNat (x / 0x1000) }

theorem reusedTx_reached : packetsTx.Reaches LeavesFrames reusedTx := by
  have htwo : packetsTx.Reaches LeavesFrames (packetsTx.sendPackets [0x1000, 0x2000]) :=
    TxMachine.Reaches.sendPackets .refl rfl _
  refine (htwo.transmit (by decide)).tail (.write fun d hd => ?_)
  -- the second packet waits, and it is not written to
  obtain rfl : d = txDesc 0x2000 60 := List.mem_singleton.mp hd
  rfl

/-- Seven packets more make the ring overrun: the eight that have not been sent are gone. The next two
are not. -/
theorem tx_inOrder_overrun : ∃ m : TxMachine, packetsTx.Reaches LeavesFrames m ∧
    m.sent = [List.replicate 60 1, List.replicate 60 10] ∧
    m.waitingFrames = [List.replicate 60 11] ∧ m.overruns = 1 ∧
    (m.sent ++ m.waitingFrames).Sublist m.handed ∧ m.sent ++ m.waitingFrames ≠ m.handed ∧
    m.handed.length = (m.sent ++ m.waitingFrames).length + 8 * 1 := by
  have hseven := reusedTx_reached.sendPackets rfl
    [0x3000, 0x4000, 0x5000, 0x6000, 0x7000, 0x8000, 0x9000]
  have hr := (hseven.sendPackets rfl [0xA000, 0xB000]).transmit (by decide)
  obtain ⟨horder, hall, hcount⟩ := tx_inOrder ⟨rfl, rfl, rfl, rfl, rfl, rfl, rfl⟩ hr
  exact ⟨_, hr, by decide, by decide, rfl, horder, fun heq => absurd (hall.mp heq) (by decide), hcount⟩

end MicroKernel.Net.E1000
