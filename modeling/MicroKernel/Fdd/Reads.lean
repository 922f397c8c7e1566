import MicroKernel.Fat12.Driver
import MicroKernel.Fdd.Detect

set_option autoImplicit false

/-! # Sectors of floppies

On a controller that is idle, `fdc_read_sector` succeeds exactly if the controller finds the sector, and
the channel brings it to the addresses that the buffer has in its page of 64 KiB. A controller that heeds
the motors, and whose motor is off, never ends its first read, and none of the later ones begins.
-/

namespace MicroKernel.Fdd

open MicroKernel.Lib Floppy Floppy.Controller Bytes

/-! ## One read -/

/-- The channel that `dma_prepare_floppy` sets up for a sector. -/
def channel (buffer : Nat) : Dma where
  flipFlop := false
  address := buffer % 2 ^ 16
  count := 511
  page := buffer / 2 ^ 16 % 2 ^ 8
  mode := 0x46
  masked := false

/-- A call of `fdc_read_sector`. -/
structure Call where
  drive : UInt8
  head : UInt8
  track : UInt8
  sector : UInt8
  buffer : Nat

namespace Call

/-- The drive that the controller takes. -/
def unit (call : Call) : Nat := call.drive.toNat % 4

/-- The side of the disk. -/
def side (call : Call) : Nat := call.head.toNat % 2

/-- The sector that is meant. -/
def id (call : Call) : SectorId := ⟨call.track.toNat, call.head.toNat, call.sector.toNat, 2⟩

/-- The sector that the controller finds. -/
def found (call : Call) (c : Controller) : Option (Fin 512 → UInt8) := c.find call.unit call.side call.id

/-- The memory behind the transfer of a sector, if one is found. -/
def landed (call : Call) (sector : Option (Fin 512 → UInt8)) (memory : Bytes) : Bytes :=
  match sector with
  | some sector => (channel call.buffer).transfer (sectorBytes sector) 512 memory
  | none => memory

/-- The call. -/
def run (call : Call) : Io Bool := fdcReadSector call.drive call.head call.track call.sector call.buffer

end Call

section read

variable {m₀ m : Machine} {c : Controller} {call : Call}

theorem dmaPrepareFloppy_dma (buffer : Nat) (d : Dma) :
    Dma.writeMask 2 0x02 (Dma.writeMode 2 0x46 (Dma.writeCount 1 (Dma.writeCount 0xFF
      (Dma.writePage (buffer / 2 ^ 16 % 2 ^ 8) (Dma.writeAddress (buffer % 2 ^ 16 / 2 ^ 8)
        (Dma.writeAddress (buffer % 2 ^ 16 % 2 ^ 8) (Dma.clear (Dma.writeMask 2 0x06 d))))))))
      = channel buffer := by
  have haddress : Dma.setHalf true (Dma.setHalf false d.address (buffer % 2 ^ 16 % 2 ^ 8))
      (buffer % 2 ^ 16 / 2 ^ 8) = buffer % 2 ^ 16 := by
    rw [Dma.setHalf_setHalf (Nat.mod_lt _ (by decide))]
    exact Nat.mod_add_div _ _
  have hcount : Dma.setHalf true (Dma.setHalf false d.count 0xFF) 1 = 511 :=
    Dma.setHalf_setHalf (by decide) _ _
  have hregisters : Dma.writeMask 2 0x02 (Dma.writeMode 2 0x46 (Dma.writeCount 1 (Dma.writeCount 0xFF
      (Dma.writePage (buffer / 2 ^ 16 % 2 ^ 8) (Dma.writeAddress (buffer % 2 ^ 16 / 2 ^ 8)
        (Dma.writeAddress (buffer % 2 ^ 16 % 2 ^ 8) (Dma.clear (Dma.writeMask 2 0x06 d))))))))
      = ⟨false, Dma.setHalf true (Dma.setHalf false d.address (buffer % 2 ^ 16 % 2 ^ 8))
          (buffer % 2 ^ 16 / 2 ^ 8), Dma.setHalf true (Dma.setHalf false d.count 0xFF) 1,
        buffer / 2 ^ 16 % 2 ^ 8, 0x46, false⟩ := rfl
  rw [hregisters, haddress, hcount]
  rfl

/-- `dma_prepare_floppy` leaves the channel ready for a sector. -/
theorem At.dmaPrepare {phase : Phase} {k : Nat} (h : At m₀ c phase k m) (buffer : Nat) :
    ∃ m', (dmaPrepareFloppy buffer 512 true).run () m = some ((), m') ∧
      At m₀ { c with dma := channel buffer } phase k m' := by
  obtain ⟨b, p, hb, hp, rfl⟩ := h
  refine ⟨_, rfl, b, p, hb, hp, ?_⟩
  rw [← dmaPrepareFloppy_dma buffer c.dma]
  rfl

/-- The second byte of the command names the drive and the side. -/
theorem toNat_unit (head drive : UInt8) :
    ((head <<< 2) ||| (drive &&& 0x03)).toNat = 2 ^ 2 * (head.toNat % 2 ^ 6) + drive.toNat % 4 := by
  have hshift : (head <<< 2).toNat = 2 ^ 2 * (head.toNat % 2 ^ 6) := by
    rw [UInt8.toNat_shiftLeft]
    change head.toNat <<< 2 % 2 ^ 8 = _
    rw [Nat.shiftLeft_eq]
    omega
  have hand : (drive &&& 0x03).toNat = drive.toNat % 4 := by
    rw [UInt8.toNat_and]
    exact Nat.and_two_pow_sub_one_eq_mod _ 2
  rw [UInt8.toNat_or, hshift, hand]
  exact (Nat.two_pow_add_eq_or_of_lt (Nat.mod_lt _ (by decide)) _).symm

theorem Call.unit_eq (call : Call) :
    ((call.head <<< 2) ||| (call.drive &&& 0x03)).toNat % 4 = call.unit := by
  rw [toNat_unit]
  unfold Call.unit
  omega

theorem Call.side_eq (call : Call) :
    ((call.head <<< 2) ||| (call.drive &&& 0x03)).toNat / 4 % 2 = call.side := by
  rw [toNat_unit]
  unfold Call.side
  omega

/-- The status byte says whether the command has failed. -/
theorem st0_and (failed : Bool) {drive side : Nat} (hdrive : drive < 4) (hside : side < 2) :
    decide (st0 failed drive side &&& 0xC0 = 0) = !failed := by
  have hall : ∀ failed : Bool, ∀ drive < 4, ∀ side < 2,
      decide (st0 failed drive side &&& 0xC0 = 0) = !failed := by decide
  exact hall failed drive hdrive side hside

/-- The command brings the controller to the read. -/
theorem At.sendRead (h : At m₀ c .idle 99 m) (call : Call) (hworks : ∀ n, c.works n < 3000) :
    ∃ m', (fdcSendCommands (readCommand call.drive call.head call.track call.sector)).run () m
        = some (true, m') ∧
      At m₀ { c with works := fun n => c.works (n + 1) }
        (.executing (.read call.unit call.side call.id)) 2999 m' := by
  have hlen : commandLength 0xE6 = (readCommand call.drive call.head call.track call.sector).length :=
    commandLength_read
  obtain ⟨m', p, last, hrun, hp, rfl⟩ := h.sendCommand 0xE6 _ hlen
  refine ⟨_, hrun, c.works 0, p, Nat.le_of_lt_succ (hworks 0), hp, ?_⟩
  rw [← call.unit_eq, ← call.side_eq]
  rfl

theorem channel_takes (buffer : Nat) : (channel buffer).Takes 512 :=
  ⟨rfl, by change 0x46 / 4 % 4 = 1; decide, rfl⟩

theorem Call.unit_lt (call : Call) : call.unit < 4 := Nat.mod_lt _ (by decide)

theorem Call.side_lt (call : Call) : call.side < 2 := Nat.mod_lt _ (by decide)

/-- The controller behind a read that it can execute, but for its phase and the channel. -/
def Call.served (call : Call) (c : Controller) : Controller :=
  { c with
    works := fun n => c.works (n + 1)
    cylinders := c.seek call.unit call.track.toNat
    memory := call.landed (call.found c) c.memory }

/-- What a read comes to, once the channel is ready. -/
theorem finish_read (hspin : c.spins call.unit = true) : ∃ dma, ∀ b p,
    (timed { c with works := fun n => c.works (n + 1), dma := channel call.buffer }
        (.executing (.read call.unit call.side call.id)) b p).finish
          (.read call.unit call.side call.id)
      = (timed { call.served c with dma }
        (.result (readResult (call.found c).isNone call.unit call.side call.id)) (p 0)
          (fun n => p (n + 1)), true) := by
  unfold Call.served
  cases hfound : call.found c with
  | some sector =>
      refine ⟨(channel call.buffer).ended 512, fun b p => ?_⟩
      exact finish_read_some hspin hfound (channel_takes call.buffer)
  | none =>
      refine ⟨channel call.buffer, fun b p => ?_⟩
      exact finish_read_none hspin hfound

/-- The seven bytes of the result are taken, and the first one decides. -/
theorem At.takeResult {failed : Bool} {drive side : Nat} {id : SectorId} (hdrive : drive < 4)
    (hside : side < 2) (h : At m₀ c (.result (readResult failed drive side id)) 99 m) :
    ∃ m', (do
        let st0 ← fdcReadData
        let _ ← fdcReadData
        let _ ← fdcReadData
        let _ ← fdcReadData
        let _ ← fdcReadData
        let _ ← fdcReadData
        let _ ← fdcReadData
        return decide (st0 &&& 0xC0 = 0) : Io Bool).run () m = some (!failed, m') ∧
      At m₀ c .idle 0 m' := by
  obtain ⟨m₁, hrun₁, h₁⟩ := h.readData
  obtain ⟨m₂, hrun₂, h₂⟩ := At.readData h₁
  obtain ⟨m₃, hrun₃, h₃⟩ := At.readData h₂
  obtain ⟨m₄, hrun₄, h₄⟩ := At.readData h₃
  obtain ⟨m₅, hrun₅, h₅⟩ := At.readData h₄
  obtain ⟨m₆, hrun₆, h₆⟩ := At.readData h₅
  obtain ⟨m₇, hrun₇, h₇⟩ := At.readData h₆
  refine ⟨m₇, ?_, h₇⟩
  rw [Prog.run_bind_of_some () _ hrun₁, Prog.run_bind_of_some () _ hrun₂,
    Prog.run_bind_of_some () _ hrun₃, Prog.run_bind_of_some () _ hrun₄,
    Prog.run_bind_of_some () _ hrun₅, Prog.run_bind_of_some () _ hrun₆,
    Prog.run_bind_of_some () _ hrun₇, st0_and failed hdrive hside]
  rfl

/-- **`fdc_read_sector`** on a controller whose disk turns: it succeeds exactly if the sector is
found. -/
theorem At.readSector (h : At m₀ c .idle 99 m) (hlisten : m₀.listening = true)
    (hworks : ∀ n, c.works n < 3000) (hspin : c.spins call.unit = true) :
    ∃ m' dma, call.run.run () m = some ((call.found c).isSome, m') ∧
      At (m₀.withIrq true) { call.served c with dma } .idle 0 m' := by
  obtain ⟨dma, hfinish⟩ := finish_read hspin
  obtain ⟨m₁, hrun₁, h₁⟩ := At.waitWrite [] h
  obtain ⟨m₂, hrun₂, h₂⟩ := h₁.dmaPrepare call.buffer
  obtain ⟨m₃, hrun₃, h₃⟩ := h₂.setIrq false
  obtain ⟨m₄, hrun₄, h₄⟩ := At.sendRead (h₃.mono (by omega)) call hworks
  obtain ⟨m₅, b, p, hrun₅, hp, hm₅⟩ := h₄.waitForIrq hlisten rfl (fun b p => by rw [hfinish])
  have h₅ : At (m₀.withIrq true) { call.served c with dma }
      (.result (readResult (call.found c).isNone call.unit call.side call.id)) 99 m₅ := by
    refine ⟨p 0, fun n => p (n + 1), Nat.le_of_lt_succ (hp 0), fun n => hp (n + 1), ?_⟩
    rw [hm₅, hfinish]
    rfl
  obtain ⟨m₆, hrun₆, h₆⟩ := h₅.takeResult call.unit_lt call.side_lt
  refine ⟨m₆, dma, ?_, h₆⟩
  unfold Call.run fdcReadSector
  rw [Prog.run_bind_of_some () _ hrun₁]
  simp only [Bool.not_true, Bool.false_eq_true, if_false]
  rw [Prog.run_bind_of_some () _ hrun₂, Prog.run_bind_of_some () _ hrun₃,
    Prog.run_bind_of_some () _ hrun₄]
  simp only [Bool.not_true, Bool.false_eq_true, if_false]
  rw [Prog.run_bind_of_some () _ hrun₅]
  simp only [Bool.not_true, Bool.false_eq_true, if_false]
  rw [hrun₆, Option.not_isNone]

/-! ## Reads that have no end -/

/-- The controller executes a command that has no end. -/
def Stuck (c : Controller) (m : Machine) : Prop :=
  ∃ m₀ c' job k, At m₀ c' (.executing job) k m ∧ c'.memory = c.memory ∧
    ∀ b p, (timed c' (.executing job) b p).finish job = (timed c' (.executing job) b p, false)

/-- A read whose disk does not turn has no end, and the driver gives up. -/
theorem Ready.read_endless (h : Ready m) (hspin : m.controller.spins call.unit = false) :
    ∃ m', call.run.run () m = some (false, m') ∧ Stuck m.controller m' := by
  obtain ⟨m₁, hrun₁, h₁⟩ := At.waitWrite [] h.at
  obtain ⟨m₂, hrun₂, h₂⟩ := h₁.dmaPrepare call.buffer
  obtain ⟨m₃, hrun₃, h₃⟩ := h₂.setIrq false
  obtain ⟨m₄, hrun₄, h₄⟩ := At.sendRead (h₃.mono (by omega)) call h.prompt.works
  have hends : ∀ b p, (timed { m.controller with
      works := fun n => m.controller.works (n + 1), dma := channel call.buffer }
        (.executing (.read call.unit call.side call.id)) b p).finish
          (.read call.unit call.side call.id)
      = (timed { m.controller with
          works := fun n => m.controller.works (n + 1), dma := channel call.buffer }
        (.executing (.read call.unit call.side call.id)) b p, false) := by
    intro b p
    exact finish_read_still hspin
  obtain ⟨m₅, hrun₅, h₅⟩ := h₄.waitForIrq_endless rfl hends 3000
  refine ⟨m₅, ?_, _, _, _, _, h₅, rfl, hends⟩
  unfold Call.run fdcReadSector
  rw [Prog.run_bind_of_some () _ hrun₁]
  simp only [Bool.not_true, Bool.false_eq_true, if_false]
  rw [Prog.run_bind_of_some () _ hrun₂, Prog.run_bind_of_some () _ hrun₃,
    Prog.run_bind_of_some () _ hrun₄]
  simp only [Bool.not_true, Bool.false_eq_true, if_false]
  unfold fdcWaitForIrq
  rw [Prog.run_bind_of_some () _ hrun₅]
  rfl

/-- No read begins any more. -/
theorem Stuck.read (h : Stuck c m) (call : Call) :
    ∃ m', call.run.run () m = some (false, m') ∧ Stuck c m' := by
  obtain ⟨m₀, c', job, k, hat, hmemory, hends⟩ := h
  obtain ⟨m', hrun, h'⟩ := hat.waitWrite_endless hends 100
  refine ⟨m', ?_, m₀, c', job, k, h', hmemory, hends⟩
  unfold Call.run fdcReadSector
  rw [Prog.run_bind_of_some () _ hrun]
  rfl

theorem Stuck.memory (h : Stuck c m) : m.controller.memory = c.memory := by
  obtain ⟨m₀, c', job, k, hat, hmemory, hends⟩ := h
  exact hat.keeps.memory.trans hmemory

/-! ## Reads in a row -/

/-- The sector that a call reads, on a controller whose heads have been moved to cylinder 0. -/
def Call.sought (call : Call) (c : Controller) : Option (Fin 512 → UInt8) :=
  if c.chip.heedsMotor = false ∧ c.attached call.unit = true ∧ call.id.Valid ∧
      (c.chip.impliedSeek = true ∨ call.track = 0) then
    (c.disks call.unit).map fun disk => disk call.track.toNat call.head.toNat call.sector.toNat
  else none

/-- Calls in a row. -/
def inRow : List Call → Io (List Bool)
  | [] => return []
  | call :: calls => do
      let ok ← call.run
      let oks ← inRow calls
      return ok :: oks

/-- The memory behind calls in a row. -/
def landedAll (c : Controller) (calls : List Call) (memory : Bytes) : Bytes :=
  calls.foldl (fun memory call => call.landed (call.sought c) memory) memory

theorem landedAll_cons (c : Controller) (call : Call) (calls : List Call) (memory : Bytes) :
    landedAll c (call :: calls) memory = landedAll c calls (call.landed (call.sought c) memory) := rfl

/-- The machine is ready for reads from the drives of `c`, both of which have been calibrated. -/
structure Serves (c : Controller) (m : Machine) : Prop where
  ready : Ready m
  chip : m.controller.chip = c.chip
  attached : m.controller.attached = c.attached
  disks : m.controller.disks = c.disks
  cylinders : c.chip.impliedSeek = true ∨ ∀ d, d < 2 → m.controller.cylinders d = 0

/-- The heads come to the cylinder of a call, or are there already. -/
theorem Serves.seek_iff (h : Serves c m) (hunit : call.unit < 2) (hvalid : call.id.Valid)
    (hattached : c.attached call.unit = true) :
    m.controller.seek call.unit call.id.cylinder call.unit = call.id.cylinder ↔
      c.chip.impliedSeek = true ∨ call.track = 0 := by
  have htrack : call.track = 0 ↔ 0 = call.id.cylinder := by
    rw [← UInt8.toNat_inj]
    exact eq_comm
  unfold seek
  rw [h.chip, h.attached]
  by_cases himplied : c.chip.impliedSeek = true
  · rw [if_pos ⟨himplied, hattached, hvalid.cylinder⟩, Function.update_self]
    simp [himplied]
  · rw [if_neg (fun hs => himplied hs.1), (h.cylinders.resolve_left himplied) _ hunit, htrack]
    simp [himplied]

/-- The controller finds what is sought. -/
theorem Serves.found (h : Serves c m) (hmotor : c.chip.heedsMotor = false) (hunit : call.unit < 2) :
    call.found m.controller = call.sought c := by
  unfold Call.found find Call.sought
  rw [h.attached, h.disks]
  by_cases hv : call.id.Valid ∧ c.attached call.unit = true
  · -- the call names the side that the sector is on
    have hside : call.id.head = call.side := (Nat.mod_eq_of_lt hv.1.head).symm
    have hiff : (c.attached call.unit = true ∧ call.id.Valid ∧ call.id.head = call.side ∧
        m.controller.seek call.unit call.id.cylinder call.unit = call.id.cylinder) ↔
        (c.chip.heedsMotor = false ∧ c.attached call.unit = true ∧ call.id.Valid ∧
          (c.chip.impliedSeek = true ∨ call.track = 0)) := by
      rw [h.seek_iff hunit hv.1 hv.2]
      constructor
      · rintro ⟨hattached, hid, _, hs⟩
        exact ⟨hmotor, hattached, hid, hs⟩
      · rintro ⟨_, hattached, hid, hs⟩
        exact ⟨hattached, hid, hside, hs⟩
    rw [if_congr hiff rfl rfl]
    rfl
  · rw [if_neg (fun hf => hv ⟨hf.2.1, hf.1⟩), if_neg (fun hf => hv ⟨hf.2.2.1, hf.2.1⟩)]

/-- Where the heads stay where they are, they stay on cylinder 0. -/
theorem Serves.seek_cylinders (h : Serves c m) (drive cylinder : Nat) :
    c.chip.impliedSeek = true ∨ ∀ d, d < 2 → m.controller.seek drive cylinder d = 0 := by
  by_cases himplied : c.chip.impliedSeek = true
  · exact Or.inl himplied
  · refine Or.inr fun d hd => ?_
    unfold seek
    rw [h.chip, if_neg fun hs => himplied hs.1]
    exact h.cylinders.resolve_left himplied d hd

/-- One read of a controller that does not heed the motors. -/
theorem Serves.read (h : Serves c m) (hmotor : c.chip.heedsMotor = false) (hunit : call.unit < 2) :
    ∃ m', call.run.run () m = some ((call.sought c).isSome, m') ∧ Serves c m' ∧
      m'.controller.memory = call.landed (call.sought c) m.controller.memory := by
  have hspin : m.controller.spins call.unit = true := by
    unfold spins
    rw [h.chip, hmotor]
    rfl
  have hfound := h.found hmotor hunit
  obtain ⟨m', dma, hrun, h'⟩ := h.ready.at.readSector h.ready.listening h.ready.prompt.works hspin
  have hready : Ready m' := (h'.mono (by omega)).ready h.ready.listening
    (fun n => h.ready.prompt.works (n + 1)) h.ready.pending h.ready.motors
  rw [hfound] at hrun
  refine ⟨m', hrun, ⟨hready, h'.keeps.chip.trans h.chip, h'.keeps.attached.trans h.attached,
    h'.keeps.disks.trans h.disks, ?_⟩, ?_⟩
  · rw [h'.cylinders]
    exact h.seek_cylinders call.unit call.track.toNat
  · rw [h'.keeps.memory, ← hfound]
    rfl

theorem Call.sought_of_motor (call : Call) (hmotor : c.chip.heedsMotor = true) :
    call.sought c = none := by
  unfold Call.sought
  refine if_neg ?_
  rintro ⟨h, _⟩
  rw [hmotor] at h
  cases h

theorem landedAll_of_motor (hmotor : c.chip.heedsMotor = true) (calls : List Call) (memory : Bytes) :
    landedAll c calls memory = memory := by
  induction calls generalizing memory with
  | nil => rfl
  | cons call calls ih =>
      rw [landedAll_cons, call.sought_of_motor hmotor]
      exact ih memory

/-- Behind a read that has no end, none of the calls reads a sector. -/
theorem Stuck.inRow {c₀ : Controller} (h : Stuck c₀ m) (hmotor : c.chip.heedsMotor = true)
    (calls : List Call) : ∃ m', (inRow calls).run () m
      = some (calls.map fun call => (call.sought c).isSome, m') ∧ Stuck c₀ m' := by
  induction calls generalizing m with
  | nil => exact ⟨m, rfl, h⟩
  | cons call calls ih =>
      obtain ⟨m₁, hrun₁, h₁⟩ := h.read call
      obtain ⟨m', hrun, h'⟩ := ih h₁
      refine ⟨m', ?_, h'⟩
      rw [Fdd.inRow, Prog.run_bind_of_some () _ hrun₁, Prog.run_bind_of_some () _ hrun,
        List.map_cons, call.sought_of_motor hmotor]
      rfl

/-- The disks turn. -/
theorem Serves.inRow_turning (h : Serves c m) (hmotor : c.chip.heedsMotor = false) {calls : List Call}
    (hcalls : ∀ call ∈ calls, call.unit < 2) :
    ∃ m', (inRow calls).run () m = some (calls.map fun call => (call.sought c).isSome, m') ∧
      m'.controller.memory = landedAll c calls m.controller.memory := by
  induction calls generalizing m with
  | nil => exact ⟨m, rfl, rfl⟩
  | cons call calls ih =>
      obtain ⟨m₁, hrun₁, h₁, hmemory₁⟩ := h.read hmotor (hcalls call List.mem_cons_self)
      obtain ⟨m', hrun, hmemory⟩ := ih h₁ fun call hc => hcalls call (List.mem_cons_of_mem _ hc)
      refine ⟨m', ?_, ?_⟩
      · rw [inRow, Prog.run_bind_of_some () _ hrun₁, Prog.run_bind_of_some () _ hrun]
        rfl
      · rw [hmemory, hmemory₁]
        rfl

/-- The disks stand still: the first read has no end, and none of the others begins. -/
theorem Serves.inRow_still (h : Serves c m) (hmotor : c.chip.heedsMotor = true) (calls : List Call) :
    ∃ m', (inRow calls).run () m = some (calls.map fun call => (call.sought c).isSome, m') ∧
      m'.controller.memory = m.controller.memory := by
  cases calls with
  | nil => exact ⟨m, rfl, rfl⟩
  | cons call calls =>
      have hspin : m.controller.spins call.unit = false := by
        unfold spins
        rw [h.chip, hmotor, h.ready.motors _ call.unit_lt]
        rfl
      obtain ⟨m₁, hrun₁, hm₁⟩ := h.ready.read_endless hspin
      obtain ⟨m', hrun, hm'⟩ := hm₁.inRow hmotor calls
      refine ⟨m', ?_, hm'.memory⟩
      rw [inRow, Prog.run_bind_of_some () _ hrun₁, Prog.run_bind_of_some () _ hrun,
        List.map_cons, call.sought_of_motor hmotor]
      rfl

/-- **Reads in a row** return exactly the sectors that are sought, and leave exactly the memory into
which the channel has brought them one after the other. -/
theorem Serves.inRow (h : Serves c m) {calls : List Call} (hcalls : ∀ call ∈ calls, call.unit < 2) :
    ∃ m', (inRow calls).run () m = some (calls.map fun call => (call.sought c).isSome, m') ∧
      m'.controller.memory = landedAll c calls m.controller.memory := by
  cases hmotor : c.chip.heedsMotor with
  | false => exact h.inRow_turning hmotor hcalls
  | true =>
      rw [landedAll_of_motor hmotor]
      exact h.inRow_still hmotor calls

/-- **After the detection**, whatever the controller was doing before it: any row of reads from the two
drives returns exactly the sectors that can be read, and leaves exactly their bytes in the memory, where
the channel brings them. Nothing can be read if the controller heeds the motors, and nothing but
cylinder 0 if it does not move the heads by itself. -/
theorem reads_after_detection {allocated : Nat → Option Drives.Drive} {t : Drives.DriveTable}
    (hp : Prompt m.controller) (hinit : m.fdcControllerInitialized = false)
    (hroom : t.drives.length + (entries allocated [0, 1]).length ≤ Drives.maxDrives) {calls : List Call}
    (hcalls : ∀ call ∈ calls, call.unit < 2) : ∃ m', (do
      let _ ← fddDetectDrives allocated t
      inRow calls : Io (List Bool)).run () m
        = some (calls.map fun call => (call.sought m.controller).isSome, m') ∧
      m'.controller.memory = landedAll m.controller calls m.controller.memory := by
  have hfinds := fddDetectDrives_finds allocated t hp hinit
  rw [if_pos hroom] at hfinds
  obtain ⟨t', m₁, hrun₁, hd⟩ := hfinds
  have hserves : Serves m.controller m₁ := by
    refine ⟨hd.ready, hd.keeps.chip, hd.keeps.attached, hd.keeps.disks, Or.inr ?_⟩
    intro d hlt
    exact hd.cylinders d (Or.inr (by simp; omega))
  obtain ⟨m', hrun, hmemory⟩ := hserves.inRow hcalls
  refine ⟨m', ?_, ?_⟩
  · rw [Prog.run_bind_of_some () _ hrun₁]
    exact hrun
  · rw [hmemory, hd.keeps.memory]

/-- One drive, with a disk full of zeros in it. -/
def oneDrive (chip : Chip) : Machine :=
  started chip (fun drive => drive == 0) fun drive => if drive = 0 then some fun _ _ _ _ => 0 else none

/-- The boot sector is read, and a sector of cylinder 5. -/
def bootAndData : List Call := [⟨0, 0, 0, 1, 0x9000⟩, ⟨0, 1, 5, 3, 0x9200⟩]

theorem reads_after_detection_bootAndData : ∃ m', (do
    let _ ← fddDetectDrives blankEntry .empty
    inRow bootAndData : Io (List Bool)).run () (oneDrive ⟨false, false⟩)
      = some (bootAndData.map fun call => (call.sought (oneDrive ⟨false, false⟩).controller).isSome,
          m') ∧
    m'.controller.memory
      = landedAll (oneDrive ⟨false, false⟩).controller bootAndData
          (oneDrive ⟨false, false⟩).controller.memory :=
  reads_after_detection (started_prompt _ _ _) rfl (by decide) (by decide)

/-! ## Buffers -/

/-- The buffer lies below 16 MiB, in one page of 64 KiB. -/
def Fits (buffer : Nat) : Prop := buffer % 2 ^ 16 + 512 ≤ 2 ^ 16 ∧ buffer < 2 ^ 24

instance (buffer : Nat) : Decidable (Fits buffer) :=
  inferInstanceAs (Decidable (buffer % 2 ^ 16 + 512 ≤ 2 ^ 16 ∧ buffer < 2 ^ 24))

/-- If sectors land in their buffer and nowhere else, no byte goes to a place before it. -/
theorem Call.le_place {call : Call} {i : Nat} (hi : i < 512) (h : ∀ sector memory,
    call.landed (some sector) memory = copy memory call.buffer (sectorBytes sector) 0 512) :
    call.buffer ≤ (channel call.buffer).place i := by
  -- a sector of ones over a memory of zeros shows where the bytes go
  have hone : (channel call.buffer).transfer (sectorBytes fun _ => 1) 512 (fun _ => 0)
      ((channel call.buffer).place i) = 1 := by
    rw [Dma.transfer_place _ _ _ hi (by omega)]
    unfold sectorBytes
    exact dif_pos hi
  have hcopy : copy (fun _ => 0) call.buffer (sectorBytes fun _ => 1) 0 512
      ((channel call.buffer).place i) = 1 :=
    (congrFun (h (fun _ => 1) (fun _ => 0)) _).symm.trans hone
  by_contra hlt
  unfold copy at hcopy
  rw [if_neg (by omega)] at hcopy
  cases hcopy

/-- A sector lands in its buffer, and nothing else changes, exactly if the buffer fits. -/
theorem Call.landed_iff (call : Call) : Fits call.buffer ↔ ∀ sector memory,
    call.landed (some sector) memory = copy memory call.buffer (sectorBytes sector) 0 512 := by
  constructor
  · rintro ⟨hpage, hlow⟩ sector memory
    have hplace : (channel call.buffer).page * 2 ^ 16 + (channel call.buffer).address = call.buffer := by
      unfold channel
      simp only
      omega
    have htransfer := (channel call.buffer).transfer_of_fits (sectorBytes sector) memory (n := 512) hpage
    rw [hplace] at htransfer
    exact htransfer
  · intro h
    have hfirst := Call.le_place (i := 0) (by omega) h
    have hlast := Call.le_place (i := 511) (by omega) h
    unfold Dma.place channel at hfirst hlast
    simp only at hfirst hlast
    unfold Fits
    omega

end read

/-! ## The floppies of the file system -/

section fat12

variable {m : Machine} {c : Controller} {s : Fat12.State} {e : Fat32.Env}

/-- The drives of the controller hold the floppies of the file system. -/
def Holds (c : Controller) (s : Fat12.State) : Prop :=
  ∀ drive, c.attached drive = true → ∃ disk, c.disks drive = some disk ∧
    ∀ track head sector, s.floppies drive head track sector = disk track head sector

/-- A call that `fdc_read_with_fallback` makes for a sector of a floppy. -/
structure Call.Proper (call : Call) (c : Controller) : Prop where
  drive : call.drive.toNat < 2
  attached : c.attached call.drive.toNat = true
  valid : call.id.Valid
  fits : Fits call.buffer

/-- The reads of the file system in a row, into the one memory. -/
def onFloppies (l : Fat32.Label) : List Call → Bytes → Fat12.Io (List Bool × Bytes)
  | [], memory => return ([], memory)
  | call :: calls, memory => do
      let (ok, memory) ← Fat12.fdcReadWithFallback l call.drive.toNat call.head.toNat call.track.toNat
        call.sector.toNat memory call.buffer
      let (oks, memory) ← onFloppies l calls memory
      return (ok :: oks, memory)

theorem Call.Proper.unit {call : Call} (h : call.Proper c) : call.unit = call.drive.toNat :=
  Nat.mod_eq_of_lt (by have := h.drive; omega)

/-- A proper call finds the sector of the floppy. -/
theorem Call.Proper.sought {call : Call} (h : call.Proper c) (hmotor : c.chip.heedsMotor = false)
    (hseek : c.chip.impliedSeek = true) (hs : Holds c s) : call.sought c
      = some (s.floppies call.drive.toNat call.head.toNat call.track.toNat call.sector.toNat) := by
  obtain ⟨disk, hdisk, hsame⟩ := hs _ h.attached
  unfold Call.sought
  rw [h.unit, if_pos ⟨hmotor, h.attached, h.valid, Or.inl hseek⟩, hdisk, hsame]
  rfl

/-- `fdc_read_with_fallback` on the floppies of the file system does what the controller does. -/
theorem Call.Proper.fdcRead {call : Call} (h : call.Proper c) (hmotor : c.chip.heedsMotor = false)
    (hseek : c.chip.impliedSeek = true) (hs : Holds c s) (he : e.Reliable) (l : Fat32.Label)
    (memory : Bytes) : (Fat12.fdcReadWithFallback l call.drive.toNat call.head.toNat call.track.toNat
        call.sector.toNat memory call.buffer).run e s
      = some (((call.sought c).isSome, call.landed (call.sought c) memory), s) := by
  have hfails : e.fails l = false := he _
  rw [h.sought hmotor hseek hs, call.landed_iff.mp h.fits]
  unfold Fat12.fdcReadWithFallback
  rw [Prog.run_bind, Prog.run_ask, Option.bind_some, Prog.run_ite, hfails,
    if_neg Bool.false_ne_true, Prog.run_bind, Prog.run_get, Option.bind_some,
    Nat.mod_eq_of_lt call.drive.toNat_lt, Nat.mod_eq_of_lt call.head.toNat_lt,
    Nat.mod_eq_of_lt call.track.toNat_lt, Nat.mod_eq_of_lt call.sector.toNat_lt]
  rfl

/-- Proper calls in a row, on the floppies of the file system. -/
theorem run_onFloppies (hmotor : c.chip.heedsMotor = false) (hseek : c.chip.impliedSeek = true)
    (hs : Holds c s) (he : e.Reliable) (l : Fat32.Label) {calls : List Call}
    (hcalls : ∀ call ∈ calls, call.Proper c) (memory : Bytes) : (onFloppies l calls memory).run e s
      = some ((calls.map fun call => (call.sought c).isSome, landedAll c calls memory), s) := by
  induction calls generalizing memory with
  | nil => rfl
  | cons call calls ih =>
      have hread := (hcalls call List.mem_cons_self).fdcRead hmotor hseek hs he l memory
      have hrest := ih (fun call hc => hcalls call (List.mem_cons_of_mem _ hc))
        (call.landed (call.sought c) memory)
      rw [onFloppies, Prog.run_bind_of_some e s hread]
      simp only
      rw [Prog.run_bind_of_some e s hrest, List.map_cons, landedAll_cons]
      rfl

/-- **The floppies of the file system are in the drives.** On a controller that moves the heads by itself
and does not heed the motors, the detection and any row of proper reads behind it return what
`fdc_read_with_fallback` returns on the floppies of the file system, and leave the same memory. -/
theorem reads_refine {allocated : Nat → Option Drives.Drive} {t : Drives.DriveTable}
    (hp : Prompt m.controller) (hinit : m.fdcControllerInitialized = false)
    (hroom : t.drives.length + (entries allocated [0, 1]).length ≤ Drives.maxDrives)
    (hmotor : m.controller.chip.heedsMotor = false) (hseek : m.controller.chip.impliedSeek = true)
    (hs : Holds m.controller s) (he : e.Reliable) (l : Fat32.Label) {calls : List Call}
    (hcalls : ∀ call ∈ calls, call.Proper m.controller) : ∃ oks m', (do
      let _ ← fddDetectDrives allocated t
      inRow calls : Io (List Bool)).run () m = some (oks, m') ∧
      (onFloppies l calls m.controller.memory).run e s = some ((oks, m'.controller.memory), s) := by
  have hunits : ∀ call ∈ calls, call.unit < 2 := by
    intro call hc
    rw [(hcalls call hc).unit]
    exact (hcalls call hc).drive
  obtain ⟨m', hrun, hmemory⟩ := reads_after_detection hp hinit hroom hunits
  refine ⟨_, m', hrun, ?_⟩
  rw [hmemory]
  exact run_onFloppies hmotor hseek hs he l hcalls m.controller.memory

end fat12

/-- A floppy full of zeros, and nothing mounted. -/
def zeroFloppies : Fat12.State := ⟨fun _ _ _ _ _ => 0, none, 0, fun _ => none, none, none⟩

/-- No read fails. -/
def steadyEnv : Fat32.Env :=
  ⟨[], fun _ => false, fun _ => false, fun _ => false, fun _ _ => 0, fun _ => ⟨0, 0, 0, 0, 0, 0⟩⟩

theorem reads_refine_bootAndData : ∃ oks m', (do
    let _ ← fddDetectDrives blankEntry .empty
    inRow bootAndData : Io (List Bool)).run () (oneDrive ⟨true, false⟩) = some (oks, m') ∧
    (onFloppies .fat bootAndData (oneDrive ⟨true, false⟩).controller.memory).run steadyEnv zeroFloppies
      = some ((oks, m'.controller.memory), zeroFloppies) := by
  have hholds : Holds (oneDrive ⟨true, false⟩).controller zeroFloppies := by
    intro drive hattached
    have hdrive : drive = 0 := beq_iff_eq.mp hattached
    refine ⟨fun _ _ _ _ => 0, ?_, fun _ _ _ => rfl⟩
    rw [hdrive]
    rfl
  have hcalls : ∀ call ∈ bootAndData, call.Proper (oneDrive ⟨true, false⟩).controller := by
    intro call hc
    unfold bootAndData at hc
    rcases List.mem_cons.mp hc with rfl | hc
    · exact ⟨by decide, rfl, by decide, by decide⟩
    · rcases List.mem_singleton.mp hc with rfl
      exact ⟨by decide, rfl, by decide, by decide⟩
  exact reads_refine (started_prompt _ _ _) rfl (by decide) rfl rfl hholds (fun _ => rfl) .fat hcalls

end MicroKernel.Fdd
