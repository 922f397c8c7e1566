import Mathlib.Data.List.GetD
import MicroKernel.Ata.ReadSector
import MicroKernel.Fat32.Disk
import MicroKernel.Lib.IdeChannel

set_option autoImplicit false

/-! # The ATA driver on its channels (`drivers/block/ata.c`)

The file systems take `ata_read_sector` and `ata_write_sector` for calls that read and write a sector of
a disk. Here the two are programs on the registers of the two channels: they wait, select a drive, put
the number of the sector in the registers, send a command, wait for the request and transfer 256 words.
As long as no channel is busy for longer than the driver waits, any sequence of calls has the results
that it has on disks (`ports_refine`).

`ata_detect_drives` leaves the slave of each channel selected, and there may be no such drive. Then
only the first read from the channel helps: it finds the status zero and resets the channel.
-/

namespace MicroKernel.Ata.Ports

open MicroKernel.Lib Ide Bytes

/-! ## Programs on the channels -/

/-- The channels at `ATA_PRIMARY_IO` and at `ATA_SECONDARY_IO`. -/
inductive Bus where
  | primary
  | secondary
  deriving DecidableEq

/-- The port of the data register. -/
def Bus.base : Bus → Nat
  | primary => 0x1F0
  | secondary => 0x170

/-- The channels, and the static variables of the driver. -/
structure Machine where
  channels : Bus → Channel
  firstReadAttempted : Bus → Bool
  consecutiveReadFailures : Nat

/-- The machine with another state of a channel. -/
def Machine.set (m : Machine) (bus : Bus) (c : Channel) : Machine :=
  { m with channels := Function.update m.channels bus c }

/-- The programs of the driver. -/
abbrev Io := Prog Unit Machine

/-- A write to a register of a channel. -/
def onChannel (bus : Bus) (f : Channel → Channel) : Io Unit :=
  Prog.modify fun m => m.set bus (f (m.channels bus))

/-- `inb(ATA_STATUS(base))`. -/
def inStatus (bus : Bus) : Io UInt8 := do
  let m ← Prog.get
  onChannel bus Channel.poll
  return (m.channels bus).status

/-- The bytes of words, the low one first. -/
def wordBytes (l : List UInt16) : Bytes := fun x =>
  let w := (l.getD (x / 2) 0).toNat
  UInt8.ofNat (if x % 2 = 0 then w % 2 ^ 8 else w / 2 ^ 8)

/-- The words of 512 bytes. -/
def bufferWords (buffer : Bytes) : List UInt16 :=
  (List.range 256).map fun i =>
    UInt16.ofNat ((buffer (2 * i)).toNat + 2 ^ 8 * (buffer (2 * i + 1)).toNat)

/-- `insw(ATA_DATA(base), buffer, SECTOR_SIZE / 2)`. -/
def insw (bus : Bus) (buffer : Bytes) : Io Bytes := do
  let m ← Prog.get
  let words := (Channel.readBlock 256 (m.channels bus)).1
  onChannel bus fun c => (Channel.readBlock 256 c).2
  return copy buffer 0 (wordBytes words) 0 512

/-- `outsw(ATA_DATA(base), buffer, SECTOR_SIZE / 2)`. -/
def outsw (bus : Bus) (buffer : Bytes) : Io Unit :=
  onChannel bus fun c => c.writeBlock (bufferWords buffer)

/-! ## The driver -/

/-- The loops that poll the status register: the verdict and the elapsed time. -/
def pollLoop (build : Build) (bus : Bus) (verdict : UInt8 → Option Bool) (timeout : Nat) :
    Nat → Nat → Io (Bool × Nat)
  | 0, _ => Prog.diverge
  | k + 1, elapsed => do
      let status ← inStatus bus
      match verdict status with
      | some b => return (b, elapsed)
      | none =>
          if timeout ≤ elapsed then return (false, elapsed)
          pollLoop build bus verdict timeout k (elapsed + build.pollDelay)

/-- `wait_for_drive_ready`. -/
def waitForDriveReady (build : Build) (bus : Bus) (timeout : Nat) : Io Bool := do
  let (ok, _) ← pollLoop build bus (readyVerdict build) timeout (timeout + 1) 0
  return ok

/-- `wait_for_drive_data_ready`. -/
def waitForDriveDataReady (build : Build) (bus : Bus) (timeout : Nat) : Io Bool := do
  if build = .qemu then
    let (ok, elapsed) ← pollLoop build bus busyVerdict timeout (timeout + 1) 0
    if !ok then return false
    let (ok, _) ← pollLoop build bus requestVerdict timeout (timeout + 1) elapsed
    return ok
  else
    let (ok, _) ← pollLoop build bus dataVerdict timeout (timeout + 1) 0
    return ok

/-- The loop at the end of `ata_soft_reset`. -/
def resetPolls (bus : Bus) : Nat → Io Unit
  | 0 => return ()
  | n + 1 => do
      let status ← inStatus bus
      if status ≠ 0x00 ∧ status ≠ 0xFF ∧ status &&& 0x80 = 0 then return ()
      resetPolls bus n

/-- `ata_soft_reset`. -/
def ataSoftReset (bus : Bus) (isMaster : Bool) : Io Unit := do
  onChannel bus fun c => { c with device := if isMaster then 0xA0 else 0xB0 }
  onChannel bus fun c => c.control 0x04
  onChannel bus fun c => c.control 0x00
  resetPolls bus 100

/-- The part of `ata_read_sector` that looks after the first read from a controller. -/
def attemptFirstRead (bus : Bus) (isMaster : Bool) : Io Unit := do
  let m ← Prog.get
  if m.firstReadAttempted bus then return ()
  let status ← inStatus bus
  if status = 0x00 ∨ status = 0xFF then ataSoftReset bus isMaster
  Prog.modify fun m => { m with firstReadAttempted := Function.update m.firstReadAttempted bus true }

/-- `consecutive_read_failures++; return false;`. -/
def readFailed (buffer : Bytes) : Io (Bool × Bytes) := do
  Prog.modify fun m => { m with consecutiveReadFailures := u32 (m.consecutiveReadFailures + 1) }
  return (false, buffer)

/-- `consecutive_read_failures = 0; return true;`. -/
def readSucceeded (buffer : Bytes) : Io (Bool × Bytes) := do
  Prog.modify fun m => { m with consecutiveReadFailures := 0 }
  return (true, buffer)

/-- The registers for the number of a sector, one sector being meant. -/
def setLba (bus : Bus) (lba : Nat) : Io Unit := do
  onChannel bus fun c => { c with sectorCount := 1 }
  onChannel bus fun c => { c with lbaLow := lba &&& 0xFF }
  onChannel bus fun c => { c with lbaMid := (lba >>> 8) &&& 0xFF }
  onChannel bus fun c => { c with lbaHigh := (lba >>> 16) &&& 0xFF }

/-- The drive/head register. -/
def setDriveHead (bus : Bus) (lba : Nat) (isMaster : Bool) : Io Unit :=
  onChannel bus fun c => { c with device := driveHead lba isMaster }

/-- `ata_read_sector`: whether the sector has been read, and the buffer. -/
def ataReadSector (build : Build) (bus : Bus) (lba : Nat) (buffer : Bytes) (isMaster : Bool) :
    Io (Bool × Bytes) := do
  attemptFirstRead bus isMaster
  let m ← Prog.get
  if maxConsecutiveFailures ≤ m.consecutiveReadFailures then return (false, buffer)
  if !(← waitForDriveReady build bus build.waitTimeout) then readFailed buffer
  else
    setDriveHead bus lba isMaster
    if !(← waitForDriveReady build bus build.waitTimeout) then readFailed buffer
    else
      setLba bus lba
      onChannel bus fun c => c.command 0x20
      if !(← waitForDriveDataReady build bus build.waitTimeout) then readFailed buffer
      else
        let buffer ← insw bus buffer
        if build = .realHardware then
          if !(← waitForDriveReady build bus build.waitTimeout) then readFailed buffer
          else readSucceeded buffer
        else readSucceeded buffer

/-- `ata_write_sector`: whether the sector has been written. -/
def ataWriteSector (build : Build) (bus : Bus) (lba : Nat) (buffer : Bytes) (isMaster : Bool) :
    Io Bool := do
  if !(← waitForDriveReady build bus build.waitTimeout) then return false
  setLba bus lba
  setDriveHead bus lba isMaster
  onChannel bus fun c => c.command 0x30
  if !(← waitForDriveDataReady build bus build.waitTimeout) then return false
  outsw bus buffer
  if !(← waitForDriveReady build bus build.waitTimeout) then return false
  onChannel bus fun c => c.command 0xE7
  -- nothing depends on the end of this wait but a warning
  let _ ← waitForDriveReady build bus build.waitTimeout
  return true

/-! ## Waiting -/

namespace Machine

variable (m : Machine) (bus : Bus) (c c' : Channel)

@[simp] theorem set_channels : (m.set bus c).channels bus = c := Function.update_self ..

@[simp] theorem set_channels_ne {bus' : Bus} (h : bus' ≠ bus) :
    (m.set bus c).channels bus' = m.channels bus' := Function.update_of_ne h ..

@[simp] theorem set_set : (m.set bus c).set bus c' = m.set bus c' := by
  unfold set
  rw [Function.update_idem]

@[simp] theorem set_firstReadAttempted :
    (m.set bus c).firstReadAttempted = m.firstReadAttempted := rfl

@[simp] theorem set_consecutiveReadFailures :
    (m.set bus c).consecutiveReadFailures = m.consecutiveReadFailures := rfl

@[simp] theorem set_self : m.set bus (m.channels bus) = m := by
  unfold set
  rw [Function.update_eq_self]

end Machine

/-- The channel when it is not busy any more. -/
def calm (c : Channel) : Channel := { c with busy := 0 }

/-- The channel is busy for no longer than the driver waits, now and behind every command, and a drive
answers. -/
structure Prompt (build : Build) (c : Channel) : Prop where
  busy : c.busy * build.pollDelay ≤ build.waitTimeout
  pauses : ∀ n, c.pauses n * build.pollDelay ≤ build.waitTimeout
  present : c.present c.selected = true

section waits

variable {build : Build} {m : Machine} {bus : Bus} {c : Channel}

theorem run_onChannel (f : Channel → Channel) :
    (onChannel bus f).run () m = some ((), m.set bus (f (m.channels bus))) := rfl

theorem run_onChannel_set (f : Channel → Channel) :
    (onChannel bus f).run () (m.set bus c) = some ((), m.set bus (f c)) := by
  rw [run_onChannel, Machine.set_channels, Machine.set_set]

theorem run_inStatus :
    (inStatus bus).run () m = some ((m.channels bus).status, m.set bus (m.channels bus).poll) := rfl

theorem status_busy (hp : c.present c.selected = true) (hb : 0 < c.busy) : c.status = 0x80 := by
  unfold Channel.status
  rw [if_neg (by rw [hp]; decide), if_pos hb]

theorem status_calm (hp : c.present c.selected = true) (hb : c.busy = 0) :
    c.status = if c.phase = .idle then 0x40 else 0x48 := by
  unfold Channel.status
  rw [if_neg (by rw [hp]; decide), if_neg (by omega)]
  cases hphase : c.phase with
  | idle => rw [if_pos rfl]
  | sending left => rw [if_neg (by simp)]
  | receiving master lba got => rw [if_neg (by simp)]

/-- A loop goes on while the channel is busy, and no longer. -/
theorem run_pollLoop {verdict : UInt8 → Option Bool} {timeout k elapsed : Nat}
    (hp : c.present c.selected = true) (hbusy : verdict 0x80 = none)
    (hcalm : verdict (calm c).status = some true)
    (htime : elapsed + c.busy * build.pollDelay ≤ timeout) (hk : c.busy < k) (hc : m.channels bus = c) :
    (pollLoop build bus verdict timeout k elapsed).run () m
      = some ((true, elapsed + c.busy * build.pollDelay), m.set bus (calm c)) := by
  induction k generalizing m c elapsed with
  | zero => omega
  | succ k ih =>
      rw [pollLoop, Prog.run_bind_of_some () m run_inStatus, hc]
      cases hn : c.busy with
      | zero =>
          have hself : calm c = c := by
            unfold calm
            rw [← hn]
          have hpoll : c.poll = c := by
            refine Eq.trans ?_ hself
            unfold Channel.poll calm
            rw [hn]
          rw [hself] at hcalm ⊢
          rw [hcalm, hpoll, Nat.zero_mul, Nat.add_zero]
          rfl
      | succ n =>
          have hdelay := build.pollDelay_pos
          have hmul : (n + 1) * build.pollDelay = n * build.pollDelay + build.pollDelay :=
            Nat.succ_mul _ _
          have hb : c.poll.busy = n := by
            unfold Channel.poll
            rw [hn]
            rfl
          rw [hn, hmul] at htime
          rw [status_busy hp (by omega), hbusy]
          simp only
          rw [Prog.run_ite, if_neg (by omega)]
          have hrest : (pollLoop build bus verdict timeout k (elapsed + build.pollDelay)).run ()
              (m.set bus c.poll) = some ((true, elapsed + build.pollDelay + c.poll.busy * build.pollDelay),
                (m.set bus c.poll).set bus (calm c.poll)) :=
            ih hp hcalm (by rw [hb]; omega) (by omega) (Machine.set_channels ..)
          rw [hrest, hb, Machine.set_set, hmul]
          congr 3
          omega

theorem Prompt.busy_lt (h : Prompt build c) : c.busy < build.waitTimeout + 1 := by
  have hle := Nat.le_mul_of_pos_right c.busy build.pollDelay_pos
  have htime := h.busy
  omega

/-- `wait_for_drive_ready` comes to an end on a prompt channel. -/
theorem run_waitForDriveReady (h : Prompt build c) (hc : m.channels bus = c) :
    (waitForDriveReady build bus build.waitTimeout).run () m = some (true, m.set bus (calm c)) := by
  have hbusy : readyVerdict build 0x80 = none := by cases build <;> decide
  have hcalm : readyVerdict build (calm c).status = some true := by
    rw [status_calm (c := calm c) h.present rfl]
    split
    · cases build <;> decide
    · cases build <;> decide
  have htime : 0 + c.busy * build.pollDelay ≤ build.waitTimeout := by
    rw [Nat.zero_add]
    exact h.busy
  unfold waitForDriveReady
  rw [Prog.run_bind_of_some () m (run_pollLoop h.present hbusy hcalm htime h.busy_lt hc)]
  rfl

/-- `wait_for_drive_data_ready` comes to an end where a transfer has begun. -/
theorem run_waitForDriveDataReady (h : Prompt build c) (hphase : c.phase ≠ .idle)
    (hc : m.channels bus = c) :
    (waitForDriveDataReady build bus build.waitTimeout).run () m = some (true, m.set bus (calm c)) := by
  have hstatus : (calm c).status = 0x48 := by
    rw [status_calm (c := calm c) h.present rfl]
    exact if_neg hphase
  have htime : 0 + c.busy * build.pollDelay ≤ build.waitTimeout := by
    rw [Nat.zero_add]
    exact h.busy
  unfold waitForDriveDataReady
  rw [Prog.run_ite]
  split
  · have hfirst : (pollLoop build bus busyVerdict build.waitTimeout (build.waitTimeout + 1) 0).run () m
        = some ((true, 0 + c.busy * build.pollDelay), m.set bus (calm c)) :=
      run_pollLoop h.present (by decide) (by rw [hstatus]; decide) htime h.busy_lt hc
    have hsecond : (pollLoop build bus requestVerdict build.waitTimeout (build.waitTimeout + 1)
        (0 + c.busy * build.pollDelay)).run () (m.set bus (calm c)) =
          some ((true, 0 + c.busy * build.pollDelay + (calm c).busy * build.pollDelay),
            (m.set bus (calm c)).set bus (calm (calm c))) := by
      apply run_pollLoop (c := calm c) h.present (by decide)
      · change requestVerdict (calm c).status = _
        rw [hstatus]
        decide
      · change _ + 0 * _ ≤ _
        omega
      · exact Nat.succ_pos _
      · exact Machine.set_channels ..
    rw [Prog.run_bind_of_some () m hfirst]
    simp only
    rw [Prog.run_ite, if_neg (by decide), Prog.run_bind_of_some () _ hsecond, Machine.set_set]
    rfl
  · have hloop : (pollLoop build bus dataVerdict build.waitTimeout (build.waitTimeout + 1) 0).run () m
        = some ((true, 0 + c.busy * build.pollDelay), m.set bus (calm c)) :=
      run_pollLoop h.present (by decide) (by rw [hstatus]; decide) htime h.busy_lt hc
    rw [Prog.run_bind_of_some () m hloop]
    rfl

/-- The waits of a call, on a channel that has just been written to. -/
theorem Prompt.waitReady (h : Prompt build c) (m : Machine) (bus : Bus) :
    (waitForDriveReady build bus build.waitTimeout).run () (m.set bus c)
      = some (true, m.set bus (calm c)) := by
  rw [run_waitForDriveReady h (Machine.set_channels ..), Machine.set_set]

theorem Prompt.waitDataReady (h : Prompt build c) (hphase : c.phase ≠ .idle) (m : Machine) (bus : Bus) :
    (waitForDriveDataReady build bus build.waitTimeout).run () (m.set bus c)
      = some (true, m.set bus (calm c)) := by
  rw [run_waitForDriveDataReady h hphase (Machine.set_channels ..), Machine.set_set]

end waits

/-! ## Words and registers -/

/-- The bytes of a sector. -/
def sectorOf (words : Words) : Fat32.Sector := fun i => wordBytes (List.ofFn words) i.val

theorem wordBytes_bufferWords (buffer : Bytes) {x : Nat} (hx : x < 512) :
    wordBytes (bufferWords buffer) x = buffer x := by
  have hlt : x / 2 < 256 := by omega
  have hword : (bufferWords buffer).getD (x / 2) 0 = UInt16.ofNat
      ((buffer (2 * (x / 2))).toNat + 2 ^ 8 * (buffer (2 * (x / 2) + 1)).toNat) := by
    unfold bufferWords
    rw [List.getD_eq_getElem _ _ (by rw [List.length_map, List.length_range]; exact hlt),
      List.getElem_map, List.getElem_range]
  have hlo := (buffer (2 * (x / 2))).toNat_lt
  have hhi := (buffer (2 * (x / 2) + 1)).toNat_lt
  have hsmall : (buffer (2 * (x / 2))).toNat + 2 ^ 8 * (buffer (2 * (x / 2) + 1)).toNat < 2 ^ 16 := by
    omega
  unfold wordBytes
  simp only
  rw [hword, UInt16.toNat_ofNat_of_lt' hsmall]
  split
  next heven =>
    have hx' : 2 * (x / 2) = x := by omega
    rw [Nat.add_mul_mod_self_left, Nat.mod_eq_of_lt hlo, UInt8.ofNat_toNat, hx']
  next hodd =>
    have hx' : 2 * (x / 2) + 1 = x := by omega
    rw [Nat.add_mul_div_left _ _ (by decide), Nat.div_eq_of_lt hlo, Nat.zero_add, UInt8.ofNat_toNat, hx']

theorem length_bufferWords (buffer : Bytes) : (bufferWords buffer).length = 256 := by
  unfold bufferWords
  rw [List.length_map, List.length_range]

/-- The words that a write puts on the disk are the bytes of the buffer. -/
theorem sectorOf_bufferWords (buffer : Bytes) :
    sectorOf (fun i => (bufferWords buffer).getD i.val 0) = Fat32.Sector.ofBytes buffer 0 := by
  funext i
  have hlist : (List.ofFn fun i : Fin 256 => (bufferWords buffer).getD i.val 0)
      = bufferWords buffer := by
    apply List.ext_getElem
    · rw [List.length_ofFn, length_bufferWords]
    · intro j h _
      rw [List.getElem_ofFn, List.getD_eq_getElem]
  unfold sectorOf Fat32.Sector.ofBytes
  rw [hlist, wordBytes_bufferWords buffer i.isLt, Nat.zero_add]

/-- A read puts the bytes of the sector into the buffer. -/
theorem copy_sectorOf (buffer : Bytes) (words : Words) :
    copy buffer 0 (wordBytes (List.ofFn words)) 0 512
      = copy buffer 0 (Fat32.Sector.bytes (sectorOf words)) 0 512 := by
  funext x
  unfold copy
  split
  next h =>
    have hx : 0 + (x - 0) < 512 := by omega
    unfold Fat32.Sector.bytes
    rw [dif_pos hx]
    rfl
  next => rfl

/-- The drive/head register selects the drive. -/
theorem driveHead_testBit (lba : Nat) (isMaster : Bool) :
    (driveHead lba isMaster).testBit 4 = !isMaster := by
  unfold driveHead
  rw [Nat.testBit_or, Nat.testBit_or, Nat.testBit_and, show Nat.testBit 0x0F 4 = false from by decide,
    Bool.and_false, show Nat.testBit 0xE0 4 = false from by decide]
  cases isMaster <;> rfl

/-! ## One call -/

/-- What a call finds on its channel. A channel is awake if a drive answers; else the first read from it
is still to come, and there is a master to answer behind the reset. -/
structure Found (build : Build) (m : Machine) (bus : Bus) (awake : Bool) : Prop where
  phase : (m.channels bus).phase = .idle
  busy : (m.channels bus).busy * build.pollDelay ≤ build.waitTimeout
  pauses : ∀ n, (m.channels bus).pauses n * build.pollDelay ≤ build.waitTimeout
  present : awake = true → (m.channels bus).present (m.channels bus).selected = true
  asleep : awake = false → m.firstReadAttempted bus = false ∧ (m.channels bus).present true = true

/-- A call has left its channel to the next one, with these disks, and not touched the other one. -/
structure Called (build : Build) (bus : Bus) (disks : Bool → Nat → Words) (m m' : Machine) : Prop where
  found : Found build m' bus true
  disks : (m'.channels bus).disks = disks
  drives : (m'.channels bus).present = (m.channels bus).present
  channels : ∀ bus', bus' ≠ bus → m'.channels bus' = m.channels bus'
  attempted : ∀ bus', bus' ≠ bus → m'.firstReadAttempted bus' = m.firstReadAttempted bus'
  failures : m.consecutiveReadFailures < maxConsecutiveFailures →
    m'.consecutiveReadFailures < maxConsecutiveFailures

section call

variable {build : Build} {m m₁ m₂ : Machine} {bus : Bus} {awake isMaster : Bool} {c : Channel}
  {disks : Bool → Nat → Words}

theorem Found.prompt (h : Found build m bus true) : Prompt build (m.channels bus) :=
  ⟨h.busy, h.pauses, h.present rfl⟩

/-- A call that has left its channel idle. -/
theorem Called.of_channel (hc : m₁.channels bus = c)
    (hother : ∀ bus', bus' ≠ bus → m₁.channels bus' = m.channels bus' ∧
      m₁.firstReadAttempted bus' = m.firstReadAttempted bus')
    (hfail : m.consecutiveReadFailures < maxConsecutiveFailures →
      m₁.consecutiveReadFailures < maxConsecutiveFailures)
    (hprompt : Prompt build c) (hphase : c.phase = .idle)
    (hdrives : c.present = (m.channels bus).present) (hdisks : c.disks = disks) :
    Called build bus disks m m₁ := by
  subst hc
  refine ⟨⟨hphase, hprompt.busy, hprompt.pauses, fun _ => hprompt.present, ?_⟩, hdisks, hdrives,
    fun bus' hne => (hother bus' hne).1, fun bus' hne => (hother bus' hne).2, hfail⟩
  intro ha
  cases ha

/-- The rest of a call, on the same channel. -/
theorem Called.set (h : Called build bus disks m m₁) (hprompt : Prompt build c)
    (hphase : c.phase = .idle) (hdrives : c.present = (m.channels bus).present) :
    Called build bus c.disks m (m₁.set bus c) := by
  refine Called.of_channel (Machine.set_channels ..) ?_ h.failures hprompt hphase hdrives rfl
  intro bus' hne
  rw [Machine.set_channels_ne _ _ _ hne]
  exact ⟨h.channels bus' hne, h.attempted bus' hne⟩

/-- The counter of failures does not matter to the channels. -/
theorem Called.cleared (h : Called build bus disks m m₁) :
    Called build bus disks m { m₁ with consecutiveReadFailures := 0 } := by
  refine ⟨⟨h.found.phase, h.found.busy, h.found.pauses, h.found.present, ?_⟩, h.disks, h.drives,
    h.channels, h.attempted, fun _ => Nat.zero_lt_succ 4⟩
  intro ha
  cases ha

/-- The polls behind a reset only let time pass. -/
theorem run_resetPolls (n : Nat) (m : Machine) (bus : Bus) :
    ∃ b, b ≤ (m.channels bus).busy ∧ (resetPolls bus n).run () m
      = some ((), m.set bus { m.channels bus with busy := b }) := by
  induction n generalizing m with
  | zero => exact ⟨_, Nat.le_refl _, by rw [show ({ m.channels bus with busy := (m.channels bus).busy }
      : Channel) = m.channels bus from rfl, Machine.set_self]; rfl⟩
  | succ n ih =>
      unfold resetPolls
      rw [Prog.run_bind_of_some () m run_inStatus, Prog.run_ite]
      split
      · exact ⟨(m.channels bus).busy - 1, Nat.sub_le _ _, rfl⟩
      · obtain ⟨b, hb, hrun⟩ := ih (m.set bus (m.channels bus).poll)
        rw [Machine.set_channels] at hb hrun
        refine ⟨b, hb.trans (Nat.sub_le _ _), ?_⟩
        rw [hrun, Machine.set_set]
        rfl

/-- A reset selects the master, and leaves the channel idle. -/
theorem ataSoftReset_called (h : Found build m bus awake)
    (hmaster : (m.channels bus).present true = true) (isMaster : Bool) :
    ∃ m', (ataSoftReset bus isMaster).run () (m.set bus (m.channels bus).poll) = some ((), m') ∧
      Called build bus (m.channels bus).disks m m' := by
  unfold ataSoftReset
  rw [Prog.run_bind_of_some () _ (run_onChannel _), Prog.run_bind_of_some () _ (run_onChannel _),
    Prog.run_bind_of_some () _ (run_onChannel _)]
  simp only [Machine.set_channels, Machine.set_set, Channel.control_reset, Channel.control_zero]
  obtain ⟨b, hb, hrun⟩ := run_resetPolls 100 (m.set bus (Channel.pause
    { (m.channels bus).poll with
      sectorCount := 1, lbaLow := 1, lbaMid := 0, lbaHigh := 0, device := 0, phase := .idle })) bus
  rw [Machine.set_channels] at hb hrun
  refine ⟨_, hrun, ?_⟩
  rw [Machine.set_set]
  refine Called.of_channel (Machine.set_channels ..) ?_ id
    ⟨?_, fun n => h.pauses (n + 1), ?_⟩ rfl rfl rfl
  · intro bus' hne
    exact ⟨Machine.set_channels_ne _ _ _ hne, rfl⟩
  · exact (Nat.mul_le_mul_right _ hb).trans (h.pauses 0)
  · rw [Channel.selected_zero rfl]
    exact hmaster

/-- The first read from a channel wakes it. -/
theorem attemptFirstRead_called (h : Found build m bus awake) (isMaster : Bool) :
    ∃ m', (attemptFirstRead bus isMaster).run () m = some ((), m') ∧
      Called build bus (m.channels bus).disks m m' := by
  have hbound : ∀ {n}, n ≤ (m.channels bus).busy → n * build.pollDelay ≤ build.waitTimeout :=
    fun hn => (Nat.mul_le_mul_right _ hn).trans h.busy
  unfold attemptFirstRead
  rw [Prog.run_bind, Prog.run_get, Option.bind_some, Prog.run_ite]
  split
  next hattempted =>
    refine ⟨m, rfl, Called.of_channel rfl (fun _ _ => ⟨rfl, rfl⟩) id ⟨h.busy, h.pauses, ?_⟩ h.phase
      rfl rfl⟩
    cases awake with
    | true => exact h.present rfl
    | false => exact absurd hattempted (by rw [(h.asleep rfl).1]; decide)
  next =>
    rw [Prog.run_bind_of_some () m run_inStatus]
    by_cases hp : (m.channels bus).present (m.channels bus).selected = true
    · -- a drive answers: busy or ready, but not with zero
      have hstatus : ¬((m.channels bus).status = 0x00 ∨ (m.channels bus).status = 0xFF) := by
        rcases Nat.eq_zero_or_pos (m.channels bus).busy with hz | hpos
        · rw [status_calm hp hz, if_pos h.phase]
          decide
        · rw [status_busy hp hpos]
          decide
      rw [Prog.run_ite, if_neg hstatus]
      refine ⟨_, rfl, Called.of_channel (Machine.set_channels ..) ?_ id ⟨?_, h.pauses, hp⟩ h.phase
        rfl rfl⟩
      · intro bus' hne
        exact ⟨Machine.set_channels_ne _ _ _ hne, Function.update_of_ne hne ..⟩
      · exact hbound (Nat.sub_le _ _)
    · -- nobody answers, and the reset selects the master
      have hmaster : (m.channels bus).present true = true := by
        cases awake with
        | true => exact absurd (h.present rfl) hp
        | false => exact (h.asleep rfl).2
      have hstatus : (m.channels bus).status = 0x00 := by
        unfold Channel.status
        exact if_pos (by simpa using hp)
      obtain ⟨m₁, hreset, hcalled⟩ := ataSoftReset_called h hmaster isMaster
      rw [Prog.run_ite, if_pos (Or.inl hstatus), Prog.run_bind_of_some () _ hreset]
      refine ⟨_, rfl, Called.of_channel rfl ?_ hcalled.failures hcalled.found.prompt hcalled.found.phase
        hcalled.drives hcalled.disks⟩
      intro bus' hne
      exact ⟨hcalled.channels bus' hne,
        (Function.update_of_ne hne ..).trans (hcalled.attempted bus' hne)⟩

/-! ### Reading and writing -/

theorem run_setLba (lba : Nat) : (setLba bus lba).run () (m.set bus c) = some ((), m.set bus
    { c with
      sectorCount := 1
      lbaLow := lba &&& 0xFF
      lbaMid := (lba >>> 8) &&& 0xFF
      lbaHigh := (lba >>> 16) &&& 0xFF }) := by
  unfold setLba
  rw [Prog.run_bind_of_some () _ (run_onChannel_set _), Prog.run_bind_of_some () _ (run_onChannel_set _),
    Prog.run_bind_of_some () _ (run_onChannel_set _), run_onChannel_set]

theorem selected_driveHead (lba : Nat) (hd : c.device = driveHead lba isMaster) :
    c.selected = isMaster := by
  unfold Channel.selected
  rw [hd, driveHead_testBit, Bool.not_not]

/-- The channel with the registers for a sector of a drive. -/
def addressed (c : Channel) (lba : Nat) (isMaster : Bool) : Channel :=
  { c with
    sectorCount := 1
    lbaLow := lba &&& 0xFF
    lbaMid := (lba >>> 8) &&& 0xFF
    lbaHigh := (lba >>> 16) &&& 0xFF
    device := driveHead lba isMaster }

theorem addressed_selected (lba : Nat) : (addressed c lba isMaster).selected = isMaster :=
  selected_driveHead lba rfl

theorem addressed_lba (lba : Nat) : (addressed c lba isMaster).lba = lba % 2 ^ 28 :=
  registers_lba lba isMaster

/-- The registers do not make a channel less prompt, if the drive is there. -/
theorem Prompt.addressed (h : Prompt build c) (hd : c.present isMaster = true) (lba : Nat) :
    Prompt build (addressed c lba isMaster) := by
  refine ⟨h.busy, h.pauses, ?_⟩
  rw [addressed_selected]
  exact hd

theorem Prompt.calm (h : Prompt build c) : Prompt build (calm c) :=
  ⟨by change 0 * _ ≤ _; omega, h.pauses, h.present⟩

theorem Prompt.withPhase (h : Prompt build c) (phase : Phase) : Prompt build { c with phase } :=
  ⟨h.busy, h.pauses, h.present⟩

theorem Prompt.pause (h : Prompt build c) : Prompt build c.pause :=
  ⟨h.pauses 0, fun n => h.pauses (n + 1), h.present⟩

theorem run_insw {l : List UInt16} (hphase : c.phase = .sending l) (hbusy : c.busy = 0)
    (hlen : l.length = 256) (buffer : Bytes) :
    (insw bus buffer).run () (m.set bus c)
      = some (copy buffer 0 (wordBytes l) 0 512, m.set bus { c with phase := .idle }) := by
  have hread := Channel.readBlock_sending (List.ne_nil_of_length_pos (by omega)) hphase hbusy
  rw [hlen] at hread
  unfold insw
  rw [Prog.run_bind, Prog.run_get, Option.bind_some]
  simp only
  rw [Prog.run_bind_of_some () _ (run_onChannel_set _)]
  simp only [Machine.set_channels, hread]
  rfl

/-- The channel behind READ SECTORS, when all words have been taken. -/
theorem sends_sector (h : Prompt build c) (hbusy : c.busy = 0) (hcount : c.sectorCount = 1)
    (m : Machine) (bus : Bus) (buffer : Bytes) : ∃ c₁ c₂,
    (waitForDriveDataReady build bus build.waitTimeout).run () (m.set bus (c.command 0x20))
      = some (true, m.set bus c₁) ∧
    (insw bus buffer).run () (m.set bus c₁) = some (copy buffer 0
      (Fat32.Sector.bytes (sectorOf (c.disks c.selected c.lba))) 0 512, m.set bus c₂) ∧
    Prompt build c₂ ∧ c₂.phase = .idle ∧ calm c₂ = c₂ ∧ c₂.present = c.present ∧ c₂.disks = c.disks := by
  have hsending : Prompt build
      (Channel.pause { c with phase := .sending (List.ofFn (c.disks c.selected c.lba)) }) :=
    (h.withPhase _).pause
  have hidle := hsending.calm.withPhase .idle
  rw [Channel.command_read h.present hbusy hcount, ← copy_sectorOf]
  refine ⟨_, _, hsending.waitDataReady ?_ m bus, run_insw rfl rfl List.length_ofFn buffer, hidle, rfl,
    rfl, rfl, rfl⟩
  intro hphase
  cases hphase

/-- The waits and the writes with which a read addresses a sector, once the channel is awake. -/
theorem addresses_sector (h : Prompt build c) (hc : m.channels bus = c)
    (hd : c.present isMaster = true) (lba : Nat) :
    (waitForDriveReady build bus build.waitTimeout).run () m = some (true, m.set bus (calm c)) ∧
    (setDriveHead bus lba isMaster).run () (m.set bus (calm c))
      = some ((), m.set bus { calm c with device := driveHead lba isMaster }) ∧
    (waitForDriveReady build bus build.waitTimeout).run ()
        (m.set bus { calm c with device := driveHead lba isMaster })
      = some (true, m.set bus { calm c with device := driveHead lba isMaster }) ∧
    (setLba bus lba).run () (m.set bus { calm c with device := driveHead lba isMaster })
      = some ((), m.set bus (addressed (calm c) lba isMaster)) := by
  have hselected : Prompt build { calm c with device := driveHead lba isMaster } :=
    ⟨h.calm.busy, h.pauses, by rw [selected_driveHead lba rfl]; exact hd⟩
  exact ⟨run_waitForDriveReady h hc, run_onChannel_set _, hselected.waitReady m bus, run_setLba lba⟩

/-- **`ata_read_sector`** gives the sector of the disk. -/
theorem ataReadSector_called (h : Found build m bus awake)
    (hd : (m.channels bus).present isMaster = true)
    (hf : m.consecutiveReadFailures < maxConsecutiveFailures) (lba : Nat) (buffer : Bytes) :
    ∃ m', (ataReadSector build bus lba buffer isMaster).run () m = some ((true, copy buffer 0
        (Fat32.Sector.bytes (sectorOf ((m.channels bus).disks isMaster (lba % 2 ^ 28)))) 0 512), m') ∧
      Called build bus (m.channels bus).disks m m' := by
  obtain ⟨m₁, hfirst, h₁⟩ := attemptFirstRead_called h isMaster
  have hprompt := h₁.found.prompt
  have hdrive : (m₁.channels bus).present isMaster = true := by
    rw [h₁.drives]
    exact hd
  rw [← h₁.disks]
  generalize hc : m₁.channels bus = c at hprompt hdrive
  obtain ⟨hready, hhead, hready₂, hlba⟩ := addresses_sector hprompt hc hdrive lba
  obtain ⟨c₁, c₂, hdata, hinsw, hidle, hphase, hcalm, hpresent, hdisks⟩ :=
    sends_sector (hprompt.calm.addressed hdrive lba) rfl rfl m₁ bus buffer
  have hdone := hidle.waitReady m₁ bus
  rw [addressed_selected, addressed_lba] at hinsw
  rw [hcalm] at hdone
  have hcalled : Called build bus c.disks m (m₁.set bus c₂) := by
    have hset := h₁.set hidle hphase (by rw [hpresent, ← h₁.drives, hc]; rfl)
    rw [hdisks] at hset
    exact hset
  refine ⟨_, ?_, hcalled.cleared⟩
  unfold ataReadSector
  rw [Prog.run_bind_of_some () _ hfirst, Prog.run_bind, Prog.run_get, Option.bind_some]
  simp only
  rw [Prog.run_ite, if_neg (by have := h₁.failures hf; omega), Prog.run_bind_of_some () _ hready]
  simp only [Bool.not_true, Bool.false_eq_true, if_false]
  rw [Prog.run_bind_of_some () _ hhead, Prog.run_bind_of_some () _ hready₂]
  simp only [Bool.not_true, Bool.false_eq_true, if_false]
  rw [Prog.run_bind_of_some () _ hlba, Prog.run_bind_of_some () _ (run_onChannel_set _),
    Prog.run_bind_of_some () _ hdata]
  simp only [Bool.not_true, Bool.false_eq_true, if_false]
  rw [Prog.run_bind_of_some () _ hinsw, Prog.run_ite]
  split
  · rw [Prog.run_bind_of_some () _ hdone]
    rfl
  · rfl

/-- The disks of a channel, with the buffer in a sector of one of them. -/
def written (disks : Bool → Nat → Words) (isMaster : Bool) (lba : Nat) (buffer : Bytes) :
    Bool → Nat → Words :=
  Channel.setSector disks isMaster (lba % 2 ^ 28) fun i => (bufferWords buffer).getD i.val 0

/-- The channel behind WRITE SECTORS, when the words of the buffer have been taken. -/
theorem receives_sector (h : Prompt build c) (hbusy : c.busy = 0) (hcount : c.sectorCount = 1)
    (m : Machine) (bus : Bus) (buffer : Bytes) : ∃ c₁ c₂,
    (waitForDriveDataReady build bus build.waitTimeout).run () (m.set bus (c.command 0x30))
      = some (true, m.set bus c₁) ∧
    (outsw bus buffer).run () (m.set bus c₁) = some ((), m.set bus c₂) ∧
    Prompt build c₂ ∧ c₂.phase = .idle ∧ c₂.present = c.present ∧
    c₂.disks = Channel.setSector c.disks c.selected c.lba fun i => (bufferWords buffer).getD i.val 0 := by
  have hreceiving : Prompt build
      (Channel.pause { c with phase := .receiving c.selected c.lba [] }) := (h.withPhase _).pause
  have hdata := hreceiving.waitDataReady (by intro hphase; cases hphase) m bus
  rw [Channel.command_write h.present hbusy hcount]
  refine ⟨_, _, hdata, run_onChannel_set _, ?_⟩
  rw [Channel.writeBlock_sector rfl rfl (length_bufferWords buffer)]
  exact ⟨⟨hreceiving.pauses 0, fun n => hreceiving.pauses (n + 1), hreceiving.present⟩, rfl, rfl, rfl⟩

/-- **`ata_write_sector`** puts the buffer into the sector of the disk. -/
theorem ataWriteSector_called (h : Found build m bus true)
    (hd : (m.channels bus).present isMaster = true) (lba : Nat) (buffer : Bytes) :
    ∃ m', (ataWriteSector build bus lba buffer isMaster).run () m = some (true, m') ∧
      Called build bus (written (m.channels bus).disks isMaster lba buffer) m m' := by
  have h₀ : Called build bus (m.channels bus).disks m m :=
    Called.of_channel rfl (fun _ _ => ⟨rfl, rfl⟩) id h.prompt h.phase rfl rfl
  have hprompt := h.prompt
  generalize hc : m.channels bus = c at hprompt hd
  have hready : (waitForDriveReady build bus build.waitTimeout).run () m
      = some (true, m.set bus (calm c)) := run_waitForDriveReady hprompt hc
  -- the drive is selected behind the other registers here
  have hhead : ∀ c', (setDriveHead bus lba isMaster).run () (m.set bus c')
      = some ((), m.set bus { c' with device := driveHead lba isMaster }) :=
    fun c' => run_onChannel_set _
  obtain ⟨c₁, c₂, hdata, houtsw, hwritten, hphase, hpresent, hdisks⟩ :=
    receives_sector (hprompt.calm.addressed hd lba) rfl rfl m bus buffer
  rw [addressed_selected, addressed_lba] at hdisks
  have hdone := hwritten.waitReady m bus
  have hflush : (calm c₂).command 0xE7 = (calm c₂).pause :=
    Channel.command_flush hwritten.calm.present rfl
  have hflushed := hwritten.calm.pause.waitReady m bus
  refine ⟨m.set bus (calm (calm c₂).pause), ?_, ?_⟩
  · unfold ataWriteSector
    rw [Prog.run_bind_of_some () _ hready]
    simp only [Bool.not_true, Bool.false_eq_true, if_false]
    rw [Prog.run_bind_of_some () _ (run_setLba lba), Prog.run_bind_of_some () _ (hhead _),
      Prog.run_bind_of_some () _ (run_onChannel_set _)]
    change (Prog.run _ () (m.set bus ((addressed (calm c) lba isMaster).command 0x30))) = _
    rw [Prog.run_bind_of_some () _ hdata]
    simp only [Bool.not_true, Bool.false_eq_true, if_false]
    rw [Prog.run_bind_of_some () _ houtsw, Prog.run_bind_of_some () _ hdone]
    simp only [Bool.not_true, Bool.false_eq_true, if_false]
    rw [Prog.run_bind_of_some () _ (run_onChannel_set _), hflush, Prog.run_bind_of_some () _ hflushed]
    rfl
  · have hcalled := h₀.set hwritten.calm.pause.calm hphase (by rw [hc]; exact hpresent)
    have hsame : (calm (calm c₂).pause).disks = written c.disks isMaster lba buffer := hdisks
    rw [hsame] at hcalled
    exact hcalled

end call

/-! ## Calls in a row -/

/-- A call of `ata_write_sector`, or of `ata_read_sector`. -/
structure Call where
  write : Bool
  bus : Bus
  isMaster : Bool
  lba : Nat
  buffer : Bytes

/-- The drive of a call, as the file systems know it. -/
def Call.drive (call : Call) : Fat32.Drive := ⟨call.bus.base, call.isMaster⟩

/-- The call on the channels. -/
def onPorts (build : Build) (call : Call) : Io (Bool × Bytes) :=
  if call.write then do
    let ok ← ataWriteSector build call.bus call.lba call.buffer call.isMaster
    return (ok, call.buffer)
  else ataReadSector build call.bus call.lba call.buffer call.isMaster

/-- The call on the disks. -/
def onDisks (l : Fat32.Label) (call : Call) : Fat32.Io (Bool × Bytes) :=
  if call.write then do
    let ok ← Fat32.ataWriteSector l call.drive call.lba call.buffer 0
    return (ok, call.buffer)
  else Fat32.ataReadSector l call.drive call.lba call.buffer 0

/-- Calls in a row. -/
def inRow {ε σ : Type} (f : Call → Prog ε σ (Bool × Bytes)) : List Call → Prog ε σ (List (Bool × Bytes))
  | [] => return []
  | call :: calls => do
      let r ← f call
      let rs ← inRow f calls
      return r :: rs

/-- The channels hold the disks. -/
def Stores (m : Machine) (s : Fat32.Fs) : Prop :=
  ∀ bus isMaster lba, s.disks ⟨bus.base, isMaster⟩ lba = sectorOf ((m.channels bus).disks isMaster lba)

/-- Both channels are as a call finds them. -/
structure Ready (build : Build) (present : Bus → Bool → Bool) (awake : Bus → Bool) (m : Machine) :
    Prop where
  found : ∀ bus, Found build m bus (awake bus)
  drives : ∀ bus, (m.channels bus).present = present bus
  failures : m.consecutiveReadFailures < maxConsecutiveFailures

/-- The calls are for drives that are there, and the first one on a channel that is not awake is a
read. -/
def Answered (present : Bus → Bool → Bool) : (Bus → Bool) → List Call → Prop
  | _, [] => True
  | awake, call :: calls =>
      present call.bus call.isMaster = true ∧ (call.write = true → awake call.bus = true) ∧
        Answered present (Function.update awake call.bus true) calls

section runs

variable {build : Build} {present : Bus → Bool → Bool} {awake : Bus → Bool} {m m' : Machine} {bus : Bus}
  {disks : Bool → Nat → Words} {s : Fat32.Fs} {e : Fat32.Env} {call : Call}

theorem Bus.base_injective : Function.Injective Bus.base := by
  intro a b h
  cases a <;> cases b <;> first | rfl | exact absurd h (by decide)

/-- A call leaves both channels to the next one. -/
theorem Ready.called (h : Ready build present awake m) (hc : Called build bus disks m m') :
    Ready build present (Function.update awake bus true) m' := by
  refine ⟨?_, ?_, hc.failures h.failures⟩
  · intro bus'
    by_cases hb : bus' = bus
    · subst hb
      rw [Function.update_self]
      exact hc.found
    · have hf := h.found bus'
      rw [Function.update_of_ne hb]
      constructor
      · rw [hc.channels bus' hb]; exact hf.phase
      · rw [hc.channels bus' hb]; exact hf.busy
      · rw [hc.channels bus' hb]; exact hf.pauses
      · rw [hc.channels bus' hb]; exact hf.present
      · rw [hc.channels bus' hb, hc.attempted bus' hb]; exact hf.asleep
  · intro bus'
    by_cases hb : bus' = bus
    · subst hb
      rw [hc.drives]
      exact h.drives _
    · rw [hc.channels bus' hb]
      exact h.drives _

/-- The disks behind a call that has left other disks on its channel. -/
theorem Called.stores (hc : Called build bus disks m m') (hs : Stores m s) (bus' : Bus) (isMaster : Bool)
    (lba : Nat) : sectorOf ((m'.channels bus').disks isMaster lba)
      = if bus' = bus then sectorOf (disks isMaster lba) else s.disks ⟨bus'.base, isMaster⟩ lba := by
  split
  next hb =>
    subst hb
    rw [hc.disks]
  next hb => rw [hc.channels bus' hb, hs]

/-- The disks behind a write. -/
def Call.writtenTo (call : Call) (s : Fat32.Fs) : Fat32.Fs :=
  { s with disks := Function.update s.disks call.drive (Function.update (s.disks call.drive)
      (call.lba % 2 ^ 28) (Fat32.Sector.ofBytes call.buffer 0)) }

/-- A write to a drive changes a sector of that drive on its channel. -/
theorem Stores.writtenTo (hs : Stores m s)
    (hc : Called build call.bus
      (written (m.channels call.bus).disks call.isMaster call.lba call.buffer) m m') :
    Stores m' (call.writtenTo s) := by
  intro bus isMaster lba
  rw [hc.stores hs]
  unfold Call.writtenTo
  simp only
  by_cases hdrive : (⟨bus.base, isMaster⟩ : Fat32.Drive) = call.drive
  · obtain ⟨hbase, rfl⟩ := Fat32.Drive.mk.inj hdrive
    obtain rfl := Bus.base_injective hbase
    rw [hdrive, Function.update_self, if_pos rfl]
    unfold written Channel.setSector
    rw [Function.update_self]
    by_cases hlba : lba = call.lba % 2 ^ 28
    · rw [hlba, Function.update_self, Function.update_self, sectorOf_bufferWords]
    · rw [Function.update_of_ne hlba, Function.update_of_ne hlba, ← hdrive]
      exact hs _ _ _
  · rw [Function.update_of_ne hdrive]
    split
    next hb =>
      subst hb
      have hmaster : isMaster ≠ call.isMaster := by
        rintro rfl
        exact hdrive rfl
      unfold written Channel.setSector
      rw [Function.update_of_ne hmaster]
      exact hs _ _ _
    next => rfl

/-- One call has the same result on the channels and on the disks. -/
theorem call_refines (h : Ready build present awake m) (hs : Stores m s) (he : e.Reliable)
    (l : Fat32.Label) (hd : present call.bus call.isMaster = true)
    (hw : call.write = true → awake call.bus = true) :
    ∃ r m' s', (onPorts build call).run () m = some (r, m') ∧ (onDisks l call).run e s = some (r, s') ∧
      Ready build present (Function.update awake call.bus true) m' ∧ Stores m' s' := by
  have hdrive : (m.channels call.bus).present call.isMaster = true := by
    rw [h.drives]
    exact hd
  have hfails : e.fails l = false := he _
  unfold onPorts onDisks
  cases hcall : call.write with
  | false =>
      obtain ⟨m', hrun, hc⟩ :=
        ataReadSector_called (h.found call.bus) hdrive h.failures call.lba call.buffer
      refine ⟨_, m', s, hrun, ?_, h.called hc, ?_⟩
      · unfold Fat32.ataReadSector
        simp [hfails, hs call.bus call.isMaster, Call.drive]
      · intro bus' isMaster lba
        rw [hc.stores hs]
        split
        next hb =>
          subst hb
          exact hs _ _ _
        next => rfl
  | true =>
      have hfound : Found build m call.bus true := hw hcall ▸ h.found call.bus
      obtain ⟨m', hrun, hc⟩ := ataWriteSector_called hfound hdrive call.lba call.buffer
      refine ⟨(true, call.buffer), m', call.writtenTo s, ?_, ?_, h.called hc, hs.writtenTo hc⟩
      · rw [if_pos rfl, Prog.run_bind_of_some () m hrun]
        rfl
      · unfold Fat32.ataWriteSector
        rw [if_pos rfl]
        simp [hfails, Fat32.loses_of_not_fails hfails]
        rfl

/-- **The driver stores what the file systems read.** No channel is busy for longer than the driver
waits. Any calls of `ata_read_sector` and `ata_write_sector` for drives that are there, the first one on
a sleeping channel being a read, return from the channels what they return from the disks, and leave
both with the same contents. -/
theorem ports_refine {calls : List Call} (h : Ready build present awake m) (hs : Stores m s)
    (he : e.Reliable) (l : Fat32.Label) (hcalls : Answered present awake calls) :
    ∃ rs m' s', (inRow (onPorts build) calls).run () m = some (rs, m') ∧
      (inRow (onDisks l) calls).run e s = some (rs, s') ∧ Stores m' s' := by
  induction calls generalizing m s awake with
  | nil => exact ⟨[], m, s, rfl, rfl, hs⟩
  | cons call calls ih =>
      obtain ⟨hd, hw, hrest⟩ := hcalls
      obtain ⟨r, m₁, s₁, hports, hdisks, h₁, hs₁⟩ := call_refines h hs he l hd hw
      obtain ⟨rs, m₂, s₂, hports₂, hdisks₂, hs₂⟩ := ih h₁ hs₁ hrest
      refine ⟨r :: rs, m₂, s₂, ?_, ?_, hs₂⟩
      · unfold inRow
        rw [Prog.run_bind_of_some () m hports, Prog.run_bind_of_some () m₁ hports₂]
        rfl
      · unfold inRow
        rw [Prog.run_bind_of_some e s hdisks, Prog.run_bind_of_some e s₁ hdisks₂]
        rfl

end runs

/-! ### A machine behind the detection of its drives -/

/-- A channel with a master, on which the missing slave is selected. -/
def masterOnly : Channel where
  sectorCount := 1
  lbaLow := 1
  lbaMid := 0
  lbaHigh := 0
  device := 0xB0
  phase := .idle
  busy := 0
  pauses := fun n => n % 4
  present := fun master => master
  disks := fun _ _ _ => 0

/-- Two such channels, from which nothing has been read. -/
def detected : Machine := ⟨fun _ => masterOnly, fun _ => false, 0⟩

theorem detected_ready : Ready .qemu (fun _ master => master) (fun _ => false) detected := by
  refine ⟨?_, fun _ => rfl, by decide⟩
  intro bus
  refine ⟨rfl, Nat.zero_le _, ?_, fun ha => (by cases ha), fun _ => ⟨rfl, rfl⟩⟩
  intro n
  change n % 4 * 1 ≤ 500
  omega

/-- The disks of that machine, which are full of zeros. -/
def zeroDisks : Fat32.Fs where
  disks := fun _ _ => sectorOf fun _ => 0
  currentDrive := ⟨0x1F0, true⟩
  ataBaseAddress := 0x1F0
  bootSector := ⟨512, 1, 1, 1, 0, 64, 1, 2, 1⟩
  fsinfo := fun _ => 0
  fsinfoValid := false
  currentDirectoryCluster := 2
  partitionLbaOffset := 0

/-- No call fails. -/
def steadyEnv : Fat32.Env :=
  ⟨[], fun _ => false, fun _ => false, fun _ => false, fun _ _ => 0, fun _ => ⟨0, 0, 0, 0, 0, 0⟩⟩

/-- Sector 0 of the first drive is read, then sector 5 is written and read back. -/
def readWriteRead : List Call :=
  [⟨false, .primary, true, 0, fun _ => 0⟩, ⟨true, .primary, true, 5, fun _ => 0x41⟩,
    ⟨false, .primary, true, 5, fun _ => 0⟩]

theorem ports_refine_readWriteRead : ∃ rs m' s',
    (inRow (onPorts .qemu) readWriteRead).run () detected = some (rs, m') ∧
    (inRow (onDisks .fat) readWriteRead).run steadyEnv zeroDisks = some (rs, s') ∧ Stores m' s' := by
  have hcalls : Answered (fun _ master => master) (fun _ => false) readWriteRead := by
    refine ⟨rfl, fun hw => (by cases hw), rfl, fun _ => rfl, rfl, fun hw => (by cases hw), trivial⟩
  exact ports_refine detected_ready (fun _ _ _ => rfl) (fun _ => rfl) .fat hcalls

end MicroKernel.Ata.Ports
