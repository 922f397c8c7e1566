import MicroKernel.Drives.Detect
import MicroKernel.Lib.FloppyController
import MicroKernel.Lib.Prog

set_option autoImplicit false

/-! # The floppy driver (`drivers/block/fdd.c`)

The driver sends the bytes of a command to the controller, waits for its interrupt and takes the bytes of
the result. A sector comes into the memory through channel 2 of the DMA controller. A delay of a
millisecond is a unit of time of the controller. The data rate, which is set once, is left out.
-/

namespace MicroKernel.Fdd

open MicroKernel.Lib Floppy Bytes

/-! ## Programs on the controller -/

/-- The controller, and the static variables of the driver. The interrupt handler is installed, and the
line open, where `listening` says so. -/
structure Machine where
  controller : Controller
  listening : Bool
  irqTriggered : Bool
  fdcControllerInitialized : Bool

/-- A unit of time. `fdd_irq_handler` sets `irq_triggered`. -/
def Machine.tick (m : Machine) : Machine :=
  let (c, raised) := m.controller.tick
  { m with controller := c, irqTriggered := m.irqTriggered || (raised && m.listening) }

/-- The programs of the driver. -/
abbrev Io := Prog Unit Machine

/-- A write to a register. -/
def onController (f : Controller → Controller) : Io Unit :=
  Prog.modify fun m => { m with controller := f m.controller }

/-- `irq_triggered = b`. -/
def setIrqTriggered (b : Bool) : Io Unit := Prog.modify fun m => { m with irqTriggered := b }

/-- `delay_ms`. -/
def delayMs (ms : Nat) : Io Unit := Prog.modify fun m => Machine.tick^[ms] m

/-- `fdc_get_status`. -/
def fdcGetStatus : Io UInt8 := do
  let m ← Prog.get
  return m.controller.status

/-! ## Bytes of the data register -/

/-- `fdc_ready_to_write`. -/
def fdcReadyToWrite (msr : UInt8) : Bool := msr &&& 0x80 ≠ 0 ∧ msr &&& 0x40 = 0

/-- `fdc_ready_to_read`. -/
def fdcReadyToRead (msr : UInt8) : Bool := msr &&& 0x80 ≠ 0 ∧ msr &&& 0x40 ≠ 0

/-- The loop of `fdc_wait_write` and `fdc_wait_read`. -/
def fdcWait (ready : UInt8 → Bool) : Nat → Io Bool
  | 0 => return false
  | ms + 1 => do
      if ready (← fdcGetStatus) then return true
      delayMs 1
      fdcWait ready ms

/-- `fdc_send_command`. -/
def fdcSendCommand (command : UInt8) : Io Bool := do
  if !(← fdcWait fdcReadyToWrite 100) then return false
  onController (Controller.writeFifo command)
  return true

/-- Bytes sent one behind the other, up to the first one that the controller does not take. -/
def fdcSendCommands : List UInt8 → Io Bool
  | [] => return true
  | command :: rest => do
      if !(← fdcSendCommand command) then return false
      fdcSendCommands rest

/-- `fdc_read_data`. -/
def fdcReadData : Io UInt8 := do
  if !(← fdcWait fdcReadyToRead 100) then return 0xFF
  let m ← Prog.get
  onController fun c => c.readFifo.2
  return m.controller.readFifo.1

/-- The loop of `fdc_wait_for_irq`. -/
def fdcWaitForIrqLoop : Nat → Io Bool
  | 0 => return false
  | timeout + 1 => do
      let m ← Prog.get
      if m.irqTriggered then return true
      delayMs 1
      fdcWaitForIrqLoop timeout

/-- `fdc_wait_for_irq`. -/
def fdcWaitForIrq : Io Bool := fdcWaitForIrqLoop 3000

/-! ## Reading -/

/-- A write to a register of the DMA channel. -/
def onDma (f : Dma → Dma) : Io Unit := onController fun c => { c with dma := f c.dma }

/-- `dma_prepare_floppy`. -/
def dmaPrepareFloppy (buffer length : Nat) (read : Bool) : Io Unit := do
  onDma (Dma.writeMask 2 0x06)
  onDma Dma.clear
  onDma (Dma.writeAddress (buffer % 2 ^ 16 % 2 ^ 8))
  onDma (Dma.writeAddress (buffer % 2 ^ 16 / 2 ^ 8))
  onDma (Dma.writePage (buffer / 2 ^ 16 % 2 ^ 8))
  onDma (Dma.writeCount ((length - 1) % 2 ^ 16 % 2 ^ 8))
  onDma (Dma.writeCount ((length - 1) % 2 ^ 16 / 2 ^ 8))
  onDma (Dma.writeMode 2 (if read then 0x46 else 0x4A))
  onDma (Dma.writeMask 2 0x02)

/-- The bytes of the command with which `fdc_read_sector` reads a sector. -/
def readCommand (drive head track sector : UInt8) : List UInt8 :=
  [0xE6, (head <<< 2) ||| (drive &&& 0x03), track, head, sector, 2, 18, 0x1B, 0xFF]

/-- `fdc_read_sector`. -/
def fdcReadSector (drive head track sector : UInt8) (buffer : Nat) : Io Bool := do
  if !(← fdcWait fdcReadyToWrite 100) then return false
  dmaPrepareFloppy buffer 512 true
  setIrqTriggered false
  if !(← fdcSendCommands (readCommand drive head track sector)) then return false
  if !(← fdcWaitForIrq) then return false
  let st0 ← fdcReadData
  let _ ← fdcReadData
  let _ ← fdcReadData
  let _ ← fdcReadData
  let _ ← fdcReadData
  let _ ← fdcReadData
  let _ ← fdcReadData
  return st0 &&& 0xC0 = 0

/-! ## Detection -/

/-- `fdc_motor_on`. -/
def fdcMotorOn (drive : Nat) : Io Unit := onController (Controller.writeDor (0x1C ||| drive % 4))

/-- `fdc_motor_off`. -/
def fdcMotorOff (drive : Nat) : Io Unit := onController (Controller.writeDor (0x0C ||| drive % 4))

/-- `fdc_full_reset`. -/
def fdcFullReset : Io Unit := do
  onController (Controller.writeDor 0x00)
  delayMs 20
  onController (Controller.writeDor 0x0C)
  delayMs 20

/-- `fdc_initialize`. -/
def fdcInitialize : Io Unit := Prog.modify fun m => { m with listening := true }

/-- The loop of `fdc_init_controller`. -/
def clearInterrupts : Nat → Io Unit
  | 0 => return ()
  | n + 1 => do
      setIrqTriggered false
      delayMs 10
      let _ ← fdcSendCommand 0x08
      let _ ← fdcReadData
      let _ ← fdcReadData
      clearInterrupts n

/-- `fdc_init_controller`. -/
def fdcInitController : Io Bool := do
  fdcInitialize
  onController (Controller.writeDor 0x00)
  delayMs 10
  onController (Controller.writeDor 0x0C)
  delayMs 10
  clearInterrupts 4
  fdcSendCommands [0x03, 0xDF, 0x02]

/-- The loop of `fdc_calibrate_drive`. -/
def calibrateLoop (drive : Nat) : Nat → Io Bool
  | 0 => return false
  | attempts + 1 => do
      fdcMotorOn drive
      delayMs 500
      setIrqTriggered false
      if !(← fdcSendCommands [0x07, UInt8.ofNat (drive % 4)]) then
        fdcMotorOff drive
        calibrateLoop drive attempts
      else if !(← fdcWaitForIrq) then
        fdcMotorOff drive
        fdcFullReset
        calibrateLoop drive attempts
      else if !(← fdcSendCommand 0x08) then
        fdcMotorOff drive
        fdcFullReset
        calibrateLoop drive attempts
      else
        let st0 ← fdcReadData
        let cyl ← fdcReadData
        fdcMotorOff drive
        if st0 &&& 0x20 ≠ 0 ∧ cyl = 0 then return true
        else
          fdcFullReset
          delayMs 100
          calibrateLoop drive attempts

/-- `fdc_calibrate_drive`. -/
def fdcCalibrateDrive (drive : Nat) : Io Bool := calibrateLoop drive 3

/-- The loop of `fdd_detect_drives`. The memory that is there for an entry is the parameter; a write
behind the table has no result. -/
def fddDetectLoop (allocated : Nat → Option Drives.Drive) :
    List Nat → Drives.DriveTable → Io Drives.DriveTable
  | [], t => return t
  | drive :: rest, t => do
      fdcMotorOn drive
      delayMs 500
      if !(← fdcCalibrateDrive drive) then
        fdcMotorOff drive
        fddDetectLoop allocated rest t
      else
        let msr ← fdcGetStatus
        if msr &&& 0x80 = 0 then
          fdcMotorOff drive
          fddDetectLoop allocated rest t
        else
          match allocated drive with
          | none =>
              fdcMotorOff drive
              fddDetectLoop allocated rest t
          | some detectedDrive =>
              let d : Drives.Drive :=
                { detectedDrive with
                  type := .fdd
                  fddDriveNo := drive
                  name := Drives.fddName drive
                  cylinder := 80
                  head := 2
                  sector := 18
                  mountPoint := [] }
              if h : t.drives.length < Drives.maxDrives then
                fdcMotorOff drive
                fddDetectLoop allocated rest (t.push d h)
              else Prog.diverge

/-- The part of `fdd_detect_drives` that sets up the controller, unless that has been done. -/
def ensureInitialized : Io Bool := do
  let m ← Prog.get
  if m.fdcControllerInitialized then return true
  if !(← fdcInitController) then return false
  Prog.modify fun m => { m with fdcControllerInitialized := true }
  return true

/-- `fdd_detect_drives`. -/
def fddDetectDrives (allocated : Nat → Option Drives.Drive) (t : Drives.DriveTable) :
    Io Drives.DriveTable := do
  if !(← ensureInitialized) then return t
  fddDetectLoop allocated [0, 1] t

end MicroKernel.Fdd
