import MicroKernel.Lib.Bytes
import MicroKernel.Lib.Chunks
import MicroKernel.Lib.Prog
import MicroKernel.Lib.Word

set_option autoImplicit false

/-! # Reading from ATA drives (`drivers/block/ata.c`)

`ata_read_sector` gives up when five calls in a row have failed. The flags of the first read are kept
for each controller, but there is one counter for all drives, and only a read that succeeds clears
it: five failures on one drive are the end of reading from any of them (`reads_iff`).
-/

namespace MicroKernel.Ata

open MicroKernel.Lib Bytes

/-! ## The driver and its controllers -/

/-- The builds, which differ in how they wait for a drive. -/
inductive Build where
  /-- `QEMU_BUILD` -/
  | qemu
  /-- `VMWARE_BUILD` -/
  | vmware
  /-- `REAL_HARDWARE` -/
  | realHardware
  | other
  deriving DecidableEq

/-- `ATA_WAIT_TIMEOUT_MS`. -/
def Build.waitTimeout : Build → Nat
  | qemu => 500
  | vmware => 5000
  | realHardware => 5000
  | other => 1000

/-- `ATA_POLL_DELAY_MS`. -/
def Build.pollDelay : Build → Nat
  | qemu => 1
  | vmware => 10
  | realHardware => 10
  | other => 5

/-- The places where a call polls the status register. -/
inductive Wait where
  /-- Before the first read from a controller. -/
  | first
  /-- Until the drive is ready. -/
  | ready
  /-- Until the drive that has been selected is ready. -/
  | selected
  /-- Until the drive is not busy with the command any more. -/
  | busy
  /-- Until there are data. -/
  | data
  /-- Until the command is completed. -/
  | done

/-- What a controller answers during one call: the status at the `n`-th poll of each place, and the
sector. -/
structure Controller where
  status : Wait → Nat → UInt8
  sector : Bytes

/-- The static variables of the driver, and the ports that have been written with the values. -/
structure State where
  firstReadAttempted : Fin 2 → Bool
  consecutiveReadFailures : Nat
  written : List (Nat × Nat)

/-- The programs of the driver. -/
abbrev Io := Prog Controller State

/-- `outb(port, value)`. -/
def outb (port value : Nat) : Io Unit :=
  Prog.modify fun s => { s with written := s.written ++ [(port, value)] }

/-! ## Waiting -/

/-- What `wait_for_drive_ready` makes of a status: whether the drive is ready, or that it has to be
polled again. -/
def readyVerdict (build : Build) (status : UInt8) : Option Bool :=
  if build = .qemu ∨ build = .vmware then
    if status &&& 0x80 = 0 ∧ status &&& 0x40 ≠ 0 then some true else none
  else if status &&& 0x01 ≠ 0 then some false
  else if status &&& 0x80 = 0 then some true
  else none

/-- The first loop of `wait_for_drive_data_ready` for QEMU. -/
def busyVerdict (status : UInt8) : Option Bool :=
  if status = 0xFF then some false
  else if status &&& 0x01 ≠ 0 then some false
  else if status &&& 0x80 = 0 then some true
  else none

/-- The second loop of `wait_for_drive_data_ready` for QEMU. -/
def requestVerdict (status : UInt8) : Option Bool :=
  if status &&& 0x08 ≠ 0 then some true else none

/-- The loop of `wait_for_drive_data_ready` for the other builds. -/
def dataVerdict (status : UInt8) : Option Bool :=
  if status &&& 0x01 ≠ 0 then some false
  else if status &&& 0x20 ≠ 0 then some false
  else if status &&& 0x08 ≠ 0 ∧ status &&& 0x80 = 0 then some true
  else none

/-- A loop that polls the status register until there is a verdict or the time is over: the verdict
and the elapsed time. -/
def pollLoop (build : Build) (w : Wait) (verdict : UInt8 → Option Bool) (timeout : Nat) :
    Nat → Nat → Nat → Io (Bool × Nat)
  | 0, _, _ => Prog.diverge
  | k + 1, n, elapsed => do
      let status ← Prog.ask fun c => c.status w n
      match verdict status with
      | some b => return (b, elapsed)
      | none =>
          if timeout ≤ elapsed then return (false, elapsed)
          pollLoop build w verdict timeout k (n + 1) (elapsed + build.pollDelay)

/-- `wait_for_drive_ready`. Every poll takes a millisecond or more. -/
def waitForDriveReady (build : Build) (w : Wait) (timeout : Nat) : Io Bool := do
  let (ok, _) ← pollLoop build w (readyVerdict build) timeout (timeout + 1) 0 0
  return ok

/-- `wait_for_drive_data_ready`. -/
def waitForDriveDataReady (build : Build) (timeout : Nat) : Io Bool := do
  if build = .qemu then
    let (ok, elapsed) ← pollLoop build .busy busyVerdict timeout (timeout + 1) 0 0
    if !ok then return false
    let (ok, _) ← pollLoop build .data requestVerdict timeout (timeout + 1) 0 elapsed
    return ok
  else
    let (ok, _) ← pollLoop build .data dataVerdict timeout (timeout + 1) 0 0
    return ok

/-! ## `ata_read_sector` -/

/-- `ata_soft_reset`. Nothing depends on the polls at its end. -/
def ataSoftReset (base : Nat) (isMaster : Bool) : Io Unit := do
  outb (base + 6) (if isMaster then 0xA0 else 0xB0)
  outb (base + 0x206) 0x04
  outb (base + 0x206) 0x00

/-- The part of `ata_read_sector` that looks after the first read from a controller. -/
def attemptFirstRead (base : Nat) (isMaster : Bool) : Io Unit := do
  let s ← Prog.get
  let controllerIdx : Fin 2 := if base = 0x1F0 then 0 else 1
  if s.firstReadAttempted controllerIdx then return ()
  let status ← Prog.ask fun c => c.status .first 0
  if status = 0x00 ∨ status = 0xFF then ataSoftReset base isMaster
  Prog.modify fun s =>
    { s with firstReadAttempted := Function.update s.firstReadAttempted controllerIdx true }

/-- `consecutive_read_failures++; return false;`. -/
def readFailed (buffer : Bytes) : Io (Bool × Bytes) := do
  Prog.modify fun s => { s with consecutiveReadFailures := u32 (s.consecutiveReadFailures + 1) }
  return (false, buffer)

/-- `consecutive_read_failures = 0; return true;`. -/
def readSucceeded (buffer : Bytes) : Io (Bool × Bytes) := do
  Prog.modify fun s => { s with consecutiveReadFailures := 0 }
  return (true, buffer)

/-- `MAX_CONSECUTIVE_FAILURES`. -/
def maxConsecutiveFailures : Nat := 5

/-- The drive/head register for a read: LBA mode, the upper bits of the number and the drive. -/
def driveHead (lba : Nat) (isMaster : Bool) : Nat :=
  0xE0 ||| ((lba >>> 24) &&& 0x0F) ||| (if isMaster then 0x00 else 0x10)

/-- `ata_read_sector`: whether the sector has been read, and the buffer. -/
def ataReadSector (build : Build) (base lba : Nat) (buffer : Bytes) (isMaster : Bool) :
    Io (Bool × Bytes) := do
  attemptFirstRead base isMaster
  let s ← Prog.get
  if maxConsecutiveFailures ≤ s.consecutiveReadFailures then return (false, buffer)
  if !(← waitForDriveReady build .ready build.waitTimeout) then readFailed buffer
  else
    outb (base + 6) (driveHead lba isMaster)
    if !(← waitForDriveReady build .selected build.waitTimeout) then readFailed buffer
    else
      outb (base + 2) 1
      outb (base + 3) (lba &&& 0xFF)
      outb (base + 4) ((lba >>> 8) &&& 0xFF)
      outb (base + 5) ((lba >>> 16) &&& 0xFF)
      outb (base + 7) 0x20
      if !(← waitForDriveDataReady build build.waitTimeout) then readFailed buffer
      else
        let sector ← Prog.ask fun c => c.sector
        let buffer := copy buffer 0 sector 0 512
        if build = .realHardware then
          if !(← waitForDriveReady build .done build.waitTimeout) then readFailed buffer
          else readSucceeded buffer
        else readSucceeded buffer

/-- The registers hold the low 28 bits of the number of a sector. -/
theorem registers_lba (lba : Nat) (isMaster : Bool) :
    (lba &&& 0xFF) + 2 ^ 8 * ((lba >>> 8) &&& 0xFF) + 2 ^ 16 * ((lba >>> 16) &&& 0xFF)
      + 2 ^ 24 * (driveHead lba isMaster &&& 0x0F) = lba % 2 ^ 28 := by
  have hbyte : ∀ n : Nat, n &&& 0xFF = n % 2 ^ 8 := fun n => Nat.and_two_pow_sub_one_eq_mod n 8
  have hnibble : ∀ n : Nat, n &&& 0x0F = n % 2 ^ 4 := fun n => Nat.and_two_pow_sub_one_eq_mod n 4
  have hhead : driveHead lba isMaster &&& 0x0F = lba / 2 ^ 24 % 2 ^ 4 := by
    have hdrive : (if isMaster then 0x00 else 0x10) &&& 0x0F = 0 := by
      cases isMaster <;> rfl
    unfold driveHead
    rw [Nat.and_or_distrib_right, Nat.and_or_distrib_right, hdrive, Nat.and_assoc, Nat.or_zero,
      Nat.and_self, show 0xE0 &&& 0x0F = 0 from rfl, Nat.zero_or, hnibble,
      Nat.shiftRight_eq_div_pow]
  rw [hhead, hbyte, hbyte, hbyte, Nat.shiftRight_eq_div_pow, Nat.shiftRight_eq_div_pow]
  omega

/-! ## One call -/

/-- The controller reports ready, data ready and no error at every poll. -/
structure Controller.Healthy (c : Controller) : Prop where
  notBusy : ∀ w n, c.status w n &&& 0x80 = 0
  ready : ∀ w n, c.status w n &&& 0x40 ≠ 0
  noError : ∀ w n, c.status w n &&& 0x01 = 0
  noFault : ∀ w n, c.status w n &&& 0x20 = 0
  data : ∀ n, c.status .data n &&& 0x08 ≠ 0

section waits

variable {build : Build} {c : Controller} {s : State}

theorem Build.pollDelay_pos (build : Build) : 0 < build.pollDelay := by
  cases build <;> decide

theorem run_pollLoop (w : Wait) (verdict : UInt8 → Option Bool) (timeout k n elapsed : Nat) :
    (pollLoop build w verdict timeout (k + 1) n elapsed).run c s
      = match verdict (c.status w n) with
        | some b => some ((b, elapsed), s)
        | none => if timeout ≤ elapsed then some ((false, elapsed), s)
            else (pollLoop build w verdict timeout k (n + 1) (elapsed + build.pollDelay)).run c s := by
  rw [pollLoop, Prog.run_bind, Prog.run_ask, Option.bind_some]
  cases verdict (c.status w n) with
  | some b => rfl
  | none => rw [Prog.run_ite]; rfl

/-- The time is over before the turns are. -/
theorem pollLoop_returns (build : Build) (c : Controller) (s : State) (w : Wait)
    (verdict : UInt8 → Option Bool) {timeout k : Nat} (n : Nat) {elapsed : Nat} (hk : timeout ≤ elapsed + k) :
    ∃ r, (pollLoop build w verdict timeout (k + 1) n elapsed).run c s = some (r, s) := by
  induction k generalizing n elapsed with
  | zero =>
      rw [run_pollLoop]
      split
      · exact ⟨_, rfl⟩
      · exact ⟨_, if_pos hk⟩
  | succ k ih =>
      have hdelay := build.pollDelay_pos
      rw [run_pollLoop]
      split
      · exact ⟨_, rfl⟩
      · split
        · exact ⟨_, rfl⟩
        · exact ih (n + 1) (by omega)

/-- `wait_for_drive_ready` returns, and finds a healthy drive ready. -/
theorem waitForDriveReady_returns (build : Build) (c : Controller) (s : State) (w : Wait)
    (timeout : Nat) :
    ∃ b, (waitForDriveReady build w timeout).run c s = some (b, s) ∧ (c.Healthy → b = true) := by
  obtain ⟨⟨b, elapsed⟩, hrun⟩ := pollLoop_returns build c s w
    (readyVerdict build) 0 (Nat.le_add_left timeout 0)
  refine ⟨b, by rw [waitForDriveReady, Prog.run_bind, hrun]; rfl, fun hc => ?_⟩
  have hverdict : readyVerdict build (c.status w 0) = some true := by
    unfold readyVerdict
    split
    · rw [if_pos ⟨hc.notBusy w 0, hc.ready w 0⟩]
    · rw [if_neg (not_not.mpr (hc.noError w 0)), if_pos (hc.notBusy w 0)]
  rw [run_pollLoop, hverdict] at hrun
  cases hrun
  rfl

theorem busyVerdict_healthy (hc : c.Healthy) (n : Nat) :
    busyVerdict (c.status .busy n) = some true := by
  have hpresent : c.status .busy n ≠ 0xFF := by
    intro hn
    have h0 := hc.notBusy .busy n
    rw [hn] at h0
    exact absurd h0 (by decide)
  unfold busyVerdict
  rw [if_neg hpresent, if_neg (not_not.mpr (hc.noError _ _)), if_pos (hc.notBusy _ _)]

theorem dataVerdict_healthy (hc : c.Healthy) (n : Nat) :
    dataVerdict (c.status .data n) = some true := by
  unfold dataVerdict
  rw [if_neg (not_not.mpr (hc.noError _ _)), if_neg (not_not.mpr (hc.noFault _ _)),
    if_pos ⟨hc.data n, hc.notBusy _ _⟩]

/-- `wait_for_drive_data_ready` returns, and finds the data of a healthy drive. -/
theorem waitForDriveDataReady_returns (build : Build) (c : Controller) (s : State) (timeout : Nat) :
    ∃ b, (waitForDriveDataReady build timeout).run c s = some (b, s) ∧ (c.Healthy → b = true) := by
  unfold waitForDriveDataReady
  rw [Prog.run_ite]
  split
  · obtain ⟨⟨ok, elapsed⟩, hbusy⟩ := pollLoop_returns build c s .busy
      busyVerdict 0 (Nat.le_add_left timeout 0)
    obtain ⟨⟨b, elapsed'⟩, hrequest⟩ := pollLoop_returns build c s .data
      requestVerdict 0 (Nat.le_add_left timeout elapsed)
    rw [Prog.run_bind, hbusy, Option.bind_some]
    dsimp only
    rw [Prog.run_ite]
    cases ok with
    | false =>
        refine ⟨false, rfl, fun hc => ?_⟩
        rw [run_pollLoop, busyVerdict_healthy hc] at hbusy
        cases hbusy
    | true =>
        refine ⟨b, ?_, fun hc => ?_⟩
        · rw [if_neg (by decide), Prog.run_bind, hrequest]
          rfl
        · rw [run_pollLoop, requestVerdict, if_pos (hc.data 0)] at hrequest
          cases hrequest
          rfl
  · obtain ⟨⟨b, elapsed⟩, hdata⟩ := pollLoop_returns build c s .data
      dataVerdict 0 (Nat.le_add_left timeout 0)
    refine ⟨b, by rw [Prog.run_bind, hdata]; rfl, fun hc => ?_⟩
    rw [run_pollLoop, dataVerdict_healthy hc] at hdata
    cases hdata
    rfl

end waits

section call

variable {build : Build} {c : Controller} {s : State}

/-- The first read is no affair of the counter. -/
theorem attemptFirstRead_returns (c : Controller) (s : State) (base : Nat) (isMaster : Bool) :
    ∃ s', (attemptFirstRead base isMaster).run c s = some ((), s') ∧
      s'.consecutiveReadFailures = s.consecutiveReadFailures := by
  unfold attemptFirstRead
  rw [Prog.run_bind, Prog.run_get, Option.bind_some]
  dsimp only
  generalize (if base = 0x1F0 then (0 : Fin 2) else 1) = controllerIdx
  rw [Prog.run_ite]
  split
  · exact ⟨s, rfl, rfl⟩
  · rw [Prog.run_bind, Prog.run_ask, Option.bind_some]
    dsimp only
    rw [Prog.run_ite]
    split
    · exact ⟨_, rfl, rfl⟩
    · exact ⟨_, rfl, rfl⟩

/-- What a call makes of the counter: it returns, with `b`. -/
structure ReadOutcome (c : Controller) (s : State) (b : Bool) (s' : State) : Prop where
  refused : maxConsecutiveFailures ≤ s.consecutiveReadFailures →
    b = false ∧ s'.consecutiveReadFailures = s.consecutiveReadFailures
  counted : s.consecutiveReadFailures < maxConsecutiveFailures →
    s'.consecutiveReadFailures = if b then 0 else s.consecutiveReadFailures + 1
  healthy : s.consecutiveReadFailures < maxConsecutiveFailures → c.Healthy → b = true

/-- The part `m` of a call that was made in the state `s` is reached in the state `s₁`, and the call
ends with it. -/
def Ends (c : Controller) (s s₁ : State) (m : Io (Bool × Bytes)) : Prop :=
  ∃ b buffer s', m.run c s₁ = some ((b, buffer), s') ∧ ReadOutcome c s b s'

section ends

variable {s₁ : State} {buffer : Bytes}

theorem ends_readFailed (hno : ¬ c.Healthy)
    (hcount : s₁.consecutiveReadFailures = s.consecutiveReadFailures)
    (hlt : s.consecutiveReadFailures < maxConsecutiveFailures) : Ends c s s₁ (readFailed buffer) := by
  refine ⟨false, buffer, _, rfl, fun h => absurd h (by omega), fun _ => ?_, fun _ h => absurd h hno⟩
  unfold maxConsecutiveFailures at hlt
  change u32 (s₁.consecutiveReadFailures + 1) = _
  rw [hcount, u32_eq_self (by omega)]
  rfl

theorem ends_readSucceeded (hlt : s.consecutiveReadFailures < maxConsecutiveFailures) :
    Ends c s s₁ (readSucceeded buffer) :=
  ⟨true, buffer, _, rfl, fun h => absurd h (by omega), fun _ => rfl, fun _ _ => rfl⟩

theorem Ends.outb {m : Io (Bool × Bytes)} {port value : Nat}
    (h : Ends c s { s₁ with written := s₁.written ++ [(port, value)] } m) :
    Ends c s s₁ (Ata.outb port value >>= fun _ => m) := h

theorem Ends.ask {α : Type} {f : Controller → α} {m : α → Io (Bool × Bytes)}
    (h : Ends c s s₁ (m (f c))) : Ends c s s₁ (Prog.ask f >>= m) := h

theorem Ends.ite {p : Prop} [Decidable p] {m m' : Io (Bool × Bytes)} (h : Ends c s s₁ m)
    (h' : Ends c s s₁ m') : Ends c s s₁ (if p then m else m') := by
  split
  · exact h
  · exact h'

/-- A wait that a healthy drive does not keep from going on. -/
theorem Ends.wait {wait : Io Bool} {m : Io (Bool × Bytes)}
    (hwait : ∃ b, wait.run c s₁ = some (b, s₁) ∧ (c.Healthy → b = true))
    (hcount : s₁.consecutiveReadFailures = s.consecutiveReadFailures)
    (hlt : s.consecutiveReadFailures < maxConsecutiveFailures) (h : Ends c s s₁ m) :
    Ends c s s₁ (wait >>= fun ok => if !ok then readFailed buffer else m) := by
  obtain ⟨ok, hrun, hhealthy⟩ := hwait
  have hgo : ∀ m' : Io (Bool × Bytes), Ends c s s₁ m' →
      (if !ok then readFailed buffer else m) = m' →
      Ends c s s₁ (wait >>= fun ok => if !ok then readFailed buffer else m) := by
    rintro _ ⟨b, buffer', s', hm, hout⟩ rfl
    exact ⟨b, buffer', s', by rw [Prog.run_bind, hrun, Option.bind_some, hm], hout⟩
  cases ok with
  | false => exact hgo _ (ends_readFailed (fun hc => nomatch hhealthy hc) hcount hlt) rfl
  | true => exact hgo _ h rfl

end ends

/-- **`ata_read_sector`** returns, whatever the controller answers. -/
theorem ataReadSector_returns (build : Build) (c : Controller) (s : State) (base lba : Nat)
    (buffer : Bytes) (isMaster : Bool) :
    Ends c s s (ataReadSector build base lba buffer isMaster) := by
  obtain ⟨s₁, hfirst, hcount⟩ := attemptFirstRead_returns c s base isMaster
  unfold Ends ataReadSector
  rw [Prog.run_bind, hfirst, Option.bind_some, Prog.run_bind, Prog.run_get, Option.bind_some]
  dsimp only
  rw [Prog.run_ite]
  split
  next hrefused =>
    rw [hcount] at hrefused
    exact ⟨false, buffer, s₁, rfl, fun _ => ⟨rfl, hcount⟩, fun h => absurd h (by omega),
      fun h => absurd h (by omega)⟩
  next hlt =>
    rw [hcount, Nat.not_le] at hlt
    refine Ends.wait (waitForDriveReady_returns ..) hcount hlt (Ends.outb ?_)
    refine Ends.wait (waitForDriveReady_returns ..) hcount hlt ?_
    refine Ends.outb (Ends.outb (Ends.outb (Ends.outb (Ends.outb ?_))))
    refine Ends.wait (waitForDriveDataReady_returns ..) hcount hlt ?_
    refine Ends.ask (Ends.ite ?_ (ends_readSucceeded hlt))
    exact Ends.wait (waitForDriveReady_returns ..) hcount hlt (ends_readSucceeded hlt)

end call

/-! ## Calls in a row -/

/-- A call of `ata_read_sector` on some drive. -/
structure ReadCall where
  controller : Controller
  base : Nat
  lba : Nat
  buffer : Bytes
  isMaster : Bool

/-- The outcome of the call. -/
def ReadCall.run (build : Build) (c : ReadCall) (s : State) : Option ((Bool × Bytes) × State) :=
  (ataReadSector build c.base c.lba c.buffer c.isMaster).run c.controller s

/-- One call, on any drive, and what it returns. -/
def ReadStep (build : Build) (s : State) (result : List Bool) (s' : State) : Prop :=
  ∃ (c : ReadCall) (b : Bool) (buffer : Bytes), c.run build s = some ((b, buffer), s') ∧ result = [b]

/-- The driver when the kernel starts. -/
def booted : State := ⟨fun _ => false, 0, []⟩

/-- How many calls have failed since the last one that succeeded. -/
def failuresInARow (results : List Bool) : Nat := (results.reverse.takeWhile fun b => !b).length

@[simp] theorem failuresInARow_succeeded (results : List Bool) :
    failuresInARow (results ++ [true]) = 0 := by
  simp [failuresInARow]

@[simp] theorem failuresInARow_failed (results : List Bool) :
    failuresInARow (results ++ [false]) = failuresInARow results + 1 := by
  simp [failuresInARow]

section runs

variable {build : Build} {s : State} {results : List Bool}

/-- What one call does to the counter. -/
theorem ReadStep.counter {s' : State} {result : List Bool} (h : ReadStep build s result s') :
    ∃ b, result = [b] ∧ ∃ controller, ReadOutcome controller s b s' := by
  obtain ⟨c, b, buffer, hrun, rfl⟩ := h
  obtain ⟨b', buffer', s₁, hrun', hout⟩ :=
    ataReadSector_returns build c.controller s c.base c.lba c.buffer c.isMaster
  rw [ReadCall.run, hrun'] at hrun
  cases hrun
  exact ⟨b, rfl, c.controller, hout⟩

/-- The counter counts the failures in a row, up to the number at which every call is refused. -/
theorem counter_eq (hrun : Yields (ReadStep build) booted results s) :
    s.consecutiveReadFailures = min maxConsecutiveFailures (failuresInARow results) := by
  refine hrun.invariant (fun results s => s.consecutiveReadFailures
    = min maxConsecutiveFailures (failuresInARow results)) rfl ?_
  intro results s₁ result s₂ hinv hstep
  obtain ⟨b, rfl, c, hout⟩ := hstep.counter
  rcases Nat.lt_or_ge s₁.consecutiveReadFailures maxConsecutiveFailures with hlt | hge
  · rw [hout.counted hlt]
    cases b with
    | true => simp
    | false =>
        simp only [failuresInARow_failed, Bool.false_eq_true, if_false]
        omega
  · obtain ⟨rfl, hsame⟩ := hout.refused hge
    simp only [failuresInARow_failed]
    omega

/-- **Reads of a healthy drive.** After any calls on any drives, a call on a drive that is ready at
every poll returns `true` just when fewer than five calls have failed since the last one that
succeeded. -/
theorem reads_iff (hrun : Yields (ReadStep build) booted results s) {c : ReadCall}
    (hc : c.controller.Healthy) :
    (∃ buffer s', c.run build s = some ((true, buffer), s')) ↔ failuresInARow results < 5 := by
  have hcounter := counter_eq hrun
  obtain ⟨b, buffer, s', hcall, hout⟩ :=
    ataReadSector_returns build c.controller s c.base c.lba c.buffer c.isMaster
  constructor
  · rintro ⟨buffer', s'', htrue⟩
    by_contra hmany
    obtain ⟨rfl, -⟩ := hout.refused (by unfold maxConsecutiveFailures at hcounter ⊢; omega)
    rw [ReadCall.run, hcall] at htrue
    cases htrue
  · intro hfew
    obtain rfl := hout.healthy (by unfold maxConsecutiveFailures at hcounter ⊢; omega) hc
    exact ⟨buffer, s', hcall⟩

end runs

/-! ### A bad drive and a good one -/

/-- A drive that is always ready and has data. -/
def goodController : Controller := ⟨fun _ _ => 0x58, fun _ => 0xAA⟩

theorem goodController_healthy : goodController.Healthy where
  notBusy := fun _ _ => show (0x58 : UInt8) &&& 0x80 = 0 by decide
  ready := fun _ _ => show (0x58 : UInt8) &&& 0x40 ≠ 0 by decide
  noError := fun _ _ => show (0x58 : UInt8) &&& 0x01 = 0 by decide
  noFault := fun _ _ => show (0x58 : UInt8) &&& 0x20 = 0 by decide
  data := fun _ => show (0x58 : UInt8) &&& 0x08 ≠ 0 by decide

/-- A read of a drive on the primary bus. -/
def goodRead : ReadCall := ⟨goodController, 0x1F0, 0, fun _ => 0, true⟩

/-- A drive that answers every command with an error. -/
def badController : Controller where
  status
    | .busy, _ => 0x51
    | .data, _ => 0x51
    | _, _ => 0x50
  sector := fun _ => 0

/-- A read of a drive on the secondary bus. -/
def badRead : ReadCall := ⟨badController, 0x170, 0, fun _ => 0, true⟩

/-- The driver after `n` reads of the bad drive. -/
def afterBadReads : Nat → Option State
  | 0 => some booted
  | n + 1 => (afterBadReads n).bind fun s => (badRead.run .qemu s).map Prod.snd

theorem afterBadReads_yields {n : Nat} {s : State} (h : afterBadReads n = some s) :
    ∃ results, Yields (ReadStep .qemu) booted results s := by
  induction n generalizing s with
  | zero =>
      obtain rfl := Option.some.inj h
      exact ⟨[], .start booted⟩
  | succ n ih =>
      obtain ⟨s₁, h₁, hread⟩ := Option.bind_eq_some_iff.mp h
      obtain ⟨⟨⟨b, buffer⟩, s₂⟩, hrun, rfl⟩ := Option.map_eq_some_iff.mp hread
      obtain ⟨results, hyields⟩ := ih h₁
      exact ⟨results ++ [b], .step hyields ⟨badRead, b, buffer, hrun, rfl⟩⟩

/-- After four reads of the bad drive the good one can still be read. -/
theorem reads_iff_afterFour : ∃ results s, Yields (ReadStep .qemu) booted results s ∧
    failuresInARow results = 4 ∧ ∃ buffer s', goodRead.run .qemu s = some ((true, buffer), s') := by
  have hcount : (afterBadReads 4).map (fun s => s.consecutiveReadFailures) = some 4 := by
    decide
  obtain ⟨s, hs, hfour⟩ := Option.map_eq_some_iff.mp hcount
  obtain ⟨results, hrun⟩ := afterBadReads_yields hs
  have hfailures : failuresInARow results = 4 := by
    have hcounter := counter_eq hrun
    rw [hfour] at hcounter
    unfold maxConsecutiveFailures at hcounter
    omega
  exact ⟨results, s, hrun, hfailures, (reads_iff hrun goodController_healthy).mpr (by omega)⟩

/-- After five reads of the bad drive the good one cannot be read any more. -/
theorem not_reads : ∃ results s, Yields (ReadStep .qemu) booted results s ∧
    goodRead.controller.Healthy ∧ ¬ ∃ buffer s', goodRead.run .qemu s = some ((true, buffer), s') := by
  have hcount : (afterBadReads 5).map (fun s => s.consecutiveReadFailures) = some 5 := by
    decide
  obtain ⟨s, hs, hfive⟩ := Option.map_eq_some_iff.mp hcount
  obtain ⟨results, hrun⟩ := afterBadReads_yields hs
  refine ⟨results, s, hrun, goodController_healthy, ?_⟩
  rintro ⟨buffer, s', htrue⟩
  obtain ⟨b, buffer', s'', hcall, hout⟩ :=
    ataReadSector_returns .qemu goodController s 0x1F0 0 (fun _ => 0) true
  obtain ⟨rfl, -⟩ := hout.refused (Nat.le_of_eq hfive.symm)
  exact absurd (hcall.symm.trans htrue) (by simp)

end MicroKernel.Ata
