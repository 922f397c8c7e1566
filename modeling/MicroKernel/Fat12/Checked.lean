import MicroKernel.Fat12.Driver
import MicroKernel.Lib.Checked

set_option autoImplicit false

/-! # `fat12_read_file` with its copies checked

The loops of `fat12_read_file` once more, with a check in front of every `memcpy` out of the sector
buffer: the bytes copied are bytes of its 512. A call that has an outcome here has the same outcome
without the checks (`fat12ReadFileChecked_below`), and has copied nothing from behind the buffer.
-/

namespace MicroKernel.Fat12

open MicroKernel.Lib Bytes
open Prog (Below)

/-- `readFileSectors` with the check. -/
def readFileSectorsChecked (file startOffset firstSector bytesToRead : Nat) :
    Nat → Nat → Nat → Bytes → Bytes → Io (Bool × Nat × Bytes × Bytes)
  | 0, _, bytesRead, buffer, sectorBuffer => return (true, bytesRead, buffer, sectorBuffer)
  | n + 1, i, bytesRead, buffer, sectorBuffer => do
      if bytesToRead ≤ bytesRead then return (true, bytesRead, buffer, sectorBuffer)
      let s ← Prog.get
      let (ok, sectorBuffer) ← readLogical (.load i) s.currentFddDrive (u32 (firstSector + i))
        sectorBuffer 0
      if !ok then return (false, bytesRead, buffer, sectorBuffer)
      let offset := if bytesRead = 0 then startOffset else 0
      let remaining := usub 512 offset
      let bytesToCopy :=
        if bytesToRead - bytesRead < remaining then bytesToRead - bytesRead else remaining
      Prog.check (offset + bytesToCopy ≤ 512)
      let buffer := copy buffer bytesRead sectorBuffer offset bytesToCopy
      Prog.modify fun s => s.advanced file bytesToCopy
      readFileSectorsChecked file startOffset firstSector bytesToRead n (i + 1)
        (bytesRead + bytesToCopy) buffer sectorBuffer

/-- `readFileLoop` with the check. -/
def readFileLoopChecked (file startOffset bytesToRead : Nat) :
    Nat → Nat → Nat → Nat → Bytes → Bytes → Io (Bool × Nat × Bytes)
  | 0, _, _, _, _, _ => Prog.diverge
  | k + 1, i, currentCluster, bytesRead, buffer, sectorBuffer => do
      if ¬ (bytesRead < bytesToRead ∧ 2 ≤ currentCluster ∧ currentCluster < 0xFF7) then
        return (true, bytesRead, buffer)
      let s ← Prog.get
      match s.fat12 with
      | none => Prog.diverge
      | some v =>
          let spc := v.bootSector.sectorsPerCluster
          let firstSector := u32 (v.dataStart + (currentCluster - 2) * spc)
          let (ok, bytesRead, buffer, sectorBuffer) ← within (.cluster i)
            (readFileSectorsChecked file startOffset firstSector bytesToRead spc 0 bytesRead buffer
              sectorBuffer)
          if !ok then return (false, bytesRead, buffer)
          match getNextCluster s.fat12 currentCluster with
          | none => return (true, bytesRead, buffer)
          | some next =>
              readFileLoopChecked file startOffset bytesToRead k (i + 1) next bytesRead buffer
                sectorBuffer

/-- `fat12ReadFile` with the check. -/
def fat12ReadFileChecked (file : Nat) (buffer : Bytes) (bufferSize bytesToRead : Nat) :
    Io (Nat × Bytes) := do
  let s ← Prog.get
  match s.files file, s.fat12 with
  | some f, some v =>
      if v.fat.isNone then return (0, buffer)
      if bufferSize = 0 ∨ bytesToRead = 0 then return (0, buffer)
      if !isValidClusterFat12 f.startCluster then return (0, buffer)
      let bytesToRead :=
        if f.size < u32 (f.position + bytesToRead) then usub f.size f.position else bytesToRead
      let bytesToRead := if bufferSize < bytesToRead then bufferSize else bytesToRead
      if bytesToRead = 0 then return (0, buffer)
      let clusterSize := 512 * v.bootSector.sectorsPerCluster
      let startOffset := f.position % clusterSize
      if (← Prog.ask fun e => e.outOfMemory (.store 0 :: e.path)) then return (0, buffer)
      let sectorBuffer ← Prog.ask fun e => e.junk (.store 0 :: e.path)
      let (ok, bytesRead, buffer) ← readFileLoopChecked file startOffset bytesToRead steps 0
        f.startCluster 0 buffer sectorBuffer
      if !ok then return (bytesRead, buffer)
      return (bytesRead, if bytesRead < bufferSize then store8 buffer bytesRead 0 else buffer)
  | _, _ => return (0, buffer)

/-! ## With and without the checks -/

theorem readFileSectorsChecked_below (file startOffset firstSector n m i bytesRead : Nat)
    (b sb : Bytes) :
    Below (readFileSectorsChecked file startOffset firstSector n m i bytesRead b sb)
      (readFileSectors file startOffset firstSector n m i bytesRead b sb) := by
  induction m generalizing i bytesRead b sb with
  | zero => exact Below.refl _
  | succ m ih =>
      rw [readFileSectorsChecked, readFileSectors]
      apply Below.ite (Below.refl _)
      apply Below.bind (Below.refl _)
      intro s
      apply Below.bind (Below.refl _)
      intro r
      apply Below.ite (Below.refl _)
      apply Below.check_bind
      apply Below.bind (Below.refl _)
      intro _
      exact ih _ _ _ _

theorem readFileLoopChecked_below (file startOffset n k i c bytesRead : Nat) (b sb : Bytes) :
    Below (readFileLoopChecked file startOffset n k i c bytesRead b sb)
      (readFileLoop file startOffset n k i c bytesRead b sb) := by
  induction k generalizing i c bytesRead b sb with
  | zero => exact Below.diverge _
  | succ k ih =>
      rw [readFileLoopChecked, readFileLoop]
      apply Below.ite (Below.refl _)
      apply Below.bind (Below.refl _)
      intro s
      cases s.fat12 with
      | none => exact Below.diverge _
      | some v =>
          apply Below.bind (Below.under (readFileSectorsChecked_below _ _ _ _ _ _ _ _ _) _)
          intro r
          apply Below.ite (Below.refl _)
          cases getNextCluster (some v) c with
          | none => exact Below.refl _
          | some next => exact ih _ _ _ _ _

theorem fat12ReadFileChecked_below (file : Nat) (buffer : Bytes) (bufferSize bytesToRead : Nat) :
    Below (fat12ReadFileChecked file buffer bufferSize bytesToRead)
      (fat12ReadFile file buffer bufferSize bytesToRead) := by
  unfold fat12ReadFileChecked fat12ReadFile
  apply Below.bind (Below.refl _)
  intro s
  cases s.files file with
  | none => exact Below.refl _
  | some f =>
      cases s.fat12 with
      | none => exact Below.refl _
      | some v =>
          apply Below.ite (Below.refl _)
          apply Below.ite (Below.refl _)
          apply Below.ite (Below.refl _)
          apply Below.ite (Below.refl _)
          apply Below.bind (Below.refl _)
          intro noMemory
          apply Below.ite (Below.refl _)
          apply Below.bind (Below.refl _)
          intro sb
          apply Below.bind (readFileLoopChecked_below _ _ _ _ _ _ _ _ _)
          intro r
          exact Below.refl _

end MicroKernel.Fat12
