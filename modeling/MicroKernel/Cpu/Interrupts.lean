import MicroKernel.Lib.Pic
import MicroKernel.Lib.Raster
import Mathlib.Logic.Relation

set_option autoImplicit false

/-! # Interrupts (`arch/x86/cpu/irq.c`, `irq.asm`, `idt.c`)

`irq_install` initialises the two interrupt controllers and fills the interrupt descriptor table;
`irq_handler` calls the routine that is registered for the line and ends the interrupt. Some of the
routines end it as well, before they return.

The gates are interrupt gates and the stubs begin with `cli`, so that a routine which returns does so
before the next interrupt. Then no interrupt is lost, none is handled twice, and each one reaches the stub
of its line (`interrupts_handled`). The scheduler, which may not return, is in `Sched.Preemption`.
-/

namespace MicroKernel.Cpu

open MicroKernel.Lib

/-! ## The interrupt descriptor table -/

/-- `struct idt_entry`. -/
structure IdtEntry where
  offsetLow : UInt16
  selector : UInt16
  zero : UInt8
  typeAttr : UInt8
  offsetHigh : UInt16

/-- `idt`. -/
abbrev Idt := Nat → IdtEntry

/-- The entry that `set_idt_entry` writes. -/
def IdtEntry.gate (handler : UInt32) : IdtEntry where
  offsetLow := (handler &&& 0xFFFF).toUInt16
  selector := 0x08
  zero := 0
  typeAttr := 0x8E
  offsetHigh := ((handler >>> 16) &&& 0xFFFF).toUInt16

/-- `set_idt_entry`. -/
def setIdtEntry (idt : Idt) (vector : Nat) (handler : UInt32) : Idt :=
  Function.update idt vector (.gate handler)

/-- Where the processor goes for the entry. -/
def IdtEntry.target (e : IdtEntry) : UInt32 := (e.offsetHigh.toUInt32 <<< 16) ||| e.offsetLow.toUInt32

/-- **The processor finds the handler** that was entered. -/
theorem target_gate (handler : UInt32) : (IdtEntry.gate handler).target = handler := by
  have hlow : (handler &&& 0xFFFF).toNat = handler.toNat % 65536 := by
    rw [UInt32.toNat_and]
    exact Nat.and_two_pow_sub_one_eq_mod handler.toNat 16
  have hhigh : ((handler >>> 16) &&& 0xFFFF).toNat = handler.toNat / 65536 := by
    have hlt := handler.toNat_lt
    rw [UInt32.toNat_and, UInt32.toNat_shiftRight]
    change handler.toNat >>> 16 &&& 65535 = _
    rw [Nat.shiftRight_eq_div_pow]
    refine (Nat.and_two_pow_sub_one_eq_mod _ 16).trans ?_
    omega
  have hlt := handler.toNat_lt
  have hmod : handler.toNat % 65536 < 2 ^ 16 := by omega
  unfold IdtEntry.target IdtEntry.gate
  refine UInt32.toNat_inj.mp ?_
  rw [UInt32.toNat_or, UInt32.toNat_shiftLeft, UInt16.toNat_toUInt32, UInt16.toNat_toUInt32,
    UInt32.toNat_toUInt16, UInt32.toNat_toUInt16, hlow, hhigh]
  change (handler.toNat / 65536 % 65536) <<< 16 % 4294967296 ||| handler.toNat % 65536 % 65536 = _
  have hshift : (handler.toNat / 65536 % 65536) <<< 16 % 4294967296
      = (handler.toNat / 65536) <<< 16 := by
    rw [Nat.shiftLeft_eq, Nat.shiftLeft_eq]
    omega
  rw [hshift, Nat.mod_mod, ← Nat.shiftLeft_add_eq_or_of_lt hmod, Nat.shiftLeft_eq]
  omega

/-! ## The controllers -/

/-- `outb`, as far as the controllers are concerned. -/
def outb (p : PicPair) (port : UInt16) (value : UInt8) : PicPair :=
  if port = 0x20 then { p with master := p.master.command value }
  else if port = 0x21 then { p with master := p.master.data value }
  else if port = 0xA0 then { p with slave := p.slave.command value }
  else if port = 0xA1 then { p with slave := p.slave.data value }
  else p

/-- `irq_remap`. -/
def irqRemap (p : PicPair) : PicPair :=
  let p := outb p 0x20 0x11
  let p := outb p 0xA0 0x11
  let p := outb p 0x21 0x20
  let p := outb p 0xA1 0x28
  let p := outb p 0x21 0x04
  let p := outb p 0xA1 0x02
  let p := outb p 0x21 0x01
  let p := outb p 0xA1 0x01
  let p := outb p 0x21 0x0
  outb p 0xA1 0x0

/-- Where the linker puts the stubs `irq0` to `irq15` and `syscall_handler_asm`. -/
structure Stubs where
  irq : Nat → UInt32
  syscallHandlerAsm : UInt32

/-- `irq_install`. -/
def irqInstall (L : Stubs) (p : PicPair) (idt : Idt) : PicPair × Idt :=
  (irqRemap p,
    setIdtEntry ((List.range 16).foldl (fun idt n => setIdtEntry idt (0x20 + n) (L.irq n)) idt) 0x80
      L.syscallHandlerAsm)

/-- A controller after its initialisation. -/
def initialised (base : UInt8) : Pic where
  request _ := false
  service _ := false
  mask _ := false
  base := base
  phase := .operation

/-- **The controllers are initialised** from whatever state they were in. -/
theorem irqRemap_eq (p : PicPair) : irqRemap p = ⟨initialised 0x20, initialised 0x28⟩ := by
  have hmaster : (0x20 : UInt8) &&& 0xF8 = 0x20 := by decide
  have hslave : (0x28 : UInt8) &&& 0xF8 = 0x28 := by decide
  unfold irqRemap initialised
  simp [outb, Pic.command, Pic.data, hmaster, hslave]

/-- The table as cells. -/
def idtCells : CellStore Idt Nat IdtEntry where
  get idt v := idt v
  set idt v e := Function.update idt v e
  Valid _ := True
  get_set_self idt v e _ := Function.update_self v e idt
  get_set_ne idt _ _ e _ _ h := Function.update_of_ne h e idt

/-- **The entry of each line** is the gate of its stub. -/
theorem irqInstall_entry (L : Stubs) (p : PicPair) (idt : Idt) {n : Nat} (hn : n < 16) :
    (irqInstall L p idt).2 (0x20 + n) = .gate (L.irq n) := by
  have hfold : (List.range 16).foldl (fun idt n => setIdtEntry idt (0x20 + n) (L.irq n)) idt
      = idtCells.writeAll (fun v => .gate (L.irq (v - 0x20))) ((List.range 16).map (0x20 + ·)) idt := by
    unfold CellStore.writeAll
    rw [List.foldl_map]
    refine List.foldl_ext _ _ _ fun idt n _ => ?_
    dsimp only
    rw [Nat.add_sub_cancel_left]
    rfl
  have hget := idtCells.get_writeAll (fun v => .gate (L.irq (v - 0x20)))
    (l := (List.range 16).map (0x20 + ·)) (fun _ _ => trivial) (j := 0x20 + n) trivial idt
  have hmem : 0x20 + n ∈ (List.range 16).map (0x20 + ·) :=
    List.mem_map.mpr ⟨n, List.mem_range.mpr hn, rfl⟩
  rw [if_pos hmem, Nat.add_sub_cancel_left] at hget
  have hne : 0x20 + n ≠ 0x80 := by omega
  unfold irqInstall setIdtEntry
  dsimp only
  rw [Function.update_of_ne hne]
  exact (congrFun hfold _).trans hget

/-! ## Routines -/

/-- What the kernel registers. -/
inductive Routine
  | timerIrqHandler
  | kbHandler
  | fddIrqHandler
  | ne2000IrqHandler
  | e1000Isr
  | apicTimerIsr
  | hpetTimerIsr
  | schedulerInterruptHandler
  deriving DecidableEq

/-- How often a routine ends an interrupt of the first controller before it returns. -/
def Routine.ends : Routine → Nat
  | timerIrqHandler => 1
  | kbHandler => 1
  | fddIrqHandler => 1
  | _ => 0

/-- `irq_routines`. -/
abbrev Routines := Fin 17 → Option Routine

/-- `register_interrupt_handler`, and with nothing `irq_uninstall_handler`. -/
def registerInterruptHandler (routines : Routines) (irq : Fin 17) (r : Option Routine) : Routines :=
  Function.update routines irq r

/-- The routine that `irq_handler` calls for `regs->irq_number`. -/
def calledFor (routines : Routines) (irqNumber : Nat) : Option Routine :=
  if h : irqNumber - 32 < 17 then routines ⟨irqNumber - 32, h⟩ else none

/-- The end of `irq_handler`. -/
def sendEoi (irqNumber : Nat) (p : PicPair) : PicPair :=
  outb (if 40 ≤ irqNumber then outb p 0xA0 0x20 else p) 0x20 0x20

/-- `irq_handler`: what it calls, and the controllers when that has returned. -/
def irqHandler (routines : Routines) (irqNumber : Nat) (p : PicPair) : Option Routine × PicPair :=
  let ends := ((calledFor routines irqNumber).map Routine.ends).getD 0
  (calledFor routines irqNumber, sendEoi irqNumber ((outb · 0x20 0x20)^[ends] p))

section eoi

variable {p : PicPair} {irq : Irq}

theorem outb_master (p : PicPair) : outb p 0x20 0x20 = { p with master := p.master.endOfInterrupt } := rfl

theorem outb_slave (p : PicPair) : outb p 0xA0 0x20 = { p with slave := p.slave.endOfInterrupt } := rfl

theorem iterate_outb (p : PicPair) (j : Nat) :
    (outb · 0x20 0x20)^[j] p = { p with master := Pic.endOfInterrupt^[j] p.master } := by
  induction j with
  | zero => rfl
  | succ j ih => rw [Function.iterate_succ_apply', Function.iterate_succ_apply', ih, outb_master]

theorem number_lt (irq : Irq) : irq.number < 16 := by
  cases irq with
  | master n => exact Nat.lt_of_lt_of_le n.isLt (by decide)
  | slave k => exact Nat.add_lt_add_left k.isLt 8

/-- The line of a number. -/
theorem calledFor_number (routines : Routines) (irq : Irq) :
    calledFor routines (32 + irq.number) = routines ⟨irq.number, by have := number_lt irq; omega⟩ := by
  have hlt := number_lt irq
  have hsub : 32 + irq.number - 32 = irq.number := Nat.add_sub_cancel_left ..
  unfold calledFor
  rw [dif_pos (by omega)]
  exact congrArg routines (Fin.ext hsub)

/-- An interrupt from one of the first lines, with as many ends as the routine likes. -/
theorem sendEoi_master (hidle : p.Idle) (n : Fin 8) (j : Nat) :
    sendEoi (32 + (Irq.master n).number) ((outb · 0x20 0x20)^[j] (p.acknowledge (.master n)))
      = { p with master := { p.master with request := Function.update p.master.request n false } } := by
  have hlt : ¬ 40 ≤ 32 + (Irq.master n).number := by
    have hn := n.isLt
    change ¬ 40 ≤ 32 + n.val
    omega
  have hend := Pic.endOfInterrupt_acknowledge hidle.1 n
  have hiter := Pic.endOfInterrupt_iterate (hidle.1.acknowledge_end n) j
  rw [Function.iterate_succ_apply', hend] at hiter
  rw [sendEoi, if_neg hlt, iterate_outb, outb_master]
  dsimp only [PicPair.acknowledge]
  rw [hiter]

/-- An interrupt from one of the other lines takes the cascade line along. -/
theorem sendEoi_slave (hidle : p.Idle) (k : Fin 8) (j : Nat) :
    sendEoi (32 + (Irq.slave k).number) ((outb · 0x20 0x20)^[j] (p.acknowledge (.slave k)))
      = { p with slave := { p.slave with request := Function.update p.slave.request k false } } := by
  have hle : 40 ≤ 32 + (Irq.slave k).number := by
    change 40 ≤ 32 + (8 + k.val)
    omega
  have hslave := Pic.endOfInterrupt_acknowledge hidle.2 k
  have hservice : ∀ l < cascadeLine,
      Function.update p.master.service cascadeLine true l = false := fun l hl =>
    (Function.update_of_ne hl.ne _ _).trans (hidle.1 l)
  have hmaster : Pic.endOfInterrupt
      { p.master with service := Function.update p.master.service cascadeLine true } = p.master := by
    have hback : Function.update (Function.update p.master.service cascadeLine true) cascadeLine false
        = p.master.service := by
      funext l
      by_cases hl : l = cascadeLine
      · rw [hl, Function.update_self, hidle.1]
      · rw [Function.update_of_ne hl, Function.update_of_ne hl]
    have hline : Function.update p.master.service cascadeLine true cascadeLine = true := by simp
    rw [Pic.endOfInterrupt_service hline hservice]
    dsimp only
    rw [hback]
  have hiter := Pic.endOfInterrupt_iterate (p := { p.master with
    service := Function.update p.master.service cascadeLine true }) (by rw [hmaster]; exact hidle.1) j
  rw [Function.iterate_succ_apply', hmaster] at hiter
  rw [sendEoi, if_pos hle, iterate_outb, outb_slave, outb_master]
  dsimp only [PicPair.acknowledge]
  rw [hslave, hiter]

/-- **`irq_handler`** takes the request away and leaves nothing in service, whatever ends its routine
sends. -/
theorem irqHandler_eq (routines : Routines) (hidle : p.Idle) (irq : Irq) :
    (irqHandler routines (32 + irq.number) (p.acknowledge irq)).2.Idle ∧
    (∀ i, (irqHandler routines (32 + irq.number) (p.acknowledge irq)).2.requested i
      = if i = irq then false else p.requested i) ∧
    (irqHandler routines (32 + irq.number) (p.acknowledge irq)).2.master.base = p.master.base ∧
    (irqHandler routines (32 + irq.number) (p.acknowledge irq)).2.slave.base = p.slave.base ∧
    (irqHandler routines (32 + irq.number) (p.acknowledge irq)).2.master.phase = p.master.phase ∧
    (irqHandler routines (32 + irq.number) (p.acknowledge irq)).2.slave.phase = p.slave.phase := by
  unfold irqHandler
  dsimp only
  cases irq with
  | master n =>
      rw [sendEoi_master hidle n]
      refine ⟨hidle, fun i => ?_, rfl, rfl, rfl, rfl⟩
      cases i with
      | master n' =>
          by_cases hn : n' = n
          · simp [PicPair.requested, hn]
          · simp [PicPair.requested, hn]
      | slave k => simp [PicPair.requested]
  | slave k =>
      rw [sendEoi_slave hidle k]
      refine ⟨hidle, fun i => ?_, rfl, rfl, rfl, rfl⟩
      cases i with
      | master n => simp [PicPair.requested]
      | slave k' =>
          by_cases hk : k' = k
          · simp [PicPair.requested, hk]
          · simp [PicPair.requested, hk]

end eoi

/-! ## Runs -/

/-- The controllers and the tables, with how many requests each line has made and how many calls of
`irq_handler` it has led to. A request of a line that has one already is none. -/
structure Machine where
  pics : PicPair
  idt : Idt
  routines : Routines
  raised : Irq → Nat
  handled : Irq → Nat

namespace Machine

/-- After `irq_install`. -/
def install (L : Stubs) (pics : PicPair) (idt : Idt) (routines : Routines) : Machine :=
  ⟨(irqInstall L pics idt).1, (irqInstall L pics idt).2, routines, fun _ => 0, fun _ => 0⟩

/-- A device has made a request. -/
def request (m : Machine) (irq : Irq) : Machine :=
  { m with
    pics := m.pics.raise irq
    raised := if m.pics.requested irq then m.raised
      else Function.update m.raised irq (m.raised irq + 1) }

/-- An interrupt, from the stub to `iret`. -/
def interrupt (m : Machine) (irq : Irq) : Machine :=
  { m with
    pics := (irqHandler m.routines (32 + irq.number) (m.pics.acknowledge irq)).2
    handled := Function.update m.handled irq (m.handled irq + 1) }

/-- A step: no device is on the cascade line; the drivers write masks and register routines. -/
inductive Step : Machine → Machine → Prop
  | raise {m : Machine} (irq : Irq) : irq ≠ .master cascadeLine → Step m (m.request irq)
  | mask {m : Machine} (port : UInt16) (value : UInt8) : port = 0x21 ∨ port = 0xA1 →
      Step m { m with pics := outb m.pics port value }
  | register {m : Machine} (irq : Fin 17) (r : Option Routine) :
      Step m { m with routines := registerInterruptHandler m.routines irq r }
  | interrupt {m : Machine} (irq : Irq) : m.pics.next = some irq → Step m (m.interrupt irq)

/-- `m'` is reached from `m`. -/
def Reaches : Machine → Machine → Prop := Relation.ReflTransGen Step

/-- What every step keeps. -/
structure Sound (L : Stubs) (m : Machine) : Prop where
  idle : m.pics.Idle
  phase : m.pics.master.phase = .operation ∧ m.pics.slave.phase = .operation
  base : m.pics.master.base = 0x20 ∧ m.pics.slave.base = 0x28
  entry : ∀ n < 16, m.idt (0x20 + n) = .gate (L.irq n)
  count : ∀ irq, m.raised irq = m.handled irq + (m.pics.requested irq).toNat
  cascade : m.pics.requested (.master cascadeLine) = false

section sound

variable {L : Stubs} {m m' : Machine} {irq : Irq}

theorem sound_install (L : Stubs) (pics : PicPair) (idt : Idt) (routines : Routines) :
    (install L pics idt routines).Sound L := by
  have hpics : (install L pics idt routines).pics = ⟨initialised 0x20, initialised 0x28⟩ := irqRemap_eq pics
  refine ⟨?_, ?_, ?_, fun n hn => irqInstall_entry L pics idt hn, fun irq => ?_, ?_⟩
  · rw [hpics]
    exact ⟨fun _ => rfl, fun _ => rfl⟩
  · rw [hpics]
    exact ⟨rfl, rfl⟩
  · rw [hpics]
    exact ⟨rfl, rfl⟩
  · rw [hpics]
    cases irq <;> rfl
  · rw [hpics]
    rfl

theorem requested_raise (p : PicPair) (irq i : Irq) :
    (p.raise irq).requested i = if i = irq then true else p.requested i := by
  cases irq with
  | master n =>
      cases i with
      | master n' =>
          by_cases hn : n' = n
          · simp [PicPair.raise, PicPair.requested, Pic.raise, hn]
          · simp [PicPair.raise, PicPair.requested, Pic.raise, hn]
      | slave k => simp [PicPair.raise, PicPair.requested]
  | slave k =>
      cases i with
      | master n => simp [PicPair.raise, PicPair.requested]
      | slave k' =>
          by_cases hk : k' = k
          · simp [PicPair.raise, PicPair.requested, Pic.raise, hk]
          · simp [PicPair.raise, PicPair.requested, Pic.raise, hk]

/-- A request that is there already is not counted again. -/
theorem Sound.raise (h : m.Sound L) (hne : irq ≠ .master cascadeLine) : (m.request irq).Sound L where
  idle := by
    cases irq with
    | master n => exact h.idle
    | slave k => exact h.idle
  phase := by
    cases irq with
    | master n => exact h.phase
    | slave k => exact h.phase
  base := by
    cases irq with
    | master n => exact h.base
    | slave k => exact h.base
  entry := h.entry
  count i := by
    have hcount := h.count i
    dsimp only [request]
    rw [requested_raise]
    by_cases hi : i = irq
    · rw [hi] at hcount ⊢
      rw [if_pos rfl]
      cases hr : m.pics.requested irq with
      | true =>
          rw [hr] at hcount
          exact hcount
      | false =>
          rw [hr] at hcount
          simpa using hcount
    · rw [if_neg hi]
      split
      · exact hcount
      · rw [Function.update_of_ne hi]
        exact hcount
  cascade := by
    dsimp only [request]
    rw [requested_raise, if_neg hne.symm]
    exact h.cascade

/-- A mask hides a line and forgets nothing. -/
theorem Sound.mask (h : m.Sound L) {port : UInt16} (hport : port = 0x21 ∨ port = 0xA1) (value : UInt8) :
    Sound L { m with pics := outb m.pics port value } := by
  obtain ⟨hidle, ⟨hp1, hp2⟩, hbase, hentry, hcount, hcascade⟩ := h
  rcases hport with rfl | rfl
  · have hout : outb m.pics 0x21 value
        = { m.pics with master := { m.pics.master with mask := fun n => value.toNat.testBit n } } := by
      exact congrArg (fun p => PicPair.mk p m.pics.slave) (Pic.data_operation hp1 value)
    rw [hout]
    exact ⟨hidle, ⟨hp1, hp2⟩, hbase, hentry, fun irq => by cases irq <;> exact hcount _, hcascade⟩
  · have hout : outb m.pics 0xA1 value
        = { m.pics with slave := { m.pics.slave with mask := fun n => value.toNat.testBit n } } := by
      exact congrArg (PicPair.mk m.pics.master) (Pic.data_operation hp2 value)
    rw [hout]
    exact ⟨hidle, ⟨hp1, hp2⟩, hbase, hentry, fun irq => by cases irq <;> exact hcount _, hcascade⟩

/-- **An interrupt** answers the request of its line. -/
theorem Sound.interrupt (h : m.Sound L) (hnext : m.pics.next = some irq) : (m.interrupt irq).Sound L := by
  obtain ⟨hidle, hrequested, hb1, hb2, hp1, hp2⟩ := irqHandler_eq m.routines h.idle irq
  obtain ⟨hr, -⟩ := PicPair.requested_of_next hnext
  refine ⟨hidle, ⟨hp1.trans h.phase.1, hp2.trans h.phase.2⟩, ⟨hb1.trans h.base.1, hb2.trans h.base.2⟩,
    h.entry, fun i => ?_, ?_⟩
  · have hcount := h.count i
    dsimp only [Machine.interrupt]
    rw [hrequested]
    by_cases hi : i = irq
    · rw [hi, hr] at hcount
      rw [hi, if_pos rfl, Function.update_self]
      simpa using hcount
    · rw [if_neg hi, Function.update_of_ne hi]
      exact hcount
  · dsimp only [Machine.interrupt]
    rw [hrequested]
    split
    · rfl
    · exact h.cascade

theorem Sound.step (h : m.Sound L) (hs : Step m m') : m'.Sound L := by
  cases hs with
  | raise irq hne => exact h.raise hne
  | mask port value hport => exact h.mask hport value
  | register irq r => exact ⟨h.idle, h.phase, h.base, h.entry, h.count, h.cascade⟩
  | interrupt irq hnext => exact h.interrupt hnext

theorem Reaches.sound (hr : Reaches m m') (h : m.Sound L) : m'.Sound L := by
  induction hr with
  | refl => exact h
  | tail _ hs ih => exact ih.step hs

/-- The vector of a line is 32 and its number. -/
theorem Sound.vector_eq (h : m.Sound L) (irq : Irq) : (m.pics.vector irq).toNat = 0x20 + irq.number := by
  cases irq with
  | master n =>
      have hn := n.isLt
      have hlt : 0x20 + n.val < 256 := by omega
      rw [PicPair.vector, h.base.1, UInt8.toNat_add, UInt8.toNat_ofNat']
      change (32 + n.val % 256) % 256 = 32 + n.val
      omega
  | slave k =>
      have hk := k.isLt
      rw [PicPair.vector, h.base.2, UInt8.toNat_add, UInt8.toNat_ofNat']
      change (40 + k.val % 256) % 256 = 32 + (8 + k.val)
      omega

/-- **Interrupts are neither lost nor handled twice**, one is delivered as long as a line that is not
masked waits, and each one goes to the stub of its line, of which `irq_handler` calls the routine. -/
theorem interrupts_handled (pics : PicPair) (idt : Idt) (routines : Routines)
    (hr : Reaches (install L pics idt routines) m) :
    (∀ irq, m.raised irq = m.handled irq + (m.pics.requested irq).toNat) ∧
    ((∃ irq, m.pics.next = some irq) ↔
      ∃ irq, m.pics.requested irq = true ∧ m.pics.masked irq = false) ∧
    ∀ irq, m.pics.next = some irq → m.pics.requested irq = true ∧ m.pics.masked irq = false ∧
      (m.idt (m.pics.vector irq).toNat).target = L.irq irq.number ∧
      (irqHandler m.routines (32 + irq.number) (m.pics.acknowledge irq)).1
        = m.routines ⟨irq.number, by have := number_lt irq; omega⟩ := by
  have h := hr.sound (sound_install L pics idt routines)
  refine ⟨h.count, ?_, fun irq hnext => ?_⟩
  · rw [← Option.isSome_iff_exists, h.idle.next_isSome]
    refine exists_congr fun irq => ⟨fun hi => hi.2, fun hi => ⟨fun heq => ?_, hi⟩⟩
    have hcascade := h.cascade
    rw [← heq, hi.1] at hcascade
    cases hcascade
  · obtain ⟨hreq, hmask⟩ := PicPair.requested_of_next hnext
    refine ⟨hreq, hmask, ?_, calledFor_number m.routines irq⟩
    rw [h.vector_eq irq, h.entry _ (number_lt irq)]
    exact target_gate _

end sound

/-- Controllers in the middle of something. -/
def unknownPics : PicPair :=
  ⟨⟨fun _ => true, fun _ => true, fun _ => true, 0x08, .icw3⟩,
    ⟨fun _ => true, fun _ => true, fun _ => true, 0x70, .operation⟩⟩

/-- A key is pressed after `irq_install`. -/
theorem interrupts_handled_key :
    ∃ irq, ((install ⟨fun n => 0x100000 + 7 * UInt32.ofNat n, 0x200000⟩ unknownPics
      (fun _ => .gate 0) fun _ => none).request (.master ⟨1, by decide⟩)).pics.next = some irq := by
  obtain ⟨-, hnext, -⟩ := interrupts_handled (L := ⟨fun n => 0x100000 + 7 * UInt32.ofNat n, 0x200000⟩)
    unknownPics (fun _ => .gate 0) (fun _ => none)
    (Relation.ReflTransGen.single (.raise (.master ⟨1, by decide⟩) (by decide)))
  exact hnext.mpr ⟨.master ⟨1, by decide⟩, rfl, rfl⟩

end Machine

end MicroKernel.Cpu
