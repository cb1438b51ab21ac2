/-
The two interrupt controllers (`drivers/pic.c`, `drivers/include/pic.h`).

The kernel talks to the controllers through four ports. What a controller does with a byte depends on the bytes before it: a
command with the initialization bit set starts a sequence of three more bytes on the data port, and outside of the sequence the
data port is the mask. A controller keeps the lines that are requested and the lines that are in service. It passes a request on
if no line of the same or a higher priority is in service, and the end-of-interrupt command ends the service of the line with the
highest priority, whoever sends it.

- `picInit_eq`: whatever the state of the two controllers, `pic_init` leaves them programmed and their masks as they were;
- `hardwareInterrupts_eq`: `init_hardware_interrupts` then unmasks the timer and the keyboard, and no other line;
- `endOfInterrupt_first`, `pending_free`: what the commands and requests do, in terms of the lines in service.

The controllers are modelled as the comments of `pic.c` describe them. Commands that the kernel does not use change nothing.
-/
import Mathlib.Tactic

namespace Gubos.Pic

/-! ## The controllers -/

/-- the byte that a controller expects on its data port: a mask, or ICW2, ICW3, ICW4 of an initialization; `ic4` says whether
ICW4 comes at all -/
inductive Phase where
  | ready
  | icw2 (ic4 : Bool)
  | icw3 (ic4 : Bool)
  | icw4
deriving DecidableEq, Repr

/-- a controller: lines requested, lines in service, the mask, and what the initialization has set -/
structure Controller where
  irr : ℕ → Bool
  isr : ℕ → Bool
  imr : BitVec 8
  offset : ℕ
  cascade : BitVec 8
  x86 : Bool
  phase : Phase

namespace Controller

/-- the line in service with the highest priority -/
def inService (c : Controller) : Option ℕ := (List.range 8).find? c.isr

/-- the end-of-interrupt command -/
def endOfInterrupt (c : Controller) : Controller :=
  match c.inService with
  | some n => { c with isr := Function.update c.isr n false }
  | none => c

/-- a byte on the control port: an initialization clears requests, services and mask; of the other commands the kernel uses the
end of interrupt -/
def command (c : Controller) (v : BitVec 8) : Controller :=
  if v.getLsbD 4 then { c with irr := fun _ => false, isr := fun _ => false, imr := 0, phase := .icw2 (v.getLsbD 0) }
  else if v = 0x20 then c.endOfInterrupt
  else c

/-- a byte on the data port; the vector of line 0 is a multiple of 8 -/
def data (c : Controller) (v : BitVec 8) : Controller :=
  match c.phase with
  | .ready => { c with imr := v }
  | .icw2 ic4 => { c with offset := v.toNat / 8 * 8, phase := .icw3 ic4 }
  | .icw3 ic4 => { c with cascade := v, phase := if ic4 then .icw4 else .ready }
  | .icw4 => { c with x86 := v.getLsbD 0, phase := .ready }

/-- is a line of this or a higher priority in service? -/
def blocked (c : Controller) (n : ℕ) : Bool := (List.range (n + 1)).any c.isr

/-- the request that is passed on: the first that is not masked, if it is not blocked -/
def pending (c : Controller) : Option ℕ :=
  (List.range 8).find? fun n => c.irr n && !c.imr.getLsbD n && !c.blocked n

/-- the processor takes the request -/
def acknowledge (c : Controller) (n : ℕ) : Controller :=
  { c with irr := Function.update c.irr n false, isr := Function.update c.isr n true }

/-- a line is raised -/
def raise (c : Controller) (n : ℕ) : Controller := { c with irr := Function.update c.irr n true }

end Controller

/-- the master and the slave, which is connected to line 2 of the master -/
structure Pics where
  master : Controller
  slave : Controller

/-! ## The code -/

/-- `PIC1_CONTROL`, `PIC1_DATA`, `PIC2_CONTROL`, `PIC2_DATA` -/
def pic1Control : ℕ := 0x20
def pic1Data : ℕ := 0x21
def pic2Control : ℕ := 0xa0
def pic2Data : ℕ := 0xa1

/-- `PIC1_INT_OFFSET`, `PIC2_INT_OFFSET`, and the bits of the commands -/
def pic1IntOffset : BitVec 8 := 0x20
def pic2IntOffset : BitVec 8 := pic1IntOffset + 8
def picIcw1Ic4 : BitVec 8 := 1
def picIcw1Init : BitVec 8 := 1 <<< 4
def picIcw4X86 : BitVec 8 := 1
def picOcw2Eoi : BitVec 8 := 1 <<< 5

/-- `PIC_IRQ0`, `PIC_IRQ1` -/
def picIrq0 : ℕ := 0
def picIrq1 : ℕ := 1

/-- `inb`, on the data ports -/
def inb (s : Pics) (port : ℕ) : BitVec 8 := if port = pic1Data then s.master.imr else s.slave.imr

/-- `outb`; the write to port 0x80 in `io_wait` reaches neither controller -/
def outb (s : Pics) (port : ℕ) (value : BitVec 8) : Pics :=
  if port = pic1Control then { s with master := s.master.command value }
  else if port = pic1Data then { s with master := s.master.data value }
  else if port = pic2Control then { s with slave := s.slave.command value }
  else if port = pic2Data then { s with slave := s.slave.data value }
  else s

/-- `pic_init` -/
def picInit (s : Pics) : Pics :=
  let mask1 := inb s pic1Data
  let mask2 := inb s pic2Data
  let s := outb s pic1Control (picIcw1Ic4 ||| picIcw1Init)
  let s := outb s pic2Control (picIcw1Ic4 ||| picIcw1Init)
  let s := outb s pic1Data pic1IntOffset
  let s := outb s pic2Data pic2IntOffset
  let s := outb s pic1Data (1 <<< 2)
  let s := outb s pic2Data 2
  let s := outb s pic1Data picIcw4X86
  let s := outb s pic2Data picIcw4X86
  let s := outb s pic1Data mask1
  outb s pic2Data mask2

/-- `pic_send_eoi` -/
def picSendEoi (s : Pics) (irq : ℕ) : Pics :=
  let s := if irq ≥ 8 then outb s pic2Control picOcw2Eoi else s
  outb s pic1Control picOcw2Eoi

/-- `pic_clear_mask` -/
def picClearMask (s : Pics) (irq : ℕ) : Pics :=
  let (port, irq) := if irq < 8 then (pic1Data, irq) else (pic2Data, irq - 8)
  let value := inb s port &&& ~~~(1#8 <<< irq)
  outb s port value

/-- `init_hardware_interrupts`, the part for the controllers -/
def initHardwareInterrupts (s : Pics) : Pics := picClearMask (picClearMask (picInit s) picIrq0) picIrq1

/-! ## What they are programmed to -/

/-- a controller after the initialization -/
def programmed (imr : BitVec 8) (offset : ℕ) (cascade : BitVec 8) : Controller where
  irr := fun _ => false
  isr := fun _ => false
  imr := imr
  offset := offset
  cascade := cascade
  x86 := true
  phase := .ready

/-- **`pic_init`**, from any state of the controllers, also in the middle of an initialization. -/
theorem picInit_eq (s : Pics) : picInit s = ⟨programmed s.master.imr 0x20 4, programmed s.slave.imr 0x28 2⟩ := rfl

/-- the mask after one bit is cleared -/
theorem clearMask_bit (v : BitVec 8) {irq n : ℕ} (hirq : irq < 8) :
    (v &&& ~~~(1#8 <<< irq)).getLsbD n = (v.getLsbD n && decide (n ≠ irq)) := by
  have hbit : ∀ irq < 8, ∀ n < 8, (1#8 <<< irq).getLsbD n = decide (n = irq) := by decide
  by_cases hn : n < 8
  · rw [BitVec.getLsbD_and, BitVec.getLsbD_not, hbit irq hirq n hn]
    simp [hn]
  · rw [BitVec.getLsbD_of_ge _ _ (not_lt.1 hn), BitVec.getLsbD_of_ge _ _ (not_lt.1 hn), Bool.false_and]

/-- the state after `init_hardware_interrupts`: only the mask of the master depends on the state before -/
theorem hardwareInterrupts_eq (s : Pics) :
    ∃ imr, initHardwareInterrupts s = ⟨programmed imr 0x20 4, programmed s.slave.imr 0x28 2⟩ ∧
      ∀ n, imr.getLsbD n = (s.master.imr.getLsbD n && decide (2 ≤ n)) := by
  refine ⟨(s.master.imr &&& ~~~(1#8 <<< 0)) &&& ~~~(1#8 <<< 1), ?_, fun n => ?_⟩
  · unfold initHardwareInterrupts
    rw [picInit_eq]
    rfl
  · rw [clearMask_bit _ (by decide), clearMask_bit _ (by decide), Bool.and_assoc, ← Bool.decide_and]
    congr 2
    exact propext (by omega)

/-! ## Requests and services -/

section Lines

variable {c : Controller} {n m : ℕ}

theorem find_range_some {p : ℕ → Bool} (h : (List.range 8).find? p = some n) : n < 8 ∧ p n = true ∧ ∀ m < n, p m = false := by
  have hmem := List.mem_of_find?_eq_some h
  refine ⟨List.mem_range.1 hmem, List.find?_some h, fun m hm => ?_⟩
  rw [List.find?_range_eq_some] at h
  simpa using h.2.2 m hm

/-- the end of interrupt, when the first line in service is known -/
theorem endOfInterrupt_first (hn : n < 8) (hisr : c.isr n = true) (hfirst : ∀ m < n, c.isr m = false) :
    c.endOfInterrupt = { c with isr := Function.update c.isr n false } := by
  have hfind : c.inService = some n := by
    unfold Controller.inService
    rw [List.find?_range_eq_some]
    refine ⟨hisr, List.mem_range.2 hn, fun m hm => ?_⟩
    rw [hfirst m hm]
    rfl
  unfold Controller.endOfInterrupt
  rw [hfind]

/-- a request that is passed on: no line up to it is in service -/
theorem pending_free (h : c.pending = some n) : n < 8 ∧ c.irr n = true ∧ ∀ m ≤ n, c.isr m = false := by
  obtain ⟨hn, hp, _⟩ := find_range_some h
  simp only [Bool.and_eq_true, Bool.not_eq_true', Controller.blocked] at hp
  refine ⟨hn, hp.1.1, fun m hm => ?_⟩
  have hany := List.any_eq_false.1 hp.2 m (List.mem_range.2 (Nat.lt_succ_of_le hm))
  simpa using hany

end Lines

end Gubos.Pic
