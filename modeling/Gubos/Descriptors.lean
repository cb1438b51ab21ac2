/-
The descriptor tables (`gdt.c`, `interrupts/idt.c`, `interrupts/handlers.c`).

The fields of a descriptor are scattered over its bytes: `set_segment_descriptor` and `set_idt_gate` take an address and a limit
apart, and the processor puts them together again. `idt_init` fills the table for the architecture's exceptions, for the two
hardware interrupts the kernel handles, and for all vectors from 34 on. Vector 15 and the vectors 22 to 31 stay zero.

- `segment_round_trip`: the processor reads what `set_segment_descriptor` was given, the limit in 20 bits;
- `gdt_segments`: the segments of `gdt_init`, for every place of the TSS;
- `idtInit_eq`: the gate of every vector, by the rule for a table that is filled in a loop;
- `interrupt_routing`: for every vector, where an interrupt goes that the hardware raises or a user program executes. The handler
  takes an error code exactly when the processor pushes one, and `int n` in user mode halts the kernel for every n but 80.

What the processor does with a gate is `deliver`, as in the Intel manual that `gdt.h` and `handlers.h` cite.
-/
import Gubos.Core.Bytes

namespace Gubos.Descriptors

open Gubos.Core

/-! ## Segments -/

/-- `segment_descriptor_t` -/
structure SegmentDescriptor where
  limitLow : ℕ
  baseLow : ℕ
  baseMiddle : ℕ
  accessType : ℕ
  flags : ℕ
  baseHigh : ℕ
deriving DecidableEq, Repr

/-- the descriptor that `set_segment_descriptor` writes; the fields have 8 and 16 bits -/
def segmentDescriptor (base limit accessType flags : ℕ) : SegmentDescriptor where
  baseLow := base &&& 0xffff
  baseMiddle := (base >>> 16) &&& 0xff
  baseHigh := (base >>> 24) % 256
  accessType := accessType % 256
  limitLow := limit &&& 0xffff
  flags := ((limit >>> 16) &&& 0x0f) ||| (flags <<< 4 % 256)

abbrev Gdt := ℕ → SegmentDescriptor

/-- `set_segment_descriptor` -/
def setSegmentDescriptor (gdt : Gdt) (i base limit accessType flags : ℕ) : Gdt :=
  Function.update gdt i (segmentDescriptor base limit accessType flags)

/-- `GDT_KERNEL_CODE_SEGMENT`, `GDT_KERNEL_DATA_SEGMENT`, `GDT_USER_CODE_SEGMENT`, `GDT_USER_DATA_SEGMENT`,
`GDT_TASK_STATE_SEGMENT` -/
def gdtKernelCodeSegment : ℕ := 0x8
def gdtKernelDataSegment : ℕ := 0x10
def gdtUserCodeSegment : ℕ := 0x18
def gdtUserDataSegment : ℕ := 0x20
def gdtTaskStateSegment : ℕ := 0x28

/-- the flags of `gdt.h` -/
def gdtGranularityFlag : ℕ := 0b1000
def gdtDbFlag : ℕ := 0b100
def gdtSegmentPresentFlag : ℕ := 0b10000000
def gdtCodeOrDataDescriptorFlag : ℕ := 0b00010000
def gdtDpl3Flag : ℕ := 0b01100000
def gdtCodeExecuteReadSegType : ℕ := 0b1010
def gdtCodeExecuteOnlyAccessed : ℕ := 0b1001
def gdtDataReadWriteSegType : ℕ := 0b0010

/-- `sizeof(task_state_segment_t)` -/
def tssSize : ℕ := 108

/-- the table that `gdt_init` loads; `tss` is the address of the TSS -/
def gdtInit (tss : ℕ) (gdt : Gdt) : Gdt :=
  let gdt := setSegmentDescriptor gdt 0 0 0 0 0
  let kernelCodeDescFlags := gdtSegmentPresentFlag ||| gdtCodeOrDataDescriptorFlag ||| gdtCodeExecuteReadSegType
  let gdt := setSegmentDescriptor gdt 1 0 0xFFFFFFFF kernelCodeDescFlags (gdtGranularityFlag ||| gdtDbFlag)
  let kernelDataDescFlags := gdtSegmentPresentFlag ||| gdtCodeOrDataDescriptorFlag ||| gdtDataReadWriteSegType
  let gdt := setSegmentDescriptor gdt 2 0 0xFFFFFFFF kernelDataDescFlags (gdtGranularityFlag ||| gdtDbFlag)
  let gdt := setSegmentDescriptor gdt 3 0 0xFFFFFFFF (kernelCodeDescFlags ||| gdtDpl3Flag) (gdtGranularityFlag ||| gdtDbFlag)
  let gdt := setSegmentDescriptor gdt 4 0 0xFFFFFFFF (kernelDataDescFlags ||| gdtDpl3Flag) (gdtGranularityFlag ||| gdtDbFlag)
  let tssDescFlags := gdtSegmentPresentFlag ||| gdtCodeExecuteOnlyAccessed
  setSegmentDescriptor gdt 5 tss (tssSize - 1) tssDescFlags 0x0

/-- a segment as the processor sees it: `kind` is the S flag and the segment type, `lastByte` the last offset in the segment -/
structure Segment where
  base : ℕ
  lastByte : ℕ
  present : Bool
  dpl : ℕ
  kind : ℕ
  is32Bit : Bool
deriving DecidableEq, Repr

/-- base and limit put together; a limit with the granularity flag counts pages -/
def SegmentDescriptor.base (d : SegmentDescriptor) : ℕ := d.baseLow + d.baseMiddle * 2 ^ 16 + d.baseHigh * 2 ^ 24
def SegmentDescriptor.limit (d : SegmentDescriptor) : ℕ := d.limitLow + d.flags % 16 * 2 ^ 16

def SegmentDescriptor.segment (d : SegmentDescriptor) : Segment where
  base := d.base
  lastByte := if d.flags.testBit 7 then d.limit * 4096 + 4095 else d.limit
  present := d.accessType.testBit 7
  dpl := d.accessType / 32 % 4
  kind := d.accessType % 32
  is32Bit := d.flags.testBit 6

/-- the segment that a selector selects; its low three bits are not part of the index -/
def select (gdt : Gdt) (selector : ℕ) : Segment := (gdt (selector / 8)).segment

theorem flags_eq (limit flags : ℕ) (hflags : flags < 16) :
    ((limit >>> 16) &&& 0x0f) ||| (flags <<< 4 % 256) = limit / 65536 % 16 + flags * 16 := by
  have hmod : (limit >>> 16) &&& 0x0f = limit / 65536 % 16 := by
    rw [Nat.and_two_pow_sub_one_eq_mod _ 4, Nat.shiftRight_eq_div_pow]
  have hlt : limit / 65536 % 16 < 2 ^ 4 := Nat.mod_lt _ (by decide)
  have hshift : flags <<< 4 % 256 = flags <<< 4 := by
    rw [Nat.shiftLeft_eq]
    omega
  calc ((limit >>> 16) &&& 0x0f) ||| (flags <<< 4 % 256) = flags <<< 4 ||| limit / 65536 % 16 := by
        rw [hmod, hshift, Nat.or_comm]
    _ = flags <<< 4 + limit / 65536 % 16 := (Nat.shiftLeft_add_eq_or_of_lt hlt flags).symm
    _ = limit / 65536 % 16 + flags * 16 := by rw [Nat.shiftLeft_eq, Nat.add_comm]

/-- **Descriptors are read back.** The limit keeps its 20 low bits. -/
theorem segment_round_trip {base limit accessType flags : ℕ} (hbase : base < 2 ^ 32) (haccess : accessType < 256)
    (hflags : flags < 16) :
    (segmentDescriptor base limit accessType flags).base = base ∧
    (segmentDescriptor base limit accessType flags).limit = limit % 2 ^ 20 ∧
    (segmentDescriptor base limit accessType flags).accessType = accessType ∧
    (segmentDescriptor base limit accessType flags).flags / 16 = flags := by
  have hlow : base &&& 0xffff = base % 65536 := Nat.and_two_pow_sub_one_eq_mod base 16
  have hmiddle : (base >>> 16) &&& 0xff = base / 65536 % 256 := by
    rw [Nat.and_two_pow_sub_one_eq_mod _ 8, Nat.shiftRight_eq_div_pow]
  have hhigh : base >>> 24 = base / 16777216 := Nat.shiftRight_eq_div_pow base 24
  have hlimit : limit &&& 0xffff = limit % 65536 := Nat.and_two_pow_sub_one_eq_mod limit 16
  have hf := flags_eq limit flags hflags
  simp only [SegmentDescriptor.base, SegmentDescriptor.limit, segmentDescriptor, hlow, hmiddle, hhigh, hlimit, hf]
  refine ⟨?_, ?_, ?_, ?_⟩
  · omega
  · omega
  · exact Nat.mod_eq_of_lt haccess
  · omega

/-- the flat segment of a privilege level: all of the address space, 32-bit -/
def flat (kind dpl : ℕ) : Segment := ⟨0, 2 ^ 32 - 1, true, dpl, kind, true⟩

/-- **The segments of `gdt_init`.** Code and data cover the whole address space, in both privilege levels, whether or not the
selector asks for a privilege level; and the TSS is found wherever it is. -/
theorem gdt_segments (gdt : Gdt) {tss rpl : ℕ} (htss : tss < 2 ^ 32) (hrpl : rpl < 4) :
    select (gdtInit tss gdt) (gdtKernelCodeSegment + rpl) = flat 0b11010 0 ∧
    select (gdtInit tss gdt) (gdtKernelDataSegment + rpl) = flat 0b10010 0 ∧
    select (gdtInit tss gdt) (gdtUserCodeSegment + rpl) = flat 0b11010 3 ∧
    select (gdtInit tss gdt) (gdtUserDataSegment + rpl) = flat 0b10010 3 ∧
    select (gdtInit tss gdt) gdtTaskStateSegment = ⟨tss, tssSize - 1, true, 0, 0b01001, false⟩ := by
  have hindex : ∀ i, (8 * i + rpl) / 8 = i := fun i => by omega
  have hselect : ∀ i d, gdtInit tss gdt i = d → select (gdtInit tss gdt) (8 * i + rpl) = d.segment := by
    rintro i d rfl
    rw [select, hindex]
  have hcode : gdtInit tss gdt 1 = segmentDescriptor 0 0xFFFFFFFF 0b10011010 0b1100 := rfl
  have hdata : gdtInit tss gdt 2 = segmentDescriptor 0 0xFFFFFFFF 0b10010010 0b1100 := rfl
  have huserCode : gdtInit tss gdt 3 = segmentDescriptor 0 0xFFFFFFFF 0b11111010 0b1100 := rfl
  have huserData : gdtInit tss gdt 4 = segmentDescriptor 0 0xFFFFFFFF 0b11110010 0b1100 := rfl
  refine ⟨(hselect 1 _ hcode).trans (by decide), (hselect 2 _ hdata).trans (by decide),
    (hselect 3 _ huserCode).trans (by decide), (hselect 4 _ huserData).trans (by decide), ?_⟩
  have hbase := (@segment_round_trip tss (tssSize - 1) (gdtSegmentPresentFlag ||| gdtCodeExecuteOnlyAccessed) 0 htss (by decide)
    (by decide)).1
  change (segmentDescriptor tss (tssSize - 1) (gdtSegmentPresentFlag ||| gdtCodeExecuteOnlyAccessed) 0).segment = _
  -- the other fields do not depend on where it is
  have hrest : ∀ d : SegmentDescriptor, d.limitLow = tssSize - 1 → d.accessType = 0b10001001 → d.flags = 0 → d.base = tss →
      d.segment = ⟨tss, tssSize - 1, true, 0, 0b01001, false⟩ := by
    intro d h1 h2 h3 h4
    simp [SegmentDescriptor.segment, SegmentDescriptor.limit, h1, h2, h3, h4]
    decide
  exact hrest _ rfl rfl rfl hbase

/-- the selectors of user mode, as `init_goto_user_mode` pushes them -/
theorem gdt_segments_user :
    select (gdtInit 0xC0200000 fun _ => segmentDescriptor 0 0 0 0) 0x1B = flat 0b11010 3 ∧
    select (gdtInit 0xC0200000 fun _ => segmentDescriptor 0 0 0 0) 0x23 = flat 0b10010 3 := by
  have h := @gdt_segments (fun _ => segmentDescriptor 0 0 0 0) 0xC0200000 3 (by decide) (by decide)
  exact ⟨h.2.2.1, h.2.2.2.1⟩

/-! ## Interrupts -/

/-- the handlers whose addresses are in the table: those of `handlers.c`, `default_exception_handler`, `timer_irq_handler`,
`keyboard_irq_handler` and `syscall_interrupt_handler` -/
inductive Isr where
  | divideErrorException | debugException | nmiInterrupt | breakpointException | overflowException
  | boundRangeExceededException | invalidOpcodeException | deviceNotAvailableException | doubleFaultException
  | coprocessorSegmentOverrun | invalidTssException | segmentNotPresent | stackFaultException
  | generalProtectionException | pageFaultException | x87FpuFloatingPointError | alignmentCheckException
  | machineCheckException | simdFloatingPointException | virtualizationException | controlProtectionException
  | timerIrq | keyboardIrq | default | syscallInterrupt
deriving DecidableEq, Repr

/-- does the handler have the parameter `err_code`? -/
def Isr.takesErrCode : Isr → Bool
  | .doubleFaultException | .invalidTssException | .segmentNotPresent | .stackFaultException | .generalProtectionException
  | .pageFaultException | .alignmentCheckException | .controlProtectionException => true
  | _ => false

/-- the name a handler gives in its `PANIC`; `page_fault_exception_handler` and the handlers of `idt.c` but the default one go on
to other functions -/
def Isr.panicName : Isr → Option String
  | .divideErrorException => some "divide_error_exception"
  | .debugException => some "debug_exception"
  | .nmiInterrupt => some "nmi_interrupt"
  | .breakpointException => some "breakpoint_exception"
  | .overflowException => some "overflow_exception"
  | .boundRangeExceededException => some "bound_range_exceeded_exception"
  | .invalidOpcodeException => some "invalid_opcode_exception"
  | .deviceNotAvailableException => some "device_not_available_exception"
  | .doubleFaultException => some "double_fault_exception"
  | .coprocessorSegmentOverrun => some "coprocessor_segment_overrun"
  | .invalidTssException => some "invalid_tss_exception"
  | .segmentNotPresent => some "segment_not_present"
  | .stackFaultException => some "stack_fault_exception"
  | .generalProtectionException => some "general_protection_exception"
  | .x87FpuFloatingPointError => some "x87_fpu_floating_point_error"
  | .alignmentCheckException => some "alignment_check_exception"
  | .machineCheckException => some "machine_check_exception"
  | .simdFloatingPointException => some "simd_floating_point_exception"
  | .virtualizationException => some "virtualization_exception"
  | .controlProtectionException => some "control_protection_exception"
  | .default => some "received interrupt"
  | .pageFaultException | .timerIrq | .keyboardIrq | .syscallInterrupt => none

/-- the format of its message -/
def Isr.panicFormat (isr : Isr) : Option String :=
  isr.panicName.map fun name =>
    name ++ " (eflags=%#x, cs=%d, eip=%d" ++ (if isr.takesErrCode then ", error=%d" else "") ++ ")\n"

/-- `idt_gate_descriptor_t` -/
structure IdtGateDescriptor where
  addrLow : ℕ
  segmentSelector : ℕ
  reserved : ℕ
  flags : ℕ
  addrHigh : ℕ
deriving DecidableEq, Repr

/-- the gate that `set_idt_gate` writes -/
def idtGate (isrAddr flags : ℕ) : IdtGateDescriptor where
  addrLow := isrAddr &&& 0xffff
  segmentSelector := gdtKernelCodeSegment
  flags := flags
  addrHigh := (isrAddr >>> 16) &&& 0xffff
  reserved := 0

abbrev Idt := ℕ → IdtGateDescriptor

/-- `set_idt_gate`; the vector has 8 bits -/
def setIdtGate (idt : Idt) (vector isrAddr flags : ℕ) : Idt := Function.update idt (vector % 256) (idtGate isrAddr flags)

/-- the flags of `idt.h` -/
def idtIntGateFlags : ℕ := 0b00000110
def idtTrapGateFlags : ℕ := 0b00000111
def idt32BitGateSize : ℕ := 0b00001000
def idtUserDpl : ℕ := 0b01100000
def idtKernelDpl : ℕ := 0b00000000
def idtSegPresent : ℕ := 0b10000000
def idtReservedIntCount : ℕ := 32
def idtSyscallInt : ℕ := 80
def idtGateDescriptorCount : ℕ := 256

def trapFlags : ℕ := idtTrapGateFlags ||| idtSegPresent ||| idtKernelDpl ||| idt32BitGateSize
def userFlags : ℕ := idtIntGateFlags ||| idtSegPresent ||| idtUserDpl ||| idt32BitGateSize

/-- the exceptions, in the order of `idt_init`, with their numbers from `handlers.h` -/
def exceptions : List (ℕ × Isr) :=
  [(0, .divideErrorException), (1, .debugException), (2, .nmiInterrupt), (3, .breakpointException), (4, .overflowException),
   (5, .boundRangeExceededException), (6, .invalidOpcodeException), (7, .deviceNotAvailableException),
   (8, .doubleFaultException), (9, .coprocessorSegmentOverrun), (10, .invalidTssException), (11, .segmentNotPresent),
   (12, .stackFaultException), (13, .generalProtectionException), (14, .pageFaultException), (16, .x87FpuFloatingPointError),
   (17, .alignmentCheckException), (18, .machineCheckException), (19, .simdFloatingPointException),
   (20, .virtualizationException), (21, .controlProtectionException)]

/-- the gates of a list of handlers -/
def setGates (isrAddr : Isr → ℕ) (flags : ℕ) (gates : List (ℕ × Isr)) (idt : Idt) : Idt :=
  gates.foldl (fun idt g => setIdtGate idt g.1 (isrAddr g.2) flags) idt

/-- the gates that `init_hardware_interrupts` sets -/
def hardware : List (ℕ × Isr) := [(idtReservedIntCount, .timerIrq), (idtReservedIntCount + 1, .keyboardIrq)]

/-- the loops of `idt_init`, from `first` up to `last` -/
def defaults (first last : ℕ) : List (ℕ × Isr) := (List.range' first (last - first)).map fun i => (i, .default)

/-- the table that `idt_init` loads; `isrAddr` is where the handlers are -/
def idtInit (isrAddr : Isr → ℕ) (idt : Idt) : Idt :=
  let idt := setGates isrAddr trapFlags exceptions idt
  let idt := setGates isrAddr trapFlags hardware idt
  let idt := setGates isrAddr userFlags (defaults (idtReservedIntCount + 2) idtSyscallInt) idt
  let idt := setIdtGate idt idtSyscallInt (isrAddr .syscallInterrupt) userFlags
  setGates isrAddr userFlags (defaults (idtSyscallInt + 1) idtGateDescriptorCount) idt

/-- the table is a static variable -/
def zeroed : Idt := fun _ => ⟨0, 0, 0, 0, 0⟩

/-! ## The gate of every vector -/

/-- the handler of a vector -/
def handlerAt (n : ℕ) : Option Isr :=
  if n < 32 then exceptions.lookup n
  else if n = 32 then some .timerIrq
  else if n = 33 then some .keyboardIrq
  else if n = 80 then some .syscallInterrupt
  else some .default

def flagsAt (n : ℕ) : ℕ := if n < 34 then trapFlags else userFlags

/-- a table that is filled entry by entry, each vector once -/
theorem setGates_apply (isrAddr : Isr → ℕ) (flags : ℕ) {gates : List (ℕ × Isr)} (idt : Idt) (n : ℕ)
    (hnd : (gates.map Prod.fst).Nodup) (hlt : ∀ g ∈ gates, g.1 < 256) :
    setGates isrAddr flags gates idt n =
      match gates.lookup n with
      | some isr => idtGate (isrAddr isr) flags
      | none => idt n := by
  induction gates generalizing idt with
  | nil => rfl
  | cons g gates ih =>
    rw [List.map_cons, List.nodup_cons] at hnd
    have hg : g.1 % 256 = g.1 := Nat.mod_eq_of_lt (hlt g List.mem_cons_self)
    have hrest := ih (setIdtGate idt g.1 (isrAddr g.2) flags) hnd.2 fun g' hg' => hlt g' (List.mem_cons_of_mem _ hg')
    change setGates isrAddr flags gates (setIdtGate idt g.1 (isrAddr g.2) flags) n = _
    rw [hrest]
    by_cases hn : n = g.1
    · subst hn
      -- no later gate is for this vector
      have hnone : gates.lookup g.1 = none := by
        refine List.lookup_eq_none_iff.2 fun g' hg' => ?_
        simp only [bne_iff_ne, ne_eq]
        exact fun he => hnd.1 (he ▸ List.mem_map_of_mem hg')
      rw [hnone, List.lookup_cons, beq_self_eq_true]
      simp only [setIdtGate, hg, Function.update_self]
    · have hbeq : (n == g.1) = false := beq_eq_false_iff_ne.2 hn
      rw [List.lookup_cons, hbeq]
      cases gates.lookup n with
      | some isr => rfl
      | none => simp only [setIdtGate, hg, Function.update_of_ne hn]

/-- a vector that is in none of the gates -/
theorem lookup_none {gates : List (ℕ × Isr)} {n : ℕ} (h : ∀ g ∈ gates, n ≠ g.1) : gates.lookup n = none := by
  refine List.lookup_eq_none_iff.2 fun g hg => ?_
  simpa using h g hg

theorem defaults_lookup {first last n : ℕ} :
    (defaults first last).lookup n = if first ≤ n ∧ n < last then some .default else none := by
  split_ifs with hn
  · have hlist : ∀ is : List ℕ, n ∈ is → (is.map fun i => (i, Isr.default)).lookup n = some .default := by
      intro is hmem
      induction is with
      | nil => cases hmem
      | cons i is ih =>
        rw [List.map_cons, List.lookup_cons]
        by_cases hi : n = i
        · rw [beq_iff_eq.2 hi]
        · rw [beq_eq_false_iff_ne.2 hi]
          exact ih ((List.mem_cons.1 hmem).resolve_left hi)
    exact hlist _ (List.mem_range'_1.2 (by omega))
  · refine lookup_none fun g hg => ?_
    obtain ⟨i, hi, rfl⟩ := List.mem_map.1 hg
    have := List.mem_range'_1.1 hi
    dsimp only
    omega

theorem defaults_nodup (first last : ℕ) : ((defaults first last).map Prod.fst).Nodup := by
  unfold defaults
  rw [List.map_map]
  exact (List.nodup_range').map fun a b hab => hab

theorem defaults_lt {first last : ℕ} (hlast : last ≤ 256) : ∀ g ∈ defaults first last, g.1 < 256 := by
  intro g hg
  obtain ⟨i, hi, rfl⟩ := List.mem_map.1 hg
  have := List.mem_range'_1.1 hi
  dsimp only
  omega

/-- what is in the table for a vector -/
def gateAt (isrAddr : Isr → ℕ) (n : ℕ) : IdtGateDescriptor :=
  match handlerAt n with
  | some isr => idtGate (isrAddr isr) (flagsAt n)
  | none => ⟨0, 0, 0, 0, 0⟩

/-- **The gate of every vector.** -/
theorem idtInit_eq (isrAddr : Isr → ℕ) {n : ℕ} (hn : n < 256) : idtInit isrAddr zeroed n = gateAt isrAddr n := by
  have hexceptions := @setGates_apply isrAddr trapFlags exceptions zeroed n (by decide) (by decide)
  have hhardware := fun idt => @setGates_apply isrAddr trapFlags hardware idt n (by decide) (by decide)
  have hlow := fun idt => setGates_apply isrAddr userFlags idt n (defaults_nodup 34 80) (defaults_lt (by decide))
  have hhigh := fun idt => setGates_apply isrAddr userFlags idt n (defaults_nodup 81 256) (defaults_lt le_rfl)
  change setGates isrAddr userFlags (defaults 81 256) (setIdtGate (setGates isrAddr userFlags (defaults 34 80)
    (setGates isrAddr trapFlags hardware (setGates isrAddr trapFlags exceptions zeroed))) 80
      (isrAddr .syscallInterrupt) userFlags) n = _
  rw [hhigh, defaults_lookup]
  unfold gateAt handlerAt flagsAt
  by_cases h81 : 81 ≤ n
  · rw [if_pos ⟨h81, hn⟩, if_neg (by omega), if_neg (by omega), if_neg (by omega), if_neg (by omega), if_neg (by omega)]
  rw [if_neg (by omega)]
  by_cases h80 : n = 80
  · subst h80
    rfl
  have hother : ∀ idt, setIdtGate idt 80 (isrAddr .syscallInterrupt) userFlags n = idt n := fun idt =>
    Function.update_of_ne h80 _ _
  dsimp only
  rw [hother, hlow, defaults_lookup]
  by_cases h34 : 34 ≤ n
  · rw [if_pos ⟨h34, by omega⟩, if_neg (by omega), if_neg (by omega), if_neg (by omega), if_neg h80, if_neg (by omega)]
  rw [if_neg (by omega)]
  dsimp only
  rw [hhardware]
  by_cases h32 : 32 ≤ n
  · obtain rfl | rfl : n = 32 ∨ n = 33 := by omega
    · rfl
    · rfl
  have hnone : hardware.lookup n = none := lookup_none (by simp [hardware, idtReservedIntCount]; omega)
  rw [hnone, if_pos (by omega), if_pos (by omega)]
  exact hexceptions

/-! ## What the processor does -/

/-- where an interrupt goes: to a handler, with or without interrupts disabled, or to another vector -/
inductive Delivery where
  | entered (segmentSelector offset : ℕ) (clearsIf : Bool)
  | fault (vector : ℕ)
deriving DecidableEq, Repr

/-- the handler's address, put together -/
def IdtGateDescriptor.offset (g : IdtGateDescriptor) : ℕ := g.addrLow + g.addrHigh * 2 ^ 16

/-- an interrupt gate clears IF, a trap gate does not; other gates the kernel does not use -/
def IdtGateDescriptor.isInterruptGate (g : IdtGateDescriptor) : Bool := g.flags % 32 = 0b01110
def IdtGateDescriptor.isTrapGate (g : IdtGateDescriptor) : Bool := g.flags % 32 = 0b01111

/-- the processor, for an interrupt of the hardware or for `int n` at privilege level `cpl`: a general protection fault (13) if the
gate is neither kind or needs more privilege, segment not present (11) if it is not present -/
def deliver (idt : Idt) (n : ℕ) (cpl : Option ℕ) : Delivery :=
  let g := idt n
  if ¬ g.isInterruptGate ∧ ¬ g.isTrapGate then .fault 13
  else if ∃ c ∈ cpl, g.flags / 32 % 4 < c then .fault 13
  else if ¬ g.flags.testBit 7 then .fault 11
  else .entered g.segmentSelector g.offset g.isInterruptGate

/-- an interrupt, and the exception that it raises instead, if it does -/
def interrupt (idt : Idt) (n : ℕ) (cpl : Option ℕ) : Delivery :=
  match deliver idt n cpl with
  | .fault vector => deliver idt vector none
  | .entered segmentSelector offset clearsIf => .entered segmentSelector offset clearsIf

/-- the exceptions for which the processor pushes an error code, of those that `handlers.h` names -/
def pushesErrCode (n : ℕ) : Bool := n ∈ [8, 10, 11, 12, 13, 14, 17, 21]

theorem offset_idtGate {isrAddr flags : ℕ} (h : isrAddr < 2 ^ 32) : (idtGate isrAddr flags).offset = isrAddr := by
  have hlow : isrAddr &&& 0xffff = isrAddr % 65536 := Nat.and_two_pow_sub_one_eq_mod isrAddr 16
  have hhigh : (isrAddr >>> 16) &&& 0xffff = isrAddr / 65536 % 65536 := by
    rw [Nat.and_two_pow_sub_one_eq_mod _ 16, Nat.shiftRight_eq_div_pow]
  change (isrAddr &&& 0xffff) + ((isrAddr >>> 16) &&& 0xffff) * 2 ^ 16 = isrAddr
  rw [hlow, hhigh]
  omega

/-- the handler that `int n` reaches in user mode -/
def userHandler (n : ℕ) : Isr :=
  if n = 80 then .syscallInterrupt else if 34 ≤ n then .default else .generalProtectionException

section Routing

variable {isrAddr : Isr → ℕ}

/-- a gate that is set, entered with enough privilege -/
theorem deliver_set {idt : Idt} {n addr flags : ℕ} {cpl : Option ℕ} (hgate : idt n = idtGate addr flags) (haddr : addr < 2 ^ 32)
    (hkind : flags % 32 = 0b01110 ∨ flags % 32 = 0b01111) (hpresent : flags.testBit 7 = true)
    (hcpl : ∀ c ∈ cpl, c ≤ flags / 32 % 4) :
    deliver idt n cpl = .entered gdtKernelCodeSegment addr (decide (flags % 32 = 0b01110)) := by
  have hg : (idtGate addr flags).flags = flags := rfl
  unfold deliver
  simp only [hgate, IdtGateDescriptor.isInterruptGate, IdtGateDescriptor.isTrapGate, hg, offset_idtGate haddr, hpresent]
  rw [if_neg (by simpa [not_and_or] using fun h => hkind.resolve_left h), if_neg ?_]
  · rfl
  · rintro ⟨c, hc, hlt⟩
    exact absurd (hcpl c hc) (not_le.2 hlt)

/-- the hardware interrupts and exceptions that have a handler -/
theorem deliver_hardware (haddr : ∀ isr, isrAddr isr < 2 ^ 32) {n : ℕ} {isr : Isr} (hn : n < 256)
    (hisr : handlerAt n = some isr) :
    deliver (idtInit isrAddr zeroed) n none = .entered gdtKernelCodeSegment (isrAddr isr) (decide (34 ≤ n)) := by
  have hgate : idtInit isrAddr zeroed n = idtGate (isrAddr isr) (flagsAt n) := by
    rw [idtInit_eq isrAddr hn, gateAt, hisr]
  unfold flagsAt at hgate
  split_ifs at hgate with h34
  · rw [deliver_set hgate (haddr isr) (by decide) (by decide) (by simp), decide_eq_false (by decide),
      decide_eq_false (by omega)]
  · rw [deliver_set hgate (haddr isr) (by decide) (by decide) (by simp), decide_eq_true (by decide),
      decide_eq_true (by omega)]

theorem deliver_zero {idt : Idt} {n : ℕ} (hgate : idt n = ⟨0, 0, 0, 0, 0⟩) (cpl : Option ℕ) : deliver idt n cpl = .fault 13 := by
  unfold deliver
  simp only [hgate, IdtGateDescriptor.isInterruptGate, IdtGateDescriptor.isTrapGate]
  rfl

/-- a gate of the kernel is not for `int n` in user mode -/
theorem deliver_kernel_gate {idt : Idt} {n addr : ℕ} (hgate : idt n = idtGate addr trapFlags) :
    deliver idt n (some 3) = .fault 13 := by
  have hg : (idtGate addr trapFlags).flags = trapFlags := rfl
  unfold deliver
  simp only [hgate, IdtGateDescriptor.isInterruptGate, IdtGateDescriptor.isTrapGate, hg]
  rw [if_neg (by decide), if_pos ⟨3, rfl, by decide⟩]

/-- an interrupt that raises a general protection fault ends in its handler -/
theorem interrupt_protected (haddr : ∀ isr, isrAddr isr < 2 ^ 32) {n : ℕ} {cpl : Option ℕ}
    (hfault : deliver (idtInit isrAddr zeroed) n cpl = .fault 13) :
    interrupt (idtInit isrAddr zeroed) n cpl =
      .entered gdtKernelCodeSegment (isrAddr .generalProtectionException) false := by
  unfold interrupt
  rw [hfault]
  exact deliver_hardware haddr (by decide) rfl

theorem interrupt_user (haddr : ∀ isr, isrAddr isr < 2 ^ 32) {n : ℕ} (hn : n < 256) :
    interrupt (idtInit isrAddr zeroed) n (some 3) =
      .entered gdtKernelCodeSegment (isrAddr (userHandler n)) (decide (34 ≤ n)) := by
  have heq := idtInit_eq isrAddr hn
  by_cases h34 : 34 ≤ n
  · -- a gate of the user level
    have hhandler : handlerAt n = some (userHandler n) := by
      unfold handlerAt userHandler
      rw [if_neg (by omega), if_neg (by omega), if_neg (by omega), if_pos h34]
      split_ifs <;> rfl
    have hgate : idtInit isrAddr zeroed n = idtGate (isrAddr (userHandler n)) userFlags := by
      rw [heq, gateAt, hhandler, flagsAt, if_neg (by omega)]
    have hdeliver := @deliver_set _ n _ userFlags (some 3) hgate (haddr _) (by decide) (by decide)
      (by intro c hc; cases hc; decide)
    unfold interrupt
    rw [hdeliver, decide_eq_true (by decide), decide_eq_true h34]
  · have hhandler : userHandler n = .generalProtectionException := by
      unfold userHandler
      rw [if_neg (by omega), if_neg h34]
    rw [hhandler, decide_eq_false h34]
    refine interrupt_protected haddr ?_
    rw [gateAt] at heq
    cases hisr : handlerAt n with
    | none =>
      rw [hisr] at heq
      exact deliver_zero heq (some 3)
    | some isr =>
      rw [hisr, flagsAt, if_pos (by omega)] at heq
      exact deliver_kernel_gate heq

theorem errCode_eq {n : ℕ} {isr : Isr} (hn : n < 256) (hisr : handlerAt n = some isr) : isr.takesErrCode = pushesErrCode n := by
  have hall : ∀ n < 256, ∀ isr ∈ handlerAt n, isr.takesErrCode = pushesErrCode n := by decide +kernel
  exact hall n hn isr hisr

/-- **Where every interrupt goes**, wherever the handlers are linked. An interrupt of the hardware enters the handler of its
vector, which takes an error code exactly when the processor pushes one, or the general protection handler if the vector has
none. `int n` in user mode enters the system call for n = 80, and for every other n a handler that panics. -/
theorem interrupt_routing (haddr : ∀ isr, isrAddr isr < 2 ^ 32) {n : ℕ} (hn : n < 256) :
    (∀ isr, handlerAt n = some isr → isr.takesErrCode = pushesErrCode n ∧
      interrupt (idtInit isrAddr zeroed) n none = .entered gdtKernelCodeSegment (isrAddr isr) (decide (34 ≤ n))) ∧
    (handlerAt n = none → interrupt (idtInit isrAddr zeroed) n none =
      .entered gdtKernelCodeSegment (isrAddr .generalProtectionException) false) ∧
    interrupt (idtInit isrAddr zeroed) n (some 3) =
      .entered gdtKernelCodeSegment (isrAddr (userHandler n)) (decide (34 ≤ n)) ∧
    ((userHandler n).panicFormat = none ↔ n = 80) := by
  refine ⟨fun isr hisr => ⟨errCode_eq hn hisr, ?_⟩, fun hnone => ?_, interrupt_user haddr hn, ?_⟩
  · unfold interrupt
    rw [deliver_hardware haddr hn hisr]
  · have heq := idtInit_eq isrAddr hn
    rw [gateAt, hnone] at heq
    exact interrupt_protected haddr (deliver_zero heq none)
  · unfold userHandler
    split_ifs with h80 h34
    · exact iff_of_true rfl h80
    · exact iff_of_false (by decide) h80
    · exact iff_of_false (by decide) h80

end Routing

/-- handlers one after the other from 0xC0105000 on -/
def someAddr (isr : Isr) : ℕ := if isr = .syscallInterrupt then 0xC0105123 else 0xC0106456

theorem someAddr_lt (isr : Isr) : someAddr isr < 2 ^ 32 := by
  unfold someAddr
  split_ifs <;> decide

/-- a page fault, and two instructions of a user program -/
theorem interrupt_routing_samples :
    interrupt (idtInit someAddr zeroed) 14 none = .entered 8 0xC0106456 false ∧
    interrupt (idtInit someAddr zeroed) 80 (some 3) = .entered 8 0xC0105123 true ∧
    interrupt (idtInit someAddr zeroed) 14 (some 3) = .entered 8 0xC0106456 false := by
  obtain ⟨hfault, _⟩ := interrupt_routing someAddr_lt (n := 14) (by decide)
  obtain ⟨_, _, hcall, _⟩ := interrupt_routing someAddr_lt (n := 80) (by decide)
  obtain ⟨_, _, huser, _⟩ := interrupt_routing someAddr_lt (n := 14) (by decide)
  exact ⟨(hfault .pageFaultException (by decide)).2, hcall, huser⟩

end Gubos.Descriptors
