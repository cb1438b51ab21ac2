/-
A 32-bit processor, as far as stack switching needs it.

The general registers, the instruction pointer, CR3, the zero and interrupt flags, and memory as one flat address space.
Every instruction is a function on the state; a program without loops is their composition. Addresses and registers wrap
at 2^32.
-/
import Gubos.Core.Bytes

namespace Gubos.Core

inductive Reg where
  | eax
  | ebx
  | ecx
  | edx
  | esi
  | edi
  | ebp
  | esp
deriving DecidableEq, Repr

structure Cpu where
  regs : Reg → ℕ
  eip : ℕ
  cr3 : ℕ
  zf : Bool
  interrupts : Bool
  mem : Mem

namespace Cpu

variable (s : Cpu)

def set (r : Reg) (v : ℕ) : Cpu := { s with regs := Function.update s.regs r v }

/-- `cli`, `sti` -/
def cli : Cpu := { s with interrupts := false }
def sti : Cpu := { s with interrupts := true }

/-- `mov %src, %dst` -/
def mov (src dst : Reg) : Cpu := s.set dst (s.regs src)

/-- `mov off(%base), %dst` and `mov %src, off(%base)` -/
def load (off : ℕ) (base dst : Reg) : Cpu := s.set dst (load32 s.mem (u32 (s.regs base + off)))
def store (src : Reg) (off : ℕ) (base : Reg) : Cpu :=
  { s with mem := store32 s.mem (u32 (s.regs base + off)) (s.regs src) }

/-- `mov symbol, %dst`, `mov %src, symbol` and `lea symbol, %dst` -/
def loadSym (symbol : ℕ) (dst : Reg) : Cpu := s.set dst (load32 s.mem symbol)
def storeSym (src : Reg) (symbol : ℕ) : Cpu := { s with mem := store32 s.mem symbol (s.regs src) }
def lea (symbol : ℕ) (dst : Reg) : Cpu := s.set dst symbol

/-- `lea off(%base), %dst` -/
def leaAt (off : ℕ) (base dst : Reg) : Cpu := s.set dst (u32 (s.regs base + off))

/-- a word pushed: the stack pointer is lowered first -/
def pushWord (v : ℕ) : Cpu :=
  let esp := u32 (s.regs .esp + 2 ^ 32 - 4)
  { s.set .esp esp with mem := store32 s.mem esp v }

/-- `push %src`, `pop %dst` -/
def push (src : Reg) : Cpu := s.pushWord (s.regs src)
def pop (dst : Reg) : Cpu := (s.set .esp (u32 (s.regs .esp + 4))).set dst (load32 s.mem (s.regs .esp))

/-- `mov %cr3, %dst` and `mov %src, %cr3` -/
def loadCr3 (dst : Reg) : Cpu := s.set dst s.cr3
def storeCr3 (src : Reg) : Cpu := { s with cr3 := s.regs src }

/-- `cmp %a, %b`, as far as `je` reads it -/
def cmp (a b : Reg) : Cpu := { s with zf := s.regs a = s.regs b }

/-- `ret` -/
def ret : Cpu := { s.set .esp (u32 (s.regs .esp + 4)) with eip := load32 s.mem (s.regs .esp) }

end Cpu

end Gubos.Core
