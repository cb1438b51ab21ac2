/-
Buffers of a fixed size.

A buffer is the list of its elements. A read or a write outside stops the computation. A position is written as the length of
what is before it, so that a buffer taken apart at a position can be read, written and put together again.

- `read_append`, `write_append`: reading and writing the element after a prefix;
- `read_at`, `write_at`: the same of a position that is equal to the length of a prefix.
-/
import Gubos.Core.Checked

namespace Gubos.Core

variable {ε α : Type}

def read (buf : List α) (i : ℕ) : Except (Checked ε) α :=
  match buf[i]? with
  | some c => .ok c
  | none => .error (.outOfBounds i)

def write (buf : List α) (i : ℕ) (c : α) : Except (Checked ε) (List α) :=
  if i < buf.length then .ok (buf.set i c) else .error (.outOfBounds i)

variable {pre post : List α} {c d : α}

theorem read_append : (read (pre ++ c :: post) pre.length : Except (Checked ε) α) = .ok c := by
  simp [read]

theorem read_at {buf : List α} {i : ℕ} (h : buf = pre ++ c :: post) (hi : i = pre.length) :
    (read buf i : Except (Checked ε) α) = .ok c := by
  rw [h, hi, read_append]

theorem write_append : (write (pre ++ c :: post) pre.length d : Except (Checked ε) (List α)) = .ok (pre ++ d :: post) := by
  simp [write]

theorem write_at {buf : List α} {i : ℕ} (h : buf = pre ++ c :: post) (hi : i = pre.length) :
    (write buf i d : Except (Checked ε) (List α)) = .ok (pre ++ d :: post) := by
  rw [h, hi, write_append]

end Gubos.Core
