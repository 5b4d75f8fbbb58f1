import Aimv6.Exec.SdDmaSpec
import Aimv6.Mm.MmapPost

/-! # The loader of `_exec`

From the allocation of the header buffer to the end of the loop over the program
headers. Each pass reads the two blocks that hold its header, maps the pages of
the segment and has the card store its blocks there. What the loader is given is
an ELF32 file on the card, seen as the bytes from a block on.
-/

namespace Aimv6.Exec

open Support Mm

def PT_LOAD : Nat := 1

/-- The first 8 MiB below the kernel are the user stack. -/
def USER_STACK : Nat := 0x800000

/-- The file that is stored from `startBlock` on. -/
def file (sd : SdCard) (startBlock : Nat) : Memory := fun p => sd.byte startBlock p

structure ProgramHeader where
  type : Nat
  offset : Nat
  vaddr : Nat
  filesz : Nat
  memsz : Nat
deriving DecidableEq, Repr

def programHeader (m : Memory) (p : Nat) : ProgramHeader :=
  ⟨load32 m p, load32 m (p + 4), load32 m (p + 8), load32 m (p + 16), load32 m (p + 20)⟩

def phoff (m : Memory) : Nat := load32 m 0x1C

def phentsize (m : Memory) : Nat := load32 m 0x2A % 65536

def phnum (m : Memory) : Nat := load32 m 0x2C % 65536

/-- Entry `k` of the program header table. -/
def phdr (m : Memory) (k : Nat) : ProgramHeader := programHeader m (phoff m + k * phentsize m)

/-- `e` is a header of the table and asks for a segment. -/
def IsLoad (m : Memory) (k : Nat) : Prop := k < phnum m ∧ (phdr m k).type = PT_LOAD

/-- The segment has a byte in page `v`. -/
def ProgramHeader.InPage (e : ProgramHeader) (v : Nat) : Prop := ∃ j < e.memsz, (e.vaddr + j) / 4096 = v

/-- What an ELF32 file says of a segment that lies below the user stack. -/
structure ProgramHeader.Valid (e : ProgramHeader) : Prop where
  size : e.filesz ≤ e.memsz
  congruent : e.offset % 4096 = e.vaddr % 4096
  below : e.vaddr + e.memsz ≤ KERNEL_BASE - USER_STACK

/-- Byte `j` of the segment of `e`, as the process is to find it. -/
def segmentByte (m : Memory) (e : ProgramHeader) (j : Nat) : UInt8 :=
  if j < e.filesz then m (e.offset + j) else 0

/-- The loader took `s`, where the bytes `U` were in use, to `s'`. -/
structure Loaded (m : Memory) (pt : Nat) (s : State) (U : Set Nat) (M : Space) (s' : State) : Prop where
  segments : ∀ k, IsLoad m k → ∀ j < (phdr m k).memsz, ∃ a,
    s'.walk pt ((phdr m k).vaddr + j) = some a ∧ s'.mem (P2V a) = segmentByte m (phdr m k) j
  /-- besides frames of the process, nothing that was in use is written but its own tables -/
  kept : ∀ b ∈ U, b ∉ M.tables pt → (∀ va < KERNEL_BASE, ∀ a, s'.walk pt va = some a → b ≠ P2V a) →
    s'.mem b = s.mem b

end Aimv6.Exec
