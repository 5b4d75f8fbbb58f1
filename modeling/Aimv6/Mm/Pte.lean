import Aimv6.Mm.Slab
import Aimv6.Support.Loops

/-! # Page tables

`pte.h` and `settings.h`: the bit-fields of the entries, and the walk that the
memory management unit makes through the table of the running process. Below
`KERNEL_BASE` an address goes through that table, above it the kernel sees
physical memory in order.
-/

namespace Aimv6.Mm

open Support

def PTE_L1SIZE : Nat := 0x4000

def PTE_L2SIZE : Nat := 0x400

def PTE_L2ALIGN : Nat := PTE_L2SIZE

def PAGE_L1SIZE : Nat := 0x100000

def PAGE_L2SIZE : Nat := 0x1000

def FRAME_SIZE : Nat := PAGE_L2SIZE

/-- The `pattern1` of `_fork` and `_exec`: a page-table entry. -/
def pattern1 : Nat := 0b0111100001

/-- The `pattern2` of `_fork` and `_exec`: a small page. -/
def pattern2 : Nat := 0b010000100010

/-- `ptel1_page_table_t.type`: bits 1..0 -/
def ptel1Type (e : Nat) : Nat := e % 4

/-- `ptel1_page_table_t.base`: bits 31..10 -/
def ptel1Base (e : Nat) : Nat := e / 1024

/-- `ptel2_page_t.type`: bits 1..0 -/
def ptel2Type (e : Nat) : Nat := e % 4

/-- `ptel2_page_t.base`: bits 31..12 -/
def ptel2Base (e : Nat) : Nat := e / 4096

namespace State

def memset (s : State) (p n : Nat) : State := { s with mem := fillBytes p (fun _ => 0) n s.mem }

@[simp] theorem memset_mem (s : State) (p n : Nat) :
    (s.memset p n).mem = fillBytes p (fun _ => 0) n s.mem := rfl

/-- The physical address that the table at `pt` gives for `va`, if any: a section, a large page
or a small page. -/
def walk (s : State) (pt va : Nat) : Option Nat :=
  let e := s.word (pt + 4 * (va / PAGE_L1SIZE))
  if ptel1Type e = 0b01 then
    let w := s.word (P2V (ptel1Base e * PTE_L2SIZE) + 4 * (va % PAGE_L1SIZE / PAGE_L2SIZE))
    if ptel2Type w = 0b00 then none
    else if ptel2Type w = 0b01 then some (w / 65536 * 65536 + va % 65536)
    else some (ptel2Base w * PAGE_L2SIZE + va % PAGE_L2SIZE)
  else if ptel1Type e = 0b10 then some (e / PAGE_L1SIZE * PAGE_L1SIZE + va % PAGE_L1SIZE)
  else none

/-- Where the byte at virtual address `va` lies while the table at `pt` is in use. -/
def cell (s : State) (pt va : Nat) : Option Nat :=
  if KERNEL_BASE ≤ va then some va else (s.walk pt va).map P2V

end State

/-- One word of `memcpy`; an address without a mapping is a data abort. -/
def copyWord (pt dst src k : Nat) (s : State) : Res State :=
  match s.cell pt (src + 4 * k), s.cell pt (dst + 4 * k) with
  | some a, some b => .ok (s.setWord b (s.word a))
  | _, _ => .error .nullDeref

/-- `memcpy((void*)dst, (void*)src, PAGE_L2SIZE)` for whole pages, with the table at `pt` in use. -/
def memcpyPage (s : State) (pt dst src : Nat) : Res State :=
  if dst = src then .ok s else loopUp (copyWord pt dst src) 1024 0 s

/-! ## The entries that `mmap` makes -/

theorem pattern1_or {t : Nat} (h : t % 1024 = 0) : t ||| pattern1 = t + 481 := by
  obtain ⟨k, rfl⟩ := Nat.dvd_of_mod_eq_zero h
  exact (Nat.two_pow_add_eq_or_of_lt (i := 10) (by decide) k).symm

theorem pattern2_or {f : Nat} (h : f % 4096 = 0) : f ||| pattern2 = f + 1058 := by
  obtain ⟨k, rfl⟩ := Nat.dvd_of_mod_eq_zero h
  exact (Nat.two_pow_add_eq_or_of_lt (i := 12) (by decide) k).symm

theorem ptel1_fields {t : Nat} (h : t % 1024 = 0) :
    ptel1Type (t + 481) = 1 ∧ ptel1Base (t + 481) * PTE_L2SIZE = t := by
  unfold ptel1Type ptel1Base PTE_L2SIZE
  omega

theorem ptel2_fields {f : Nat} (h : f % 4096 = 0) :
    ptel2Type (f + 1058) = 2 ∧ ptel2Base (f + 1058) * PAGE_L2SIZE = f := by
  unfold ptel2Type ptel2Base PAGE_L2SIZE
  omega

end Aimv6.Mm
