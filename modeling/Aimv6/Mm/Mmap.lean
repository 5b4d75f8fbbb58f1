import Aimv6.Mm.Pte

/-! # `mmap.c`

`mmap` builds page tables and maps zeroed frames, `unmmap` walks them to give
frames and tables back, `copy_mem_img` copies the user half of an address space.
The two allocators that they call are parameters, as far as they hand memory out.
-/

namespace Aimv6.Mm

open Support

/-- `slb_alloc_align` and `pages_alloc`, seen by their callers; 0 is `NULL`. -/
structure Allocators where
  slbAllocAlign : State → Nat → Nat → Res (Nat × State)
  pagesAlloc : State → Nat → Res (Nat × State)

/-- The index of the first 1 MiB slot and the number of slots that the loops
`for (i = start / PAGE_L1SIZE; i <= (int)((finish - 1) / PAGE_L1SIZE); i++)` visit. -/
def slotCount (start finish : Nat) : Nat :=
  sub32 finish 1 / PAGE_L1SIZE + 1 - start / PAGE_L1SIZE

/-- `if (l1pte->type == 0b00)`: a new, empty level 2 table for the entry at `e`. -/
def newTable (A : Allocators) (pattern1 e : Nat) (s : State) : Res State :=
  if ptel1Type (s.word e) = 0b00 then do
    let (temp, s) ← A.slbAllocAlign s PTE_L2SIZE PTE_L2ALIGN
    let s := s.memset temp PTE_L2SIZE
    .ok (s.setWord e (V2P temp ||| pattern1))
  else .ok s

/-- `if (l2page[j].type == 0)`: a new, zeroed page for the entry at `k`. -/
def newPage (A : Allocators) (pattern2 k : Nat) (s : State) : Res State :=
  if ptel2Type (s.word k) = 0 then do
    let (temp, s) ← A.pagesAlloc s PAGE_L2SIZE
    let s := s.memset (P2V temp) PAGE_L2SIZE
    .ok (s.setWord k (temp ||| pattern2))
  else .ok s

/-! ## `mmap` -/

/-- The body of the inner loop, for entry `j` of the level 2 table at `l2page`. -/
def mmapPage (A : Allocators) (start finish pattern2 l2page i j : Nat) (s : State) : Res State :=
  let temp := i * PAGE_L1SIZE + j * PAGE_L2SIZE
  if temp < start ∨ temp ≥ finish then .ok s
  else newPage A pattern2 (add32 l2page (4 * j)) s

/-- The body of the outer loop, for entry `i` of the table. -/
def mmapSlot (A : Allocators) (pt start finish pattern1 pattern2 i : Nat) (s : State) :
    Res State := do
  let s ← newTable A pattern1 (add32 pt (4 * i)) s
  let l2page := P2V (ptel1Base (s.word (add32 pt (4 * i))) * PTE_L2SIZE)
  loopUp (mmapPage A start finish pattern2 l2page i) (PTE_L2SIZE >>> 2) 0 s

def mmap (A : Allocators) (s : State) (pt start finish pattern1 pattern2 : Nat) : Res State :=
  loopUp (mmapSlot A pt start finish pattern1 pattern2) (slotCount start finish)
    (start / PAGE_L1SIZE) s

/-! ## `unmmap` -/

/-- The body of the inner loop. The regions given to `pages_free` are noted beside the state. -/
def unmmapPage (start finish l2page i j : Nat) (r : State × List (Nat × Nat)) :
    Res (State × List (Nat × Nat)) :=
  let temp := i * PAGE_L1SIZE + j * PAGE_L2SIZE
  if temp < start ∨ temp ≥ finish then .ok r
  else
    let e := r.1.word (add32 l2page (4 * j))
    if ptel2Type e = 0b10 ∨ ptel2Type e = 0b11 then do
      let st := ptel2Base e * PAGE_L2SIZE
      let fi := (ptel2Base e + 1) * PAGE_L2SIZE % 4294967296
      let (_, s) ← pagesFree r.1 st fi
      .ok (s, r.2 ++ [(st, fi)])
    else .ok r

def unmmapSlot (pt start finish i : Nat) (r : State × List (Nat × Nat)) :
    Res (State × List (Nat × Nat)) := do
  let e := r.1.word (add32 pt (4 * i))
  if ptel1Type e = 0b00 then .ok r
  else do
    let l2page := P2V (ptel1Base e)
    let r ← loopUp (unmmapPage start finish l2page i) (PTE_L2SIZE >>> 2) 0 r
    let (_, s) ← slbFreeAlign r.1 l2page PTE_L2SIZE PTE_L2ALIGN
    .ok (s, r.2)

def unmmap (s : State) (pt start finish : Nat) : Res (State × List (Nat × Nat)) :=
  loopDown (unmmapSlot pt start finish) (start / PAGE_L1SIZE) (slotCount start finish) (s, [])

/-! ## `copy_mem_img` -/

/-- The body of the inner loop for a page table of the parent. -/
def copyPage (A : Allocators) (cur start finish pattern2 l2frm l2to i j : Nat) (s : State) :
    Res State :=
  let temp := i * PAGE_L1SIZE + j * PAGE_L2SIZE
  if temp < start ∨ temp ≥ finish then .ok s
  else
    let e := s.word (add32 l2frm (4 * j))
    if ptel2Type e = 0b10 ∨ ptel2Type e = 0b11 then do
      let s ← newPage A pattern2 (add32 l2to (4 * j)) s
      memcpyPage s cur (ptel2Base (s.word (add32 l2to (4 * j))) * PAGE_L2SIZE)
        (ptel2Base (s.word (add32 l2frm (4 * j))) * PAGE_L2SIZE)
    else .ok s

/-- The body of the inner loop for a section of the parent. -/
def copySection (A : Allocators) (cur start finish pattern2 sectionBase l2to i j : Nat) (s : State) :
    Res State :=
  let temp := i * PAGE_L1SIZE + j * PAGE_L2SIZE
  if temp < start ∨ temp ≥ finish then .ok s
  else do
    let s ← newPage A pattern2 (add32 l2to (4 * j)) s
    memcpyPage s cur (P2V (ptel2Base (s.word (add32 l2to (4 * j))) * PAGE_L2SIZE))
      (P2V (sectionBase + j * PAGE_L2SIZE))

def copySlot (A : Allocators) (cur ptFrm ptTo start finish pattern1 pattern2 i : Nat) (s : State) :
    Res State :=
  if i ≥ KERNEL_BASE / PAGE_L1SIZE then
    .ok (s.setWord (add32 ptTo (4 * i)) (s.word (add32 ptFrm (4 * i))))
  else
    let e := s.word (add32 ptFrm (4 * i))
    if ptel1Type e = 0b00 ∨ ptel1Type e = 0b11 then .ok s
    else do
      let s ← newTable A pattern1 (add32 ptTo (4 * i)) s
      let e := s.word (add32 ptFrm (4 * i))
      let l2frm := P2V (ptel1Base e)
      let l2to := P2V (ptel1Base (s.word (add32 ptTo (4 * i))) * PTE_L2SIZE)
      if ptel1Type e = 0b01 then
        loopUp (copyPage A cur start finish pattern2 l2frm l2to i) (PTE_L2SIZE >>> 2) 0 s
      else
        let sectionBase := e / PAGE_L1SIZE * PAGE_L1SIZE
        loopUp (copySection A cur start finish pattern2 sectionBase l2to i) (PTE_L2SIZE >>> 2) 0 s

/-- `copy_mem_img(pt_frm, pt_to, start, finish, pattern1, pattern2)`, with the table at `cur` in
use. -/
def copyMemImg (A : Allocators) (s : State) (cur ptFrm ptTo start finish pattern1 pattern2 : Nat) :
    Res State :=
  loopUp (copySlot A cur ptFrm ptTo start finish pattern1 pattern2) (slotCount start finish)
    (start / PAGE_L1SIZE) s

end Aimv6.Mm
