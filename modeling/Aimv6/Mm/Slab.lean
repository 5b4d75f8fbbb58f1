import Aimv6.Mm.Pages

/-! # The slab allocator

`slb.c`: one slab descriptor for each pair of alignment and object size, a list
of pools below it, and in each pool a list threaded through the free objects.
The descriptors are objects of the allocator themselves.

Offsets: `slb_t` is `obj_align`, `obj_size`, `pool_head`, `next_slb`;
`slb_pool_t` is `cnt_inuse`, `pool_size`, `obj_head`, `next_pool`; `slb_obj_t`
is `next_obj`.
-/

namespace Aimv6.Mm

open Support

def SIZEOF_SLB : Nat := 16

def SIZEOF_OBJ : Nat := 4

def SIZEOF_POOL : Nat := 16

/-- `min(int a, int b)` -/
def minInt (a b : Nat) : Nat := if toInt a < toInt b then a else b

/-- `max(int a, int b)` -/
def maxInt (a b : Nat) : Nat := if toInt a > toInt b then a else b

namespace State

def objAlign (s : State) (slb : Nat) : Nat := s.word slb

def objSize (s : State) (slb : Nat) : Nat := s.word (slb + 4)

def poolHead (s : State) (slb : Nat) : Option Nat := ptr (s.word (slb + 8))

def nextSlb (s : State) (slb : Nat) : Option Nat := ptr (s.word (slb + 12))

def cntInuse (s : State) (pool : Nat) : Nat := s.word pool

def poolSize (s : State) (pool : Nat) : Nat := s.word (pool + 4)

def objHead (s : State) (pool : Nat) : Option Nat := ptr (s.word (pool + 8))

def nextPool (s : State) (pool : Nat) : Option Nat := ptr (s.word (pool + 12))

def nextObj (s : State) (obj : Nat) : Option Nat := ptr (s.word obj)

def setObjAlign (s : State) (slb v : Nat) : State := s.setWord slb v

def setObjSize (s : State) (slb v : Nat) : State := s.setWord (slb + 4) v

def setPoolHead (s : State) (slb : Nat) (p : Option Nat) : State := s.setWord (slb + 8) (ptrVal p)

def setNextSlb (s : State) (slb : Nat) (p : Option Nat) : State := s.setWord (slb + 12) (ptrVal p)

def setCntInuse (s : State) (pool v : Nat) : State := s.setWord pool v

def setPoolSize (s : State) (pool v : Nat) : State := s.setWord (pool + 4) v

def setObjHead (s : State) (pool : Nat) (p : Option Nat) : State := s.setWord (pool + 8) (ptrVal p)

def setNextPool (s : State) (pool : Nat) (p : Option Nat) : State :=
  s.setWord (pool + 12) (ptrVal p)

def setNextObj (s : State) (obj : Nat) (p : Option Nat) : State := s.setWord obj (ptrVal p)

/-- `obj->next_obj = pool->obj_head; pool->obj_head = obj;` -/
def pushObj (s : State) (pool obj : Nat) : State :=
  let s := s.setNextObj obj (s.objHead pool)
  s.setObjHead pool (some obj)

/-- `result = pool->obj_head; pool->obj_head = pool->obj_head->next_obj; pool->cnt_inuse++;` -/
def takeObj (s : State) (pool : Nat) : Res (Option Nat × State) :=
  match s.objHead pool with
  | none => .error .nullDeref
  | some obj =>
      let s := s.setObjHead pool (s.nextObj obj)
      let s := s.setCntInuse pool (add32 (s.cntInuse pool) 1)
      .ok (some obj, s)

end State

/-- The loop of `pool_segm`, from `i` up to `lim`. -/
def segmLoop (pool lim osize align : Nat) : Nat → State → Nat → Res State
  | 0, _, _ => .error .diverge
  | fuel + 1, s, i =>
      if add32 i osize ≤ lim then
        let s := if align = 0 ∨ i &&& sub32 align 1 = 0 then s.pushObj pool i else s
        segmLoop pool lim osize align fuel s (add32 i (if osize > align then osize else align))
      else .ok s

/-- `pool_segm(pool, psize, osize, align)`, for a pool that is not `NULL`. -/
def poolSegm (s : State) (pool psize osize align : Nat) : Res (Option Nat × State) := do
  let s := s.setCntInuse pool 0
  let s := s.setPoolSize pool psize
  let s := s.setObjHead pool none
  let s := s.setNextPool pool none
  let i := add32 pool 16
  let i := if align ≠ 0 ∧ i &&& sub32 align 1 ≠ 0
    then sub32 (add32 i align) (sub32 align 1 &&& i) else i
  if i ≥ add32 pool psize then .ok (none, s)
  else
    let s := s.setObjHead pool none
    let s ← segmLoop pool (add32 pool psize) osize align walkFuel s i
    .ok (some pool, s)

/-- `while ((pool = P2V(pages_alloc(psize))) == NULL && psize > 0) psize -= 0x1000;` -/
def poolPages : Nat → State → Nat → Res (Nat × Nat × State)
  | 0, _, _ => .error .diverge
  | fuel + 1, s, psize => do
      let (paddr, s) ← pagesAlloc s psize
      if P2V paddr = 0 ∧ psize > 0 then poolPages fuel s (sub32 psize 0x1000)
      else .ok (P2V paddr, psize, s)

/-- The size of a new pool: ten objects, the header and ten bytes, in whole pages. -/
def poolBytes (osize : Nat) : Nat :=
  let psize := add32 (add32 (osize * 10 % 4294967296) SIZEOF_POOL) 10
  if psize &&& 0xFFF ≠ 0 then (((psize >>> 12) + 1) <<< 12) % 4294967296 else psize

/-- `pool_alloc(osize, align)`. Where `pool_segm` refuses, the pages are given back at their
kernel-virtual addresses, as the source does. -/
def poolAlloc (s : State) (osize align : Nat) : Res (Option Nat × State) := do
  let (pool, psize, s) ← poolPages walkFuel s (poolBytes osize)
  let (segm, s) ← if pool = 0 then .ok (none, s) else poolSegm s pool psize osize align
  match segm with
  | some _ => .ok (some pool, s)
  | none => do
      let (_, s) ← pagesFree s pool (add32 pool psize)
      .ok (none, s)

/-- `slb_free_align(p, size, align)`: 0 when the object is put back, 1 otherwise. -/
def slbFreeAlign (s : State) (p size align : Nat) : Res (Nat × State) := do
  let align := if align = 0 ∧ size ≤ 4 then size else align
  let (_, slb) ← Res.ofFuel
    (scan s.nextSlb (fun d => decide (s.objAlign d = align ∧ s.objSize d = size)) walkFuel none
      s.slbHead)
  match slb with
  | none => .ok (1, s)
  | some slb => do
      let (_, pool) ← Res.ofFuel
        (scan s.nextPool (fun v => decide (v ≤ p ∧ add32 v (s.poolSize v) > p)) walkFuel none
          (s.poolHead slb))
      match pool with
      | none => .ok (1, s)
      | some pool =>
          let s := s.pushObj pool p
          let s := s.setCntInuse pool (sub32 (s.cntInuse pool) 1)
          .ok (0, s)

/-- `slb_alloc_align(osize, align)`, with a bound on the depth of its recursion. -/
def slbAllocAlignRec : Nat → State → Nat → Nat → Res (Option Nat × State)
  | 0, _, _, _ => .error .diverge
  | depth + 1, s, osize, align => do
      let align := if align = 0 then minInt osize 4 else align
      let osize := maxInt osize SIZEOF_OBJ
      let (_, slb) ← Res.ofFuel
        (scan s.nextSlb (fun d => decide (s.objAlign d = align ∧ s.objSize d = osize)) walkFuel
          none s.slbHead)
      match slb with
      | some slb => do
          let (_, pool) ← Res.ofFuel
            (scan s.nextPool (fun v => (s.objHead v).isSome) walkFuel none (s.poolHead slb))
          match pool with
          | some pool => s.takeObj pool
          | none => do
              let (pool, s) ← poolAlloc s osize align
              match pool with
              | none => .ok (none, s)
              | some pool =>
                  let s := s.setNextPool pool (s.poolHead slb)
                  let s := s.setPoolHead slb (some pool)
                  s.takeObj pool
      | none => do
          let (slb, s) ← slbAllocAlignRec depth s SIZEOF_SLB 0
          match slb with
          | none => .ok (none, s)
          | some slb => do
              let s := s.setObjAlign slb align
              let s := s.setObjSize slb osize
              let (pool, s) ← poolAlloc s osize align
              let s := s.setPoolHead slb pool
              match pool with
              | none => do
                  let (_, s) ← slbFreeAlign s slb SIZEOF_SLB 0
                  .ok (none, s)
              | some _ =>
                  let s := s.setNextSlb slb s.slbHead
                  let s := { s with slbHead := some slb }
                  slbAllocAlignRec depth s osize align

/-- `slb_alloc_align(osize, align)`; a recursion deeper than the address space has no end. -/
def slbAllocAlign (s : State) (osize align : Nat) : Res (Option Nat × State) :=
  slbAllocAlignRec walkFuel s osize align

def slbAlloc (s : State) (size : Nat) : Res (Option Nat × State) := slbAllocAlign s size 0

def slbFree (s : State) (p size : Nat) : Res (Nat × State) := slbFreeAlign s p size 0

def slbInit (s : State) : Res (Nat × State) := do
  let s := { s with slbHead := none }
  let (pool, s) ← poolAlloc s (4 <<< 2) 0
  match pool with
  | none => .ok (1, s)
  | some pool =>
      match s.objHead pool with
      | none => .error .nullDeref
      | some slb =>
          let s := { s with slbHead := some slb }
          let s := s.setObjHead pool (s.nextObj slb)
          let s := s.setObjAlign slb (minInt 4 SIZEOF_SLB)
          let s := s.setObjSize slb (maxInt SIZEOF_SLB SIZEOF_OBJ)
          let s := s.setPoolHead slb (some pool)
          let s := s.setNextSlb slb none
          .ok (0, s)

end Aimv6.Mm
