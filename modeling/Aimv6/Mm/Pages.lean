import Aimv6.Base

/-! # The physical page allocator

`pages_manage.c`: a first-fit allocator over an address-ordered list of free
areas. The nodes live in the free memory itself, at its kernel-virtual address:
the link at offset 0 and the size at offset 4.
-/

namespace Aimv6.Mm

open Support

/-- The memory together with the static variables `farea_head` of `pages_manage.c` and `slb_head`
of `slb.c`. -/
structure State where
  mem : Memory
  fareaHead : Option Nat
  slbHead : Option Nat

namespace State

def word (s : State) (a : Nat) : Nat := load32 s.mem a

def setWord (s : State) (a v : Nat) : State := { s with mem := store32 s.mem a v }

@[simp] theorem setWord_mem (s : State) (a v : Nat) : (s.setWord a v).mem = store32 s.mem a v := rfl

@[simp] theorem setWord_fareaHead (s : State) (a v : Nat) :
    (s.setWord a v).fareaHead = s.fareaHead := rfl

@[simp] theorem setWord_slbHead (s : State) (a v : Nat) : (s.setWord a v).slbHead = s.slbHead := rfl

/-! ## `free_area_t` -/

/-- `p->next` -/
def areaNext (s : State) (p : Nat) : Option Nat := ptr (s.word p)

/-- `p->size` -/
def areaSize (s : State) (p : Nat) : Nat := s.word (p + 4)

def setAreaNext (s : State) (p : Nat) (next : Option Nat) : State := s.setWord p (ptrVal next)

def setAreaSize (s : State) (p size : Nat) : State := s.setWord (p + 4) size

/-- `if (last != NULL) last->next = next->next; if (next == farea_head) farea_head = next->next;` -/
def unlinkArea (s : State) (last : Option Nat) (next : Nat) : State :=
  let s := match last with
    | some last => s.setAreaNext last (s.areaNext next)
    | none => s
  if some next = s.fareaHead then { s with fareaHead := s.areaNext next } else s

/-- `temp->size = size; temp->next = next;
if (last == NULL) farea_head = temp; else last->next = temp;` -/
def linkArea (s : State) (last next : Option Nat) (temp size : Nat) : State :=
  let s := s.setAreaSize temp size
  let s := s.setAreaNext temp next
  match last with
  | none => { s with fareaHead := some temp }
  | some last => s.setAreaNext last (some temp)

/-- `p->next = q->next; p->size += q->size;` -/
def absorbArea (s : State) (p q : Nat) : State :=
  let s := s.setAreaNext p (s.areaNext q)
  s.setAreaSize p (add32 (s.areaSize p) (s.areaSize q))

/-- `if (last != NULL && P2V(last) + last->size == P2V(temp)) { ...; temp = last; }` -/
def mergeLeft (s : State) (last : Option Nat) (temp : Nat) : State × Nat :=
  match last with
  | some last =>
      if add32 (P2V last) (s.areaSize last) = P2V temp then (s.absorbArea last temp, last)
      else (s, temp)
  | none => (s, temp)

/-- `if (next != NULL && P2V(temp) + temp->size == P2V(next)) { ... }` -/
def mergeRight (s : State) (temp : Nat) (next : Option Nat) : State :=
  match next with
  | some next =>
      if add32 (P2V temp) (s.areaSize temp) = P2V next then s.absorbArea temp next else s
  | none => s

end State

def pagesSplit (s : State) (p : Option Nat) (firstSize : Nat) : Nat × State :=
  match p with
  | none => (1, s)
  | some p =>
      if s.areaSize p < firstSize ∨ firstSize &&& 0xFFF ≠ 0 then (1, s)
      else if s.areaSize p = firstSize then (0, s)
      else
        let q := add32 p firstSize
        let s := s.setAreaSize q (sub32 (s.areaSize p) firstSize)
        let s := s.setAreaNext q (s.areaNext p)
        let s := s.setAreaSize p firstSize
        let s := s.setAreaNext p (some q)
        (0, s)

/-- `pages_alloc(need_size)`: the physical address of the first area that is large enough. -/
def pagesAlloc (s : State) (needSize : Nat) : Res (Nat × State) :=
  if needSize &&& 0xFFF ≠ 0 then .ok (0, s)
  else do
    let (last, next) ← Res.ofFuel
      (scan s.areaNext (fun a => decide (¬ needSize > s.areaSize a)) walkFuel none s.fareaHead)
    match next with
    | none => .error .spin
    | some next =>
        if s.areaSize next < needSize then .error .spin
        else
          let (code, s) :=
            if needSize < s.areaSize next then pagesSplit s (some next) needSize else (0, s)
          if code ≠ 0 then .ok (1, s)
          else .ok (V2P next, s.unlinkArea last next)

/-- `pages_free(st, fi)`: link `[st, fi)` in and merge it with the areas it touches. -/
def pagesFree (s : State) (st fi : Nat) : Res (Nat × State) :=
  let temp := P2V st
  if st &&& 0xFFF ≠ 0 ∨ fi &&& 0xFFF ≠ 0 then .ok (1, s)
  else do
    let (last, next) ← Res.ofFuel
      (scan s.areaNext (fun a => decide (¬ V2P a < st)) walkFuel none s.fareaHead)
    let s := s.linkArea last next temp (sub32 fi st)
    let (s, temp) := s.mergeLeft last temp
    .ok (0, s.mergeRight temp next)

def initPspace (s : State) : Res (Nat × State) :=
  pagesFree { s with fareaHead := none } 0x800000 0x1f000000

end Aimv6.Mm
