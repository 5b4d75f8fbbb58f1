import Aimv6.Base

/-! # The file system

`fs_manage.c`: a table of data blocks with one link each, which threads both the
free list and the chain of every file, and a list of file entries. A pointer
into `db_table` is the index of the block it designates, and a pointer to an
entry is its address. The memory is the one of the kernel-linear mapping, by
virtual address.
-/

namespace Aimv6.Fs

open Support

def STORAGE_BASE : Nat := 0xC0000000

def STORAGE_SIZE : Nat := 0x01000000

def STORAGE_BLOCK_SIZE : Nat := 0x200

/-- The number of entries of `db_table`: `(STORAGE_SIZE) >> 9`. -/
def NBLOCKS : Nat := STORAGE_SIZE >>> 9

/-- The value -1 of an `int` field. -/
def MINUS_ONE : Nat := 0xFFFFFFFF

structure Datablock where
  nextBlock : Option Nat
  ondiskAddr : Nat

structure Fentry where
  indexNumber : Nat
  fileName : Fin 10 → UInt8
  firstBlock : Option Nat
  nextEntry : Option Nat
  occupied : Nat

/-- Byte `i` of a word, the lowest first, is stored as zero. -/
def clearByte (a i : Nat) : Nat := a - a / 256 ^ i % 256 * 256 ^ i

namespace Fentry

/-- `x->file_name[n]`. Before the name lie the four bytes of `index_number`. -/
def nameByte (e : Fentry) (n : Int) : UInt8 :=
  if n < 0 then UInt8.ofNat (e.indexNumber / 256 ^ (n + 4).toNat)
  else e.fileName (Fin.ofNat 10 n.toNat)

/-- `p->file_name[n] = 0` -/
def clearNameByte (e : Fentry) (n : Int) : Fentry :=
  if n < 0 then { e with indexNumber := clearByte e.indexNumber (n + 4).toNat }
  else { e with fileName := fun j => if j = Fin.ofNat 10 n.toNat then 0 else e.fileName j }

/-- The first `n` bytes are those of the name, and a zero follows. -/
def hasName (e : Fentry) (name : Nat → UInt8) (n : Int) : Bool :=
  (List.range n.toNat).all (fun j => e.fileName (Fin.ofNat 10 j) == name j) && e.nameByte n == 0

end Fentry

abbrev Block := Fin 512 → UInt8

/-- The static variables of `fs_manage.c` with what they point to. -/
structure FsState where
  dbTable : Nat → Datablock
  freeHead : Option Nat
  fentry : Nat → Fentry
  fentryHead : Option Nat

structure World where
  fs : FsState
  mem : Memory
  /-- the sectors of the card -/
  disk : Nat → Block

namespace FsState

def nextBlock (fs : FsState) (b : Nat) : Option Nat := (fs.dbTable b).nextBlock

def firstBlock (fs : FsState) (x : Nat) : Option Nat := (fs.fentry x).firstBlock

def nextEntry (fs : FsState) (x : Nat) : Option Nat := (fs.fentry x).nextEntry

def indexNumber (fs : FsState) (x : Nat) : Nat := (fs.fentry x).indexNumber

def occupied (fs : FsState) (x : Nat) : Nat := (fs.fentry x).occupied

def fileName (fs : FsState) (x : Nat) : Fin 10 → UInt8 := (fs.fentry x).fileName

def setNextBlock (fs : FsState) (b : Nat) (p : Option Nat) : FsState :=
  { fs with dbTable := fun i => if i = b then { fs.dbTable b with nextBlock := p } else fs.dbTable i }

def setOndiskAddr (fs : FsState) (b a : Nat) : FsState :=
  { fs with dbTable := fun i => if i = b then { fs.dbTable b with ondiskAddr := a } else fs.dbTable i }

def setEntry (fs : FsState) (x : Nat) (e : Fentry) : FsState :=
  { fs with fentry := fun i => if i = x then e else fs.fentry i }

def setFirstBlock (fs : FsState) (x : Nat) (p : Option Nat) : FsState :=
  fs.setEntry x { fs.fentry x with firstBlock := p }

def setOccupied (fs : FsState) (x pid : Nat) : FsState := fs.setEntry x { fs.fentry x with occupied := pid }

/-- `for (x = fentry_head; x != NULL; x = x->next_entry) if (...) break;` -/
def find (fs : FsState) (stop : Fentry → Bool) : Res (Option Nat) := do
  let (_, x) ← Res.ofFuel (scan fs.nextEntry (fun x => stop (fs.fentry x)) walkFuel none fs.fentryHead)
  .ok x

/-- The entry that the lookups by index number find. -/
def findIndex (fs : FsState) (index : Nat) : Res (Option Nat) :=
  fs.find fun e => decide (e.indexNumber = index)

/-- `x->occupied != -1 && x->occupied != pid` -/
def heldByOther (fs : FsState) (x pid : Nat) : Prop := fs.occupied x ≠ MINUS_ONE ∧ fs.occupied x ≠ pid

instance (fs : FsState) (x pid : Nat) : Decidable (fs.heldByOther x pid) :=
  inferInstanceAs (Decidable (_ ∧ _))

end FsState

def buildFs (fs : FsState) : FsState :=
  { fs with
    dbTable := fun i =>
      if i < NBLOCKS then
        { ondiskAddr := add32 STORAGE_BASE (i <<< 9)
          nextBlock := if i + 1 = NBLOCKS then none else some (i + 1) }
      else fs.dbTable i
    freeHead := some 0
    fentryHead := none }

def openFile (fs : FsState) (pid index : Nat) : Res (Int × FsState) := do
  match ← fs.findIndex index with
  | none => .ok (-1, fs)
  | some x => if fs.heldByOther x pid then .ok (-2, fs) else .ok (0, fs.setOccupied x pid)

def closeFile (fs : FsState) (pid index : Nat) : Res (Int × FsState) := do
  match ← fs.findIndex index with
  | none => .ok (-1, fs)
  | some x => if fs.heldByOther x pid then .ok (-2, fs) else .ok (0, fs.setOccupied x MINUS_ONE)

/-- The loop of `data_alloc`: `(x, px)` behind the first `n` blocks, nothing at the end of the list. -/
def allocWalk (next : Nat → Option Nat) : Nat → Option Nat → Option Nat →
    Option (Option Nat × Option Nat)
  | 0, x, px => some (x, px)
  | _ + 1, none, _ => none
  | n + 1, some x, _ => allocWalk next n (next x) (some x)

def dataAlloc (fs : FsState) (numBlocks : Int) : Option Nat × FsState :=
  if numBlocks ≤ 0 then (none, fs)
  else match allocWalk fs.nextBlock numBlocks.toNat fs.freeHead none with
    | none => (none, fs)
    | some (x, px) =>
        let cut := match px with
          | some px => fs.setNextBlock px none
          | none => fs
        (fs.freeHead, { cut with freeHead := x })

/-- `while (pt->next_block != NULL) pt = pt->next_block;` -/
def lastBlock (next : Nat → Option Nat) : Nat → Nat → Option Nat
  | 0, _ => none
  | fuel + 1, pt =>
      match next pt with
      | none => some pt
      | some q => lastBlock next fuel q

/-- The 512 bytes of memory at `a`. -/
def blockAt (mem : Memory) (a : Nat) : Block := fun j => mem (a + j)

/-- What `sd_dma_spin_write(pa, 1, sector)` stores. -/
def sdWriteBlock (disk : Nat → Block) (mem : Memory) (pa sector : Nat) : Nat → Block :=
  fun t => if t = sector then blockAt mem (P2V pa) else disk t

/-- What `sd_dma_spin_read(pa, 1, sector)` stores. -/
def sdReadBlock (mem : Memory) (disk : Nat → Block) (pa sector : Nat) : Memory :=
  fun a => if h : P2V pa ≤ a ∧ a < P2V pa + 512 then disk sector ⟨a - P2V pa, by omega⟩ else mem a

/-- The transfers of `append_file`, from block `i` of the buffer on; `io i` is what the driver returns
for the transfer of block `i`. -/
def writeBlocks (fs : FsState) (mem : Memory) (addr : Nat) (io : Nat → Int) :
    Nat → Nat → Option Nat → (Nat → Block) → Res (Nat → Block)
  | 0, _, _, disk => .ok disk
  | _ + 1, _, none, _ => .error .nullDeref
  | n + 1, i, some p, disk =>
      if io i < 0 then .error .spin
      else writeBlocks fs mem addr io n (i + 1) (fs.nextBlock p)
        (sdWriteBlock disk mem (V2P (add32 addr (STORAGE_BLOCK_SIZE * i)))
          ((fs.dbTable p).ondiskAddr >>> 9))

/-- `if (pt != NULL) { while ...; pt->next_block = p; } else x->first_block = p;` for
`pt = x->first_block` -/
def linkBlocks (fs : FsState) (x p : Nat) : Res FsState :=
  match fs.firstBlock x with
  | some pt => do
      let pt ← Res.ofFuel (lastBlock fs.nextBlock walkFuel pt)
      .ok (fs.setNextBlock pt (some p))
  | none => .ok (fs.setFirstBlock x (some p))

/-- `append_file(pid, index_number, addr, size)`. The blocks are taken before the file is looked
up. -/
def appendFile (w : World) (pid index addr : Nat) (size : Int) (io : Nat → Int) :
    Res (Int × World) := do
  let (p, fs) := dataAlloc w.fs size
  match p with
  | none => .ok (-1, { w with fs := fs })
  | some p => do
      match ← fs.findIndex index with
      | none => .ok (-2, { w with fs := fs })
      | some x =>
          if fs.heldByOther x pid then .ok (-3, { w with fs := fs })
          else do
            let fs ← linkBlocks fs x p
            let disk ← writeBlocks fs w.mem addr io size.toNat 0 (some p) w.disk
            .ok (0, { w with fs := fs, disk := disk })

/-- The loop of `recycle_blocks` and the last block of the chain. -/
def recycleWalk : Nat → FsState → Nat → Option (FsState × Nat)
  | 0, _, _ => none
  | fuel + 1, fs, x =>
      let fs := fs.setOndiskAddr x 0
      match fs.nextBlock x with
      | none => some (fs, x)
      | some y => recycleWalk fuel fs y

/-- `recycle_blocks(head)`. Without a block the store behind the loop goes through `NULL`. -/
def recycleBlocks (fs : FsState) (head : Option Nat) : Res FsState :=
  match head with
  | none => .error .nullDeref
  | some head => do
      let (fs, x) ← Res.ofFuel (recycleWalk walkFuel fs head)
      .ok { fs.setNextBlock x fs.freeHead with freeHead := some x }

/-- `recycle_file(pid, index_number)`. The head of the file list stays where it is. -/
def recycleFile (fs : FsState) (pid index : Nat) : Res (Int × FsState) := do
  let (px, x) ← Res.ofFuel
    (scan fs.nextEntry (fun x => decide (fs.indexNumber x = index)) walkFuel none fs.fentryHead)
  match x with
  | none => .ok (-1, fs)
  | some x =>
      if fs.heldByOther x pid then .ok (-2, fs)
      else do
        let unlinked := match px with
          | some px => fs.setEntry px { fs.fentry px with nextEntry := fs.nextEntry x }
          | none => fs
        let fs ← recycleBlocks unlinked (unlinked.firstBlock x)
        .ok (0, fs)

/-- `for (i = 0; i < pos; ++i) p = p->next_block;` -/
def seekWalk (next : Nat → Option Nat) : Nat → Option Nat → Res (Option Nat)
  | 0, p => .ok p
  | _ + 1, none => .error .nullDeref
  | n + 1, some p => seekWalk next n (next p)

def seekDatablock (fs : FsState) (pid index pos : Nat) : Res (Option Nat) := do
  match ← fs.findIndex index with
  | none => .ok none
  | some x => if fs.heldByOther x pid then .ok none else seekWalk fs.nextBlock pos (fs.firstBlock x)

/-- The loop of `read_datablock` from block `i` on, and whether every transfer went well. -/
def readBlocks (fs : FsState) (disk : Nat → Block) (ret : Nat) (io : Nat → Int) :
    Nat → Nat → Option Nat → Memory → Bool × Memory
  | 0, _, _, mem => (true, mem)
  | _ + 1, _, none, mem => (true, mem)
  | n + 1, i, some p, mem =>
      if io i < 0 then (false, mem)
      else readBlocks fs disk ret io n (i + 1) (fs.nextBlock p)
        (sdReadBlock mem disk (V2P (add32 ret (STORAGE_BLOCK_SIZE * i)))
          ((fs.dbTable p).ondiskAddr >>> 9))

/-- `read_datablock(pid, index_number, pos, size)`; `ret` is what `kmalloc` returns. -/
def readDatablock (w : World) (pid index pos size ret : Nat) (io : Nat → Int) :
    Res (Option Nat × World) := do
  let p ← seekDatablock w.fs pid index pos
  let (good, mem) := readBlocks w.fs w.disk ret io size 0 p w.mem
  .ok (if good then ptr ret else none, { w with mem := mem })

/-- `fname_to_fd(name, n)`. With `n < -4` the byte compared lies before the entry. -/
def fnameToFd (fs : FsState) (name : Nat → UInt8) (n : Int) : Res Int :=
  if n ≥ 10 then .ok (-1)
  else if n < -4 ∧ fs.fentryHead.isSome then .error .outOfBounds
  else do
    match ← fs.find fun e => e.hasName name n with
    | none => .ok (-1)
    | some x => .ok (toInt (fs.indexNumber x))

/-- The search of `create_file_from_name` for the first unused descriptor, from `fd` on. -/
def unusedFd (fs : FsState) : Nat → Nat → Res Nat
  | 0, _ => .error .diverge
  | fuel + 1, fd => do
      match ← fs.findIndex fd with
      | none => .ok fd
      | some _ => unusedFd fs fuel (fd + 1)

/-- `create_file_from_name(name, n)`; `p` is what `slb_alloc_align` returns. Of the name the new
entry gets `n + 1` zeros, as the source has it; with a negative `n` the zero goes into its number, or
before the entry. -/
def createFileFromName (fs : FsState) (name : Nat → UInt8) (n : Int) (p : Option Nat) :
    Res (Int × FsState) :=
  if n ≥ 10 then .ok (-1, fs)
  else do
    let same ← fnameToFd fs name n
    if same = 0 then .ok (-2, fs)
    else do
      let fd ← unusedFd fs walkFuel 1
      match p with
      | none => .ok (-3, fs)
      | some p =>
          let entry : Fentry :=
            { indexNumber := fd
              fileName := fun j => if (j.val : Int) < n then 0 else (fs.fentry p).fileName j
              firstBlock := none
              nextEntry := fs.fentryHead
              occupied := MINUS_ONE }
          if n < -4 then .error .outOfBounds
          else .ok (fd, { fs.setEntry p (entry.clearNameByte n) with fentryHead := some p })

end Aimv6.Fs
