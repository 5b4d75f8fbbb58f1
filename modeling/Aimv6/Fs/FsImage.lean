import Aimv6.Fs.FsManage

/-! # The file system on disk

`load_fs` and `checkpoint_fs`. The image is the index of the first free block,
the index of the next block for each block, the number of files, and one record
of 20 bytes for each file; an index of -1 stands for `NULL`. It passes through a
buffer of `FS_DATA_SIZE` bytes that `kmalloc` returned.
-/

namespace Aimv6.Fs

open Support

def FS_DATA_SIZE : Nat := 0x00100000

def FS_BASE : Nat := 0xC2000000

/-- `sizeof (fentry_t)` -/
def SIZEOF_FENTRY : Nat := 28

/-- `sizeof (fentry_stored_t)` -/
def SIZEOF_STORED : Nat := 20

/-- The offset of the number of files: `((STORAGE_SIZE >> 9) + 1) * sizeof (int)`. -/
def COUNT_OFFSET : Nat := (NBLOCKS + 1) * 4

/-- What `sd_dma_spin_read(pa, count, sector)` stores. -/
def sdReadBlocks (disk : Nat → Block) (pa count sector : Nat) (mem : Memory) : Memory := fun a =>
  if P2V pa ≤ a ∧ a < P2V pa + 512 * count then
    disk (sector + (a - P2V pa) / 512) (Fin.ofNat 512 (a - P2V pa))
  else mem a

/-- What `sd_dma_spin_write(pa, count, sector)` stores. -/
def sdWriteBlocks (mem : Memory) (pa count sector : Nat) (disk : Nat → Block) : Nat → Block := fun t =>
  if sector ≤ t ∧ t < sector + count then blockAt mem (P2V pa + 512 * (t - sector)) else disk t

/-- The transfers of `1 << 15` blocks; `io i` is what the driver returns for transfer `i`. -/
def transferLoop {α : Type} (transfer : Nat → Nat → α → α) (io : Nat → Int) : Nat → Nat → α → Res α
  | 0, _, a => .ok a
  | n + 1, i, a =>
      if io i < 0 then .error .spin
      else transferLoop transfer io n (i + 1) (transfer (i <<< 15) (1 <<< 15) a)

/-- All transfers of the image: the full ones, then the remaining blocks. -/
def transferImage {α : Type} (transfer : Nat → Nat → α → α) (io : Nat → Int) (a : α) : Res α := do
  let blocks := FS_DATA_SIZE >>> 9
  let a ← transferLoop transfer io (blocks >>> 15) 0 a
  let remain := blocks &&& (1 <<< 15) - 1
  if remain ≠ 0 then
    if io (blocks >>> 15) < 0 then .error .spin else .ok (transfer (blocks >>> 15 <<< 15) remain a)
  else .ok a

/-- The entry that `load_fs` makes of the record at `a`; `next` is the address behind the entry. -/
def loadEntry (mem : Memory) (a : Nat) (next : Option Nat) : Fentry where
  indexNumber := load32 mem a
  fileName := fun j => mem (a + 8 + j)
  firstBlock := some (load32 mem (a + 4) >>> 9)
  nextEntry := next
  occupied := MINUS_ONE

/-- The tables that `load_fs` fills from the image at `va`; the entries go to `fe_table`. -/
def loadTables (fs : FsState) (mem : Memory) (va feTable : Nat) : FsState :=
  let arr1 := va + 4
  let cnt := toInt (load32 mem (va + COUNT_OFFSET))
  let arr2 := va + COUNT_OFFSET + 4
  { freeHead := if toInt (load32 mem va) ≥ 0 then some (load32 mem va) else none
    dbTable := fun i =>
      if i < NBLOCKS then
        { ondiskAddr := add32 STORAGE_BASE (i <<< 9)
          nextBlock :=
            if load32 mem (arr1 + 4 * i) = MINUS_ONE then none else some (load32 mem (arr1 + 4 * i)) }
      else fs.dbTable i
    fentryHead := some feTable
    fentry := fun x =>
      let i := (x - feTable) / SIZEOF_FENTRY
      if x = feTable + SIZEOF_FENTRY * i ∧ (i : Int) < cnt then
        loadEntry mem (arr2 + SIZEOF_STORED * i)
          (if (i : Int) + 1 < cnt then some (feTable + SIZEOF_FENTRY * (i + 1)) else none)
      else fs.fentry x }

/-- `load_fs()`; `va` and `feTable` are what `kmalloc` returns for the buffer and for `fe_table`. -/
def loadFs (w : World) (va feTable : Nat) (io : Nat → Int) : Res World := do
  let mem ← transferImage (fun first count =>
    sdReadBlocks w.disk (add32 (V2P va) (512 * first)) count (FS_BASE >>> 9 + first)) io w.mem
  .ok { w with mem := mem, fs := loadTables w.fs mem va feTable }

/-- `for (x = fentry_head; x; x = x->next_entry) ++num_files;` -/
def countFiles (next : Nat → Option Nat) : Nat → Nat → Option Nat → Option Nat
  | 0, _, _ => none
  | _ + 1, num, none => some num
  | fuel + 1, num, some x => countFiles next fuel (num + 1) (next x)

/-- The record of the entry `x`, stored at `a`. -/
def storeEntry (fs : FsState) (x b a : Nat) (mem : Memory) : Memory :=
  let mem := store32 mem a (fs.indexNumber x)
  let mem := store32 mem (a + 4) (sub32 (fs.dbTable b).ondiskAddr STORAGE_BASE)
  fillBytes (a + 8) (fun j => fs.fileName x (Fin.ofNat 10 j)) 10 mem

/-- The records of the entries from `x` on, the first one stored at `a`. -/
def storeEntries (fs : FsState) : Nat → Nat → Option Nat → Memory → Res Memory
  | 0, _, _, _ => .error .diverge
  | _ + 1, _, none, mem => .ok mem
  | fuel + 1, a, some x, mem =>
      match fs.firstBlock x with
      | none => .error .nullDeref
      | some b => storeEntries fs fuel (a + SIZEOF_STORED) (fs.nextEntry x) (storeEntry fs x b a mem)

/-- What `checkpoint_fs` stores in the buffer at `va`. -/
def storeImage (fs : FsState) (va : Nat) (mem : Memory) : Res Memory := do
  let mem := store32 mem va (fs.freeHead.getD MINUS_ONE)
  let mem := fillWords (va + 4) (fun i => (fs.nextBlock i).getD MINUS_ONE) NBLOCKS mem
  let num ← Res.ofFuel (countFiles fs.nextEntry walkFuel 0 fs.fentryHead)
  let mem := store32 mem (va + COUNT_OFFSET) num
  storeEntries fs walkFuel (va + COUNT_OFFSET + 4) fs.fentryHead mem

/-- `checkpoint_fs()`; `va` is what `kmalloc` returns for the buffer. -/
def checkpointFs (w : World) (va : Nat) (io : Nat → Int) : Res (Int × World) := do
  let mem ← storeImage w.fs va w.mem
  let disk ← transferImage (fun first count =>
    sdWriteBlocks mem (add32 (V2P va) (512 * first)) count (FS_BASE >>> 9 + first)) io w.disk
  .ok (0, { w with mem := mem, disk := disk })

/-! ## Transfers -/

theorem countOffset_eq : COUNT_OFFSET = 131076 := rfl

theorem transferImage_eq {α : Type} {transfer : Nat → Nat → α → α} {io : Nat → Int} {a : α}
    (hio : ∀ i, 0 ≤ io i) : transferImage transfer io a = .ok (transfer 0 2048 a) := by
  have hgood : ¬ io 0 < 0 := Int.not_lt.2 (hio 0)
  have hfull : (FS_DATA_SIZE >>> 9) >>> 15 = 0 := rfl
  have hremain : (FS_DATA_SIZE >>> 9 &&& (1 <<< 15) - 1) = 2048 := rfl
  unfold transferImage
  dsimp only
  rw [hfull, hremain]
  rw [show transferLoop transfer io 0 0 a = .ok a from rfl, Res.ok_bind, if_pos (by decide),
    if_neg hgood]
  rfl

def imageMem (disk : Nat → Block) : Memory := fun o =>
  disk (FS_BASE >>> 9 + o / 512) (Fin.ofNat 512 o)

theorem readImage_at {disk : Nat → Block} {mem : Memory} {va o : Nat}
    (hva : va + FS_DATA_SIZE ≤ 4294967296) (ho : o < FS_DATA_SIZE) :
    sdReadBlocks disk (add32 (V2P va) (512 * 0)) 2048 (FS_BASE >>> 9 + 0) mem (va + o) =
      imageMem disk o := by
  unfold FS_DATA_SIZE at hva ho
  obtain ⟨pa, hpa⟩ : ∃ pa, pa = add32 (V2P va) (512 * 0) := ⟨_, rfl⟩
  have hv : P2V pa = va := by
    rw [hpa]
    unfold P2V V2P add32 sub32 KERNEL_BASE
    omega
  rw [← hpa]
  unfold sdReadBlocks imageMem
  rw [hv, if_pos ⟨Nat.le_add_right va o, by omega⟩, Nat.add_sub_cancel_left, Nat.add_zero]

theorem writeImage_at {disk : Nat → Block} {mem : Memory} {va o : Nat}
    (hva : va + FS_DATA_SIZE ≤ 4294967296) (ho : o < FS_DATA_SIZE) :
    imageMem (sdWriteBlocks mem (add32 (V2P va) (512 * 0)) 2048 (FS_BASE >>> 9 + 0) disk) o =
      mem (va + o) := by
  unfold FS_DATA_SIZE at hva ho
  obtain ⟨pa, hpa⟩ : ∃ pa, pa = add32 (V2P va) (512 * 0) := ⟨_, rfl⟩
  have hv : P2V pa = va := by
    rw [hpa]
    unfold P2V V2P add32 sub32 KERNEL_BASE
    omega
  rw [← hpa]
  unfold sdWriteBlocks imageMem blockAt
  dsimp only
  rw [hv, Nat.add_zero, if_pos ⟨Nat.le_add_right _ _, by omega⟩, Nat.add_sub_cancel_left]
  refine congrArg mem ?_
  show va + 512 * (o / 512) + o % 512 = va + o
  omega

end Aimv6.Fs
