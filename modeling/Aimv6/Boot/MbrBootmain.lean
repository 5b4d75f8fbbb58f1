import Aimv6.Base
import Mathlib.Data.Set.Basic
import Mathlib.Order.CompletePartialOrder

/-! # The boot loader of the Zynq board

`mbr_bootmain`: the second partition holds an ELF file; for each of its program
headers the sectors with the bytes of the segment are read to where they belong.
Memory is physical here. Headers are read through a buffer that is filled again
in every pass.
-/

namespace Aimv6.Boot

open Support

/-- The bytes of a card, whose sector numbers are words. -/
abbrev Card := Nat → UInt8

/-- Byte `k` of the sectors from `offset` on. -/
def Card.byte (sd : Card) (offset k : Nat) : UInt8 := sd ((512 * offset + k) % 2199023255552)

/-- `sd_dma_spin_read(pa, count, offset)`, as the loader relies on it: `count` sectors are stored
from `pa` on. -/
def sdDmaSpinRead (sd : Card) (pa count offset : Nat) (m : Memory) : Memory := fun b =>
  if b < 4294967296 ∧ sub32 b pa < 512 * count then sd.byte offset (sub32 b pa) else m b

def MBR_BUFFER : Nat := 0x1300002

def ELF_BUFFER : Nat := 0x1200000

/-- What a pass does with the fields of its header. -/
def bootSegment (sd : Card) (elfAddr pheOffset phePaddr pheFilesz : Nat) (m : Memory) : Memory :=
  -- `u8 offset`
  let offset := (pheOffset &&& 511) % 256
  let startId := pheOffset >>> 9
  let endId := add32 (sub32 (add32 pheOffset pheFilesz) 1 >>> 9) 1
  -- `u16 count`
  sdDmaSpinRead sd (sub32 phePaddr offset) (sub32 endId startId % 65536) (add32 startId elfAddr) m

/-- A pass of the loop, with the value of `phoff` beside the memory. -/
def bootHeader (sd : Card) (elfAddr phentsize : Nat) (r : Memory × Nat) : Memory × Nat :=
  let m := sdDmaSpinRead sd ELF_BUFFER 2 (add32 elfAddr (r.2 >>> 9)) r.1
  let pHeader := ELF_BUFFER + (r.2 &&& 511)
  let pheOffset := load32 m (pHeader + 4)
  let phePaddr := load32 m (pHeader + 12)
  let pheFilesz := load32 m (pHeader + 16)
  (bootSegment sd elfAddr pheOffset phePaddr pheFilesz m, add32 r.2 phentsize)

/-- What `mbr_bootmain` has at hand in front of its loop. -/
structure BootStart where
  mem : Memory
  elfAddr : Nat
  kernelEntry : Nat
  phoff : Nat
  phentsize : Nat
  phnum : Nat

def mbrStart (sd : Card) (m : Memory) : BootStart :=
  let m := sdDmaSpinRead sd MBR_BUFFER 1 0 m
  let elfAddr := load32 m (MBR_BUFFER + 0x1D6)
  let m := sdDmaSpinRead sd ELF_BUFFER 3 elfAddr m
  { mem := m
    elfAddr := elfAddr
    kernelEntry := load32 m (ELF_BUFFER + 0x18)
    phoff := load32 m (ELF_BUFFER + 0x1C)
    phentsize := load32 m (ELF_BUFFER + 0x2A) % 65536
    phnum := load32 m (ELF_BUFFER + 0x2C) % 65536 }

/-- The memory and `phoff` behind `n` passes. -/
def mbrPasses (sd : Card) (m : Memory) (n : Nat) : Memory × Nat :=
  Nat.iterate (bootHeader sd (mbrStart sd m).elfAddr (mbrStart sd m).phentsize) n
    ((mbrStart sd m).mem, (mbrStart sd m).phoff)

/-- `mbr_bootmain()` up to the call of the kernel, and the address it calls. -/
def mbrBootmain (sd : Card) (m : Memory) : Memory × Nat :=
  ((mbrPasses sd m (mbrStart sd m).phnum).1, (mbrStart sd m).kernelEntry)

/-! ## The file -/

/-- The file that begins with sector `elfAddr`. -/
def file (sd : Card) (elfAddr : Nat) : Memory := fun p => sd.byte elfAddr p

def elfAddr (sd : Card) : Nat := load32 (file sd 0) 0x1D6

def PT_LOAD : Nat := 1

structure ProgramHeader where
  type : Nat
  offset : Nat
  paddr : Nat
  filesz : Nat
  offset_lt : offset < 4294967296
  paddr_lt : paddr < 4294967296
  filesz_lt : filesz < 4294967296

def programHeader (m : Memory) (p : Nat) : ProgramHeader where
  type := load32 m p
  offset := load32 m (p + 4)
  paddr := load32 m (p + 12)
  filesz := load32 m (p + 16)
  offset_lt := load32_lt m (p + 4)
  paddr_lt := load32_lt m (p + 12)
  filesz_lt := load32_lt m (p + 16)

def phoff (m : Memory) : Nat := load32 m 0x1C

def phentsize (m : Memory) : Nat := load32 m 0x2A % 65536

def phnum (m : Memory) : Nat := load32 m 0x2C % 65536

/-- The offset of entry `k` of the program header table. -/
def phdrOffset (m : Memory) (k : Nat) : Nat := (phoff m + k * phentsize m) % 4294967296

def phdr (m : Memory) (k : Nat) : ProgramHeader := programHeader m (phdrOffset m k)

/-! ## The passes -/

def loaderBuffers : Set Nat :=
  {b | MBR_BUFFER ≤ b ∧ b < MBR_BUFFER + 512 ∨ ELF_BUFFER ≤ b ∧ b < ELF_BUFFER + 1536}

variable {sd : Card} {m : Memory} {pa count offset b : Nat}

theorem sdDmaSpinRead_in (h₁ : pa ≤ b) (h₂ : b < pa + 512 * count) (hb : b < 4294967296) :
    sdDmaSpinRead sd pa count offset m b = sd.byte offset (b - pa) := by
  have hsub : sub32 b pa = b - pa := sub32_of_le hb h₁
  unfold sdDmaSpinRead
  rw [hsub, if_pos ⟨hb, by omega⟩]

theorem sdDmaSpinRead_out (hpa : pa < 4294967296) (h : b < pa ∨ pa + 512 * count ≤ b)
    (hend : pa + 512 * count ≤ 4294967296) : sdDmaSpinRead sd pa count offset m b = m b := by
  unfold sdDmaSpinRead
  apply if_neg
  unfold sub32
  omega

theorem sdDmaSpinRead_buffer (hb : b ∉ loaderBuffers)
    (h : pa = MBR_BUFFER ∧ count = 1 ∨ pa = ELF_BUFFER ∧ count ≤ 3) :
    sdDmaSpinRead sd pa count offset m b = m b := by
  have hb : ¬ (MBR_BUFFER ≤ b ∧ b < MBR_BUFFER + 512 ∨ ELF_BUFFER ≤ b ∧ b < ELF_BUFFER + 1536) := hb
  unfold MBR_BUFFER ELF_BUFFER at hb h
  exact sdDmaSpinRead_out (by omega) (by omega) (by omega)

theorem byte_add32 (sd : Card) (e p k : Nat) :
    sd.byte (add32 e (p / 512)) (p % 512 + k) = file sd e (p + k) := by
  unfold file Card.byte add32
  congr 1
  omega

theorem header_read (sd : Card) (m : Memory) (e p : Nat) {c : Nat} (hc : c + 4 ≤ 32) :
    load32 (sdDmaSpinRead sd ELF_BUFFER 2 (add32 e (p >>> 9)) m) (ELF_BUFFER + (p &&& 511) + c) =
      load32 (file sd e) (p + c) := by
  have hshift : p >>> 9 = p / 512 := Nat.shiftRight_eq_div_pow p 9
  have hmask : p &&& 511 = p % 512 := Nat.and_two_pow_sub_one_eq_mod p 9
  rw [hshift, hmask]
  apply load32_eq
  intro i hi
  unfold ELF_BUFFER
  rw [sdDmaSpinRead_in (by omega) (by omega) (by omega), Nat.add_assoc p, ← byte_add32]
  exact congrArg _ (by omega)

theorem bootHeader_spec (sd : Card) (e size : Nat) (r : Memory × Nat) :
    let h := programHeader (file sd e) r.2
    bootHeader sd e size r =
      (bootSegment sd e h.offset h.paddr h.filesz
        (sdDmaSpinRead sd ELF_BUFFER 2 (add32 e (r.2 >>> 9)) r.1), add32 r.2 size) := by
  unfold bootHeader
  dsimp only
  rw [header_read sd r.1 e r.2 (by decide), header_read sd r.1 e r.2 (by decide),
    header_read sd r.1 e r.2 (by decide)]
  rfl

/-- What the loader reads in front of its loop. -/
structure Started (sd : Card) (m : Memory) (s : BootStart) : Prop where
  elfAddr : s.elfAddr = elfAddr sd
  phoff : s.phoff = phoff (file sd (Boot.elfAddr sd))
  phentsize : s.phentsize = phentsize (file sd (Boot.elfAddr sd))
  phnum : s.phnum = phnum (file sd (Boot.elfAddr sd))
  mem : ∀ b, b ∉ loaderBuffers → s.mem b = m b

theorem mbrStart_started (sd : Card) (m : Memory) : Started sd m (mbrStart sd m) := by
  have hmbr : load32 (sdDmaSpinRead sd MBR_BUFFER 1 0 m) (MBR_BUFFER + 0x1D6) = elfAddr sd := by
    apply load32_eq
    intro i hi
    unfold MBR_BUFFER
    rw [sdDmaSpinRead_in (by omega) (by omega) (by omega)]
    exact congrArg _ (by omega)
  have hword : ∀ m c, c + 4 ≤ 512 → load32 (sdDmaSpinRead sd ELF_BUFFER 3 (elfAddr sd) m)
      (ELF_BUFFER + c) = load32 (file sd (elfAddr sd)) c := by
    intro m c hc
    apply load32_eq
    intro i hi
    unfold ELF_BUFFER
    rw [sdDmaSpinRead_in (by omega) (by omega) (by omega)]
    exact congrArg _ (by omega)
  unfold mbrStart
  dsimp only
  rw [hmbr]
  constructor
  case elfAddr => rfl
  case phoff => exact hword _ _ (by decide)
  case phentsize => exact congrArg (· % 65536) (hword _ _ (by decide))
  case phnum => exact congrArg (· % 65536) (hword _ _ (by decide))
  case mem =>
    intro b hb
    dsimp only
    rw [sdDmaSpinRead_buffer hb (by decide), sdDmaSpinRead_buffer hb (by decide)]

end Aimv6.Boot
