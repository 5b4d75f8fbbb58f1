import Aimv6.Boot.MbrBootmain

/-! # The boot sector of the Loongson board

`_boot`: the program headers are read one after another from the disk. Where one
of them asks for a segment the stream is moved there by a relative seek and moved
back by the same distance, so that it stays ahead by what was read of the segment.
-/

namespace Aimv6.Boot.Loongson

open Support

/-- `sizeof(struct elf64hdr)` -/
def SIZEOF_ELF64HDR : Nat := 64

/-- `sizeof(struct elf64_phdr)` -/
def SIZEOF_ELF64_PHDR : Nat := 56

def BUFFER : Nat := 0x80180000

/-- Where PMON loads `_boot` to. -/
def BOOT : Nat := 0x80100000

def PART1_ENTRY : Nat := 0x1CE

def PART_SECTOR_START : Nat := 8

abbrev Disk := Int → UInt8

/-- A call of `read`: the position of the stream before it, and its arguments. -/
structure Read where
  position : Int
  buf : Nat
  count : Nat
deriving DecidableEq, Repr

structure BootState where
  mem : Memory
  /-- the position of the stream behind `fd` -/
  position : Int
  pos : Nat
  /-- the calls of `read` so far -/
  reads : List Read

namespace BootState

/-- `read(fd, buf, count)`, one of the functions of PMON. -/
def read (s : BootState) (disk : Disk) (buf count : Nat) : BootState :=
  { s with
    mem := storeBytes buf count (fun k => disk (s.position + k)) s.mem
    position := s.position + count
    reads := s.reads ++ [⟨s.position, buf, count⟩] }

def lseek (s : BootState) (off : Int) : BootState := { s with position := s.position + off }

/-- `pos += size` -/
def advance (s : BootState) (size : Nat) : BootState := { s with pos := add32 s.pos size }

end BootState

def load64 (m : Memory) (a : Nat) : Nat := load32 m a + 4294967296 * load32 m (a + 4)

/-- `struct elf64_phdr`, as far as it is looked at -/
structure ProgramHeader where
  type : Nat
  offset : Nat
  vaddr : Nat
  filesz : Nat
deriving DecidableEq, Repr

def programHeader (m : Memory) (p : Nat) : ProgramHeader :=
  ⟨load32 m p, load64 m (p + 8), load64 m (p + 16), load64 m (p + 32)⟩

def loadSegment (disk : Disk) (ph : ProgramHeader) (s : BootState) : BootState :=
  let off := sub32 (ph.offset % 4294967296) s.pos
  let s := if off ≠ 0 then s.lseek (toInt off) else s
  let s := s.read disk (ph.vaddr % 4294967296) (ph.filesz % 4294967296)
  if off ≠ 0 then s.lseek (toInt (sub32 0 off)) else s

/-- The header that a pass finds in its buffer. -/
def headerAt (disk : Disk) (s : BootState) : ProgramHeader :=
  programHeader (s.read disk BUFFER SIZEOF_ELF64_PHDR).mem BUFFER

def bootPass (disk : Disk) (s : BootState) : BootState :=
  let ph := headerAt disk s
  let s := (s.read disk BUFFER SIZEOF_ELF64_PHDR).advance SIZEOF_ELF64_PHDR
  if ph.type = PT_LOAD then loadSegment disk ph s else s

def sectorStart (m : Memory) : Nat :=
  let part1 := BOOT + PART1_ENTRY
  (load32 m (part1 + PART_SECTOR_START + 2) % 65536) <<< 16 +
    load32 m (part1 + PART_SECTOR_START) % 65536

/-- Behind `findsect` and the read of the ELF header. -/
def bootStart (disk : Disk) (m : Memory) : BootState :=
  let s : BootState := ⟨m, 512 * sectorStart m, 0, []⟩
  (s.read disk BUFFER SIZEOF_ELF64HDR).advance SIZEOF_ELF64HDR

/-- `eh->e_phnum` -/
def ePhnum (m : Memory) : Nat := load32 m (BUFFER + 56) % 65536

/-- `(unsigned int)(eh->e_entry)` -/
def eEntry (m : Memory) : Nat := load32 m (BUFFER + 24)

/-- The state in front of pass `i`. -/
def bootPasses (disk : Disk) (m : Memory) (i : Nat) : BootState :=
  Nat.iterate (bootPass disk) i (bootStart disk m)

/-- `_boot()` up to the jump to the kernel, and the address it jumps to. -/
def boot (disk : Disk) (m : Memory) : BootState × Nat :=
  (bootPasses disk m (ePhnum (bootStart disk m).mem), eEntry (bootStart disk m).mem)

/-! ## The image -/

/-- The image in the partition whose first byte is `base`. -/
def image (disk : Disk) (base : Int) : Memory := fun p => disk (base + p)

def phnum (f : Memory) : Nat := load32 f 56 % 65536

/-- Program header `i`: the headers follow the ELF header. -/
def phdr (f : Memory) (i : Nat) : ProgramHeader :=
  programHeader f (SIZEOF_ELF64HDR + i * SIZEOF_ELF64_PHDR)

/-- The value of `pos` in front of pass `i`. -/
def posAt (i : Nat) : Nat := SIZEOF_ELF64HDR + i * SIZEOF_ELF64_PHDR

/-- What should hold in front of each pass, and what the pass should read. -/
structure InStep (disk : Disk) (m : Memory) (base : Int) (f : Memory) : Prop where
  position : ∀ i < phnum f, (bootPasses disk m i).position = base + posAt i
  pos : ∀ i < phnum f, (bootPasses disk m i).pos = posAt i
  header : ∀ i < phnum f, headerAt disk (bootPasses disk m i) = phdr f i
  segment : ∀ i < phnum f, (phdr f i).type = PT_LOAD → 0 < (phdr f i).filesz →
    (bootPasses disk m (i + 1)).reads = (bootPasses disk m i).reads ++
      [⟨base + posAt i, BUFFER, SIZEOF_ELF64_PHDR⟩,
        ⟨base + (phdr f i).offset, (phdr f i).vaddr % 4294967296, (phdr f i).filesz⟩]

/-- The headers with which the stream stays in step. -/
structure Steady (f : Memory) : Prop where
  /-- nothing is read for a header but the last one, and the way back is the way there -/
  inner : ∀ i, i + 1 < phnum f → (phdr f i).type = PT_LOAD → (phdr f i).filesz = 0 ∧
    sub32 ((phdr f i).offset % 4294967296) (posAt (i + 1)) ≠ 2147483648
  /-- offset and size fit into an `int` and a word -/
  reach : ∀ i < phnum f, (phdr f i).type = PT_LOAD → 0 < (phdr f i).filesz →
    (phdr f i).filesz < 4294967296 ∧ (phdr f i).offset < posAt (i + 1) + 2147483648 ∧
      posAt (i + 1) ≤ (phdr f i).offset + 2147483648

variable {disk : Disk} {m : Memory} {s : BootState} {base : Int} {ph : ProgramHeader} {i p : Nat}

/-! ## One pass -/

/-- How far the stream is ahead behind a segment: by what was read of it, or else by a distance that
has no opposite. -/
def drift (ph : ProgramHeader) (pos : Nat) : Int :=
  ph.filesz % 4294967296 +
    if sub32 (ph.offset % 4294967296) pos = 2147483648 then -4294967296 else 0

theorem toInt_add_neg {w : Nat} (hw : w < 4294967296) :
    toInt w + toInt (sub32 0 w) = if w = 2147483648 then -4294967296 else 0 := by
  unfold toInt sub32
  split
  · split
    · split
      · omega
      · omega
    · split
      · omega
      · omega
  · split
    · split
      · omega
      · omega
    · split
      · omega
      · omega

theorem loadSegment_spec (disk : Disk) (ph : ProgramHeader) (s : BootState) :
    let s' := loadSegment disk ph s
    s'.position = s.position + drift ph s.pos ∧ s'.pos = s.pos ∧
      s'.reads = s.reads ++ [⟨s.position + toInt (sub32 (ph.offset % 4294967296) s.pos),
        ph.vaddr % 4294967296, ph.filesz % 4294967296⟩] := by
  obtain ⟨w, hw⟩ : ∃ w, sub32 (ph.offset % 4294967296) s.pos = w := ⟨_, rfl⟩
  have hlt : w < 4294967296 := by
    rw [← hw]
    exact Nat.mod_lt _ (by decide)
  have hback := toInt_add_neg hlt
  unfold loadSegment drift
  dsimp only
  rw [hw]
  by_cases hzero : w = 0
  · rw [if_neg (not_not.2 hzero), if_neg (not_not.2 hzero), hzero]
    have hnone : toInt 0 = 0 := by decide
    rw [hnone, Int.add_zero, if_neg (by decide), Int.add_zero]
    exact ⟨rfl, rfl, rfl⟩
  · rw [if_pos hzero, if_pos hzero]
    unfold BootState.read BootState.lseek
    refine ⟨?_, rfl, rfl⟩
    dsimp only
    rw [← hback]
    omega

theorem headerAt_spec (hposition : s.position = base + p) :
    headerAt disk s = programHeader (image disk base) p := by
  have hword : ∀ c, c + 4 ≤ 56 →
      load32 (s.read disk BUFFER SIZEOF_ELF64_PHDR).mem (BUFFER + c) = load32 (image disk base) (p + c) := by
    intro c hc
    apply load32_eq
    intro k hk
    unfold BootState.read SIZEOF_ELF64_PHDR image
    dsimp only
    rw [storeBytes_in (by omega) (by omega), hposition]
    exact congrArg disk (by omega)
  unfold headerAt programHeader load64
  rw [hword 8 (by decide), hword 16 (by decide), hword 32 (by decide)]
  have hzero := hword 0 (by decide)
  have hhigh := hword 12 (by decide)
  have hhigh' := hword 20 (by decide)
  have hhigh'' := hword 36 (by decide)
  rw [Nat.add_zero, Nat.add_zero] at hzero
  simp only [Nat.add_assoc, Nat.reduceAdd]
  rw [hzero, hhigh, hhigh', hhigh'']

theorem bootPass_spec (hposition : s.position = base + p) :
    let ph := programHeader (image disk base) p
    let s' := bootPass disk s
    let pos := add32 s.pos SIZEOF_ELF64_PHDR
    s'.pos = pos ∧
    s'.position = base + p + SIZEOF_ELF64_PHDR + (if ph.type = PT_LOAD then drift ph pos else 0) ∧
    (ph.type = PT_LOAD → s'.reads = s.reads ++ [⟨base + p, BUFFER, SIZEOF_ELF64_PHDR⟩,
      ⟨base + p + SIZEOF_ELF64_PHDR + toInt (sub32 (ph.offset % 4294967296) pos),
        ph.vaddr % 4294967296, ph.filesz % 4294967296⟩]) := by
  obtain ⟨ph, hph⟩ : ∃ ph, programHeader (image disk base) p = ph := ⟨_, rfl⟩
  obtain ⟨s₁, hs₁⟩ : ∃ s₁, (s.read disk BUFFER SIZEOF_ELF64_PHDR).advance SIZEOF_ELF64_PHDR = s₁ :=
    ⟨_, rfl⟩
  have hposition₁ : s₁.position = base + p + SIZEOF_ELF64_PHDR := by
    rw [← hs₁, ← hposition]
    rfl
  have hpos₁ : s₁.pos = add32 s.pos SIZEOF_ELF64_PHDR := by
    rw [← hs₁]
    rfl
  have hreads₁ : s₁.reads = s.reads ++ [⟨base + p, BUFFER, SIZEOF_ELF64_PHDR⟩] := by
    rw [← hs₁, ← hposition]
    rfl
  dsimp only
  unfold bootPass
  rw [headerAt_spec hposition, hph]
  dsimp only
  rw [hs₁]
  obtain ⟨hseek, hsame, hreads⟩ := loadSegment_spec disk ph s₁
  by_cases htype : ph.type = PT_LOAD
  · rw [if_pos htype, if_pos htype, hseek, hsame, hreads, hposition₁, hpos₁, hreads₁]
    refine ⟨rfl, rfl, fun _ => ?_⟩
    rw [List.append_assoc]
    rfl
  · rw [if_neg htype, if_neg htype, Int.add_zero]
    exact ⟨hpos₁, hposition₁, fun hload => absurd hload htype⟩

theorem bootPass_skips (hposition : s.position = base + p)
    (htype : (programHeader (image disk base) p).type ≠ PT_LOAD) :
    (bootPass disk s).reads = s.reads ++ [⟨base + p, BUFFER, SIZEOF_ELF64_PHDR⟩] := by
  unfold bootPass
  rw [headerAt_spec hposition]
  dsimp only
  rw [if_neg htype, ← hposition]
  rfl

theorem bootPasses_succ (disk : Disk) (m : Memory) (i : Nat) :
    bootPasses disk m (i + 1) = bootPass disk (bootPasses disk m i) :=
  Function.iterate_succ_apply' (bootPass disk) i (bootStart disk m)

theorem bootStart_word {c : Nat} (hc : c + 4 ≤ 64) : load32 (bootStart disk m).mem (BUFFER + c) =
    load32 (image disk (512 * sectorStart m)) c := by
  apply load32_eq
  intro k hk
  unfold bootStart BootState.advance BootState.read SIZEOF_ELF64HDR image
  dsimp only
  rw [storeBytes_in (by omega) (by omega)]
  exact congrArg disk (by omega)

theorem bootStart_spec (disk : Disk) (m : Memory) :
    let base : Int := 512 * sectorStart m
    (bootStart disk m).position = base + posAt 0 ∧ (bootStart disk m).pos = posAt 0 ∧
      ePhnum (bootStart disk m).mem = phnum (image disk base) := by
  exact ⟨rfl, rfl, congrArg (· % 65536) (bootStart_word (by decide))⟩

/-! ## The loop -/

theorem posAt_succ (hi : i < 65536) : add32 (posAt i) SIZEOF_ELF64_PHDR = posAt (i + 1) := by
  unfold add32 posAt SIZEOF_ELF64HDR SIZEOF_ELF64_PHDR
  omega

theorem posAt_lt (hi : i < 65536) : posAt (i + 1) < 4294967296 := by
  unfold posAt SIZEOF_ELF64HDR SIZEOF_ELF64_PHDR
  omega

/-- No distance between two words of which one is small is the same as another. -/
theorem toInt_sub32_eq_iff {o pos : Nat} (hpos : pos < 4294967296) :
    toInt (sub32 (o % 4294967296) pos) = (o : Int) - pos ↔
      o < pos + 2147483648 ∧ pos ≤ o + 2147483648 := by
  unfold toInt sub32
  split
  · omega
  · omega

/-- The pass is in step and leaves the stream in step. -/
structure At (disk : Disk) (m : Memory) (base : Int) (i : Nat) : Prop where
  position : (bootPasses disk m i).position = base + posAt i
  pos : (bootPasses disk m i).pos = posAt i

theorem At.next {f : Memory} (hat : At disk m base i) (hf : f = image disk base) (hi : i < 65536) :
    (bootPasses disk m (i + 1)).pos = posAt (i + 1) ∧
    (bootPasses disk m (i + 1)).position = base + posAt (i + 1) +
      (if (phdr f i).type = PT_LOAD then drift (phdr f i) (posAt (i + 1)) else 0) ∧
    ((phdr f i).type = PT_LOAD → (bootPasses disk m (i + 1)).reads = (bootPasses disk m i).reads ++
      [⟨base + posAt i, BUFFER, SIZEOF_ELF64_PHDR⟩,
        ⟨base + posAt (i + 1) + toInt (sub32 ((phdr f i).offset % 4294967296) (posAt (i + 1))),
          (phdr f i).vaddr % 4294967296, (phdr f i).filesz % 4294967296⟩]) := by
  have hspec := @bootPass_spec disk (bootPasses disk m i) base (posAt i) hat.position
  have hnext : base + posAt i + SIZEOF_ELF64_PHDR = base + posAt (i + 1) := by
    unfold posAt SIZEOF_ELF64_PHDR
    omega
  dsimp only at hspec
  rw [hat.pos, posAt_succ hi, hnext, ← bootPasses_succ, ← hf] at hspec
  exact hspec

theorem drift_eq_zero_iff {pos : Nat} : drift ph pos = 0 ↔
    ph.filesz % 4294967296 = 0 ∧ sub32 (ph.offset % 4294967296) pos ≠ 2147483648 := by
  unfold drift
  split
  · omega
  · omega

theorem phnum_lt (f : Memory) : phnum f < 65536 := Nat.mod_lt _ (by decide)

theorem Steady.at {f : Memory} (hf : f = image disk (512 * sectorStart m)) (h : Steady f)
    (hi : i < phnum f) : At disk m (512 * sectorStart m) i := by
  induction i with
  | zero =>
      obtain ⟨hposition, hpos, -⟩ := bootStart_spec disk m
      exact ⟨hposition, hpos⟩
  | succ i ih =>
      have hlt := phnum_lt f
      obtain ⟨hpos, hposition, -⟩ := (ih (by omega)).next hf (by omega)
      refine ⟨?_, hpos⟩
      rw [hposition]
      by_cases htype : (phdr f i).type = PT_LOAD
      · obtain ⟨hempty, hback⟩ := h.inner i hi htype
        have hzero : (phdr f i).filesz % 4294967296 = 0 := by
          rw [hempty]
        rw [if_pos htype, drift_eq_zero_iff.2 ⟨hzero, hback⟩, Int.add_zero]
      · rw [if_neg htype, Int.add_zero]

theorem Steady.inStep {f : Memory} (hf : f = image disk (512 * sectorStart m)) (h : Steady f) :
    InStep disk m (512 * sectorStart m) f := by
  have hlt := phnum_lt f
  have hat : ∀ i < phnum f, At disk m (512 * sectorStart m) i := fun i hi => h.at hf hi
  constructor
  case position => exact fun i hi => (hat i hi).position
  case pos => exact fun i hi => (hat i hi).pos
  case header =>
    intro i hi
    rw [hf]
    exact headerAt_spec (hat i hi).position
  case segment =>
    intro i hi htype hfilesz
    obtain ⟨hsize, hreach⟩ := h.reach i hi htype hfilesz
    rw [((hat i hi).next hf (by omega)).2.2 htype, (toInt_sub32_eq_iff (posAt_lt (by omega))).2 hreach,
      Nat.mod_eq_of_lt hsize]
    have hposition : (512 * sectorStart m : Int) + posAt (i + 1) +
        (((phdr f i).offset : Int) - posAt (i + 1)) = 512 * sectorStart m + (phdr f i).offset := by
      omega
    rw [hposition]

/-! ## All of `_boot` -/

def fetched (s : BootState) : List Read := s.reads.filter (0 < ·.count)

/-- What pass `i` should fetch: header `i`, and the segment that it asks for. -/
def passReads (base : Int) (f : Memory) (i : Nat) : List Read :=
  ⟨base + posAt i, BUFFER, SIZEOF_ELF64_PHDR⟩ ::
    if (phdr f i).type = PT_LOAD ∧ 0 < (phdr f i).filesz then
      [⟨base + (phdr f i).offset, (phdr f i).vaddr % 4294967296, (phdr f i).filesz⟩]
    else []

theorem Steady.fetched_succ {f : Memory} (hf : f = image disk (512 * sectorStart m)) (h : Steady f)
    (hi : i < phnum f) : fetched (bootPasses disk m (i + 1)) =
      fetched (bootPasses disk m i) ++ passReads (512 * sectorStart m) f i := by
  have hlt := phnum_lt f
  have hat := h.at hf hi
  unfold fetched passReads
  by_cases htype : (phdr f i).type = PT_LOAD
  · by_cases hfilesz : 0 < (phdr f i).filesz
    · rw [(h.inStep hf).segment i hi htype hfilesz, if_pos ⟨htype, hfilesz⟩, List.filter_append]
      simp [SIZEOF_ELF64_PHDR, hfilesz]
    · have hzero : (phdr f i).filesz % 4294967296 = 0 := by
        rw [Nat.eq_zero_of_not_pos hfilesz]
      rw [(hat.next hf (by omega)).2.2 htype, if_neg fun hand => hfilesz hand.2, List.filter_append,
        hzero]
      simp [SIZEOF_ELF64_PHDR]
  · have hskip : (programHeader (image disk (512 * sectorStart m)) (posAt i)).type ≠ PT_LOAD := by
      rw [← hf]
      exact htype
    rw [bootPasses_succ, bootPass_skips hat.position hskip, if_neg fun hand => htype hand.1,
      List.filter_append]
    simp [SIZEOF_ELF64_PHDR]

theorem Steady.fetched_passes {f : Memory} (hf : f = image disk (512 * sectorStart m)) (h : Steady f)
    (hi : i ≤ phnum f) : fetched (bootPasses disk m i) =
      ⟨512 * sectorStart m, BUFFER, SIZEOF_ELF64HDR⟩ ::
        (List.range i).flatMap (passReads (512 * sectorStart m) f) := by
  induction i with
  | zero => rfl
  | succ i ih =>
      rw [h.fetched_succ hf (by omega), ih (by omega), List.range_succ, List.flatMap_append,
        List.flatMap_singleton, List.cons_append]

/-- With steady headers `_boot` fetches the ELF header and then header after header, each with its
segment, and jumps to the entry of the image. -/
theorem Steady.boot_fetches {f : Memory} (hf : f = image disk (512 * sectorStart m)) (h : Steady f) :
    fetched (boot disk m).1 = ⟨512 * sectorStart m, BUFFER, SIZEOF_ELF64HDR⟩ ::
      (List.range (phnum f)).flatMap (passReads (512 * sectorStart m) f) ∧
    (boot disk m).2 = load32 f 24 := by
  have hcount : ePhnum (bootStart disk m).mem = phnum f :=
    (bootStart_spec disk m).2.2.trans (congrArg phnum hf.symm)
  unfold boot eEntry
  rw [hcount, bootStart_word (by decide), ← hf]
  exact ⟨h.fetched_passes hf (Nat.le_refl _), rfl⟩

/-! ## When it stays in step -/

/-- A segment that was read from its offset lies within reach of the seek. -/
theorem InStep.reach {f : Memory} (hf : f = image disk base) (h : InStep disk m base f)
    (hi : i < phnum f) (htype : (phdr f i).type = PT_LOAD) (hfilesz : 0 < (phdr f i).filesz) :
    (phdr f i).filesz < 4294967296 ∧ (phdr f i).offset < posAt (i + 1) + 2147483648 ∧
      posAt (i + 1) ≤ (phdr f i).offset + 2147483648 := by
  have hlt := phnum_lt f
  have hat : At disk m base i := ⟨h.position i hi, h.pos i hi⟩
  have hreads := (hat.next hf (by omega)).2.2 htype
  rw [h.segment i hi htype hfilesz] at hreads
  have hread := (List.cons.inj (List.cons.inj (List.append_cancel_left hreads)).2).1
  obtain ⟨hposition, -, hcount⟩ := Read.mk.inj hread
  have hoff : toInt (sub32 ((phdr f i).offset % 4294967296) (posAt (i + 1))) =
      ((phdr f i).offset : Int) - posAt (i + 1) := by omega
  exact ⟨by omega, (toInt_sub32_eq_iff (posAt_lt (by omega))).1 hoff⟩

theorem InStep.steady {f : Memory} (hf : f = image disk base) (h : InStep disk m base f) :
    Steady f := by
  have hlt := phnum_lt f
  constructor
  case inner =>
    intro i hi htype
    have hat : At disk m base i := ⟨h.position i (by omega), h.pos i (by omega)⟩
    have hposition := (hat.next hf (by omega)).2.1
    rw [h.position (i + 1) hi, if_pos htype] at hposition
    obtain ⟨hzero, hback⟩ := drift_eq_zero_iff.1 (show drift (phdr f i) (posAt (i + 1)) = 0 by omega)
    refine ⟨?_, hback⟩
    by_contra hne
    have hsize := (h.reach hf (by omega) htype (Nat.pos_of_ne_zero hne)).1
    omega
  case reach => exact fun i hi htype hfilesz => h.reach hf hi htype hfilesz

/-- The stream of `_boot` stays in step with `pos` and every segment is read from its offset to its
address exactly if the headers are steady. -/
theorem boot_in_step_iff (disk : Disk) (m : Memory) :
    let base : Int := 512 * sectorStart m
    let f := image disk base
    ePhnum (bootStart disk m).mem = phnum f ∧ (InStep disk m base f ↔ Steady f) := by
  obtain ⟨f, hf⟩ : ∃ f, f = image disk (512 * sectorStart m) := ⟨_, rfl⟩
  dsimp only
  rw [← hf]
  refine ⟨(bootStart_spec disk m).2.2.trans (congrArg phnum hf.symm), ?_⟩
  constructor
  · exact fun hstep => hstep.steady hf
  · exact fun hsteady => hsteady.inStep hf

/-- A disk with an image of two segments of four bytes each. -/
def sampleDisk : Disk := fun i =>
  [(0, 0x464C457F), (56, 2), (64, PT_LOAD), (72, 0x1000), (80, 0x80200000), (96, 4),
    (120, PT_LOAD), (128, 0x2000), (136, 0x80300000), (152, 4)].foldl
    (fun m w => store32 m w.1 w.2) (fun _ => 0) i.toNat

/-- The second pass begins four bytes behind its header. -/
theorem boot_drifts : ∃ (disk : Disk) (m : Memory),
    ¬ InStep disk m (512 * sectorStart m) (image disk (512 * sectorStart m)) := by
  refine ⟨sampleDisk, fun _ => 0, fun hstep => ?_⟩
  have hcount : 1 < phnum (image sampleDisk (512 * sectorStart fun _ => 0)) := by decide +kernel
  have hposition := hstep.position 1 hcount
  have hdrift : (bootPasses sampleDisk (fun _ => 0) 1).position ≠
      512 * (sectorStart fun _ => 0) + posAt 1 := by decide +kernel
  exact hdrift hposition

end Aimv6.Boot.Loongson
