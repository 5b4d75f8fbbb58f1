import Aimv6.Support.Loops

/-! # The stab reader

`readstab.c`: the section headers of an ELF file are scanned for the stab section
and its strings, once for each word size. The file is a list of bytes behind a
descriptor with a position; a structure is the bytes that were read into it.
What is left out is the printing of the entries.
-/

namespace Aimv6.Tools

open Support

/-- The machine that the reader runs on: the order of the bytes in a word, whether `malloc(n)` has
memory, and what memory holds that nothing has been stored in. -/
structure Host where
  bigEndian : Bool
  malloc : Nat → Bool
  fresh : Nat → List UInt8
  fresh_length : ∀ n, (fresh n).length = n

/-- Why the reader ends early: `err` and `errx` with a status, or an access to memory that is not its
own or was never stored in. -/
inductive Exit where
  | err (status : Nat)
  | outOfBounds
  | uninitialised
deriving DecidableEq, Repr

structure Field where
  offset : Nat
  width : Nat

namespace Host

def value (host : Host) (bytes : List UInt8) : Nat :=
  if host.bigEndian then bytes.foldl (fun n b => 256 * n + b.toNat) 0
  else bytes.foldr (fun b n => b.toNat + 256 * n) 0

def field (host : Host) (raw : List UInt8) (f : Field) : Nat :=
  host.value ((raw.drop f.offset).take f.width)

end Host

/-! ## System calls -/

/-- `read(fd, p, n)` at the position `pos`, for a `p` that holds the `n` bytes `old`. -/
def read (file : List UInt8) (pos : Nat) (old : List UInt8) : List UInt8 × Nat :=
  let got := (file.drop pos).take old.length
  (got ++ old.drop got.length, pos + got.length)

/-- `lseek(fd, off, SEEK_SET)`, with the error where `off` is negative as an `off_t`. -/
def lseek (off : Nat) : Except Exit Nat :=
  if off < 9223372036854775808 then .ok off else .error (.err 4)

def malloc (host : Host) (n : Nat) : Except Exit (List UInt8) :=
  if host.malloc n then .ok (host.fresh n) else .error (.err 4)

/-- `strcmp(s, t) == 0` for a literal `t`; `s` is the rest of its buffer. -/
def strcmpEq : List UInt8 → List UInt8 → Except Exit Bool
  | [], _ => .error .outOfBounds
  | c :: _, [] => .ok (c == 0)
  | c :: s, d :: t => if c = d then strcmpEq s t else .ok false

def STABSTR : List UInt8 := [0x2e, 0x73, 0x74, 0x61, 0x62, 0x73, 0x74, 0x72]

def STABS : List UInt8 := [0x2e, 0x73, 0x74, 0x61, 0x62, 0x73]

/-! ## Headers -/

/-- The fields of the ELF header that the reader uses. -/
structure Ehdr where
  eShoff : Nat
  eShentsize : Nat
  eShnum : Nat
  eShstrndx : Nat
deriving DecidableEq, Repr

structure Shdr where
  sizeof : Nat
  shName : Field
  shOffset : Field
  shSize : Field

def ELF32_SHDR : Shdr := ⟨40, ⟨0, 4⟩, ⟨16, 4⟩, ⟨20, 4⟩⟩

def ELF64_SHDR : Shdr := ⟨64, ⟨0, 4⟩, ⟨24, 8⟩, ⟨32, 8⟩⟩

def elf32Ehdr (host : Host) (raw : List UInt8) : Ehdr :=
  ⟨host.field raw ⟨32, 4⟩, host.field raw ⟨46, 2⟩, host.field raw ⟨48, 2⟩, host.field raw ⟨50, 2⟩⟩

def elf64Ehdr (host : Host) (raw : List UInt8) : Ehdr :=
  ⟨host.field raw ⟨40, 8⟩, host.field raw ⟨58, 2⟩, host.field raw ⟨60, 2⟩, host.field raw ⟨62, 2⟩⟩

/-! ## The scan of the sections -/

/-- The position in the file, and the variables `es`, `stabstr` and `es_stab`. -/
structure Scan where
  pos : Nat
  es : List UInt8
  stabstr : Option (List UInt8)
  esStab : Option (List UInt8)
deriving DecidableEq, Repr

/-- The part in front of the scan: `shstrtab` is loaded, and the position is that of the section
headers. -/
def loadNames (L : Shdr) (host : Host) (file : List UInt8) (eh : Ehdr) :
    Except Exit (List UInt8 × Scan) := do
  let pos ← lseek eh.eShoff
  let pos ← lseek (pos + eh.eShentsize * eh.eShstrndx)
  let (es, _) := read file pos (host.fresh L.sizeof)
  let shstrtab ← malloc host (host.field es L.shSize)
  let pos ← lseek (host.field es L.shOffset)
  let (shstrtab, _) := read file pos shstrtab
  let pos ← lseek eh.eShoff
  .ok (shstrtab, ⟨pos, es, none, none⟩)

/-- The strings of the section `es`, and the position behind them. -/
def loadStabstr (L : Shdr) (host : Host) (file es : List UInt8) :
    Except Exit (List UInt8 × Nat) := do
  let stabstr ← malloc host (host.field es L.shSize)
  let pos ← lseek (host.field es L.shOffset)
  .ok (read file pos stabstr)

/-- One iteration of the scan in `readstab64`. -/
def scan64 (host : Host) (file shstrtab : List UInt8) (_i : Nat) (s : Scan) : Except Exit Scan := do
  let (es64, cur) := read file s.pos s.es
  let s := { s with
    es := es64
    pos := cur }
  let name := shstrtab.drop (host.field es64 ELF64_SHDR.shName)
  let s ← do
    if ← strcmpEq name STABSTR then
      let (stabstr, pos) ← loadStabstr ELF64_SHDR host file es64
      .ok { s with
        stabstr := some stabstr
        pos := pos }
    else if ← strcmpEq name STABS then .ok { s with esStab := some es64 }
    else .ok s
  let pos ← lseek cur
  .ok { s with pos := pos }

/-- One iteration of the scan in `readstab32`. -/
def scan32 (host : Host) (file shstrtab : List UInt8) (_i : Nat) (s : Scan) : Except Exit Scan := do
  let (es32, pos) := read file s.pos s.es
  let s := { s with
    es := es32
    pos := pos }
  let name := shstrtab.drop (host.field es32 ELF32_SHDR.shName)
  if ← strcmpEq name STABSTR then
    let (stabstr, pos) ← loadStabstr ELF32_SHDR host file es32
    .ok { s with
      stabstr := some stabstr
      pos := pos }
  else if ← strcmpEq name STABS then .ok { s with esStab := some es32 }
  else .ok s

/-- `readstab64` up to iteration `count` of the scan. -/
def sections64 (host : Host) (file : List UInt8) (eh : Ehdr) (count : Nat) : Except Exit Scan := do
  let (shstrtab, s) ← loadNames ELF64_SHDR host file eh
  loopUp (scan64 host file shstrtab) count 0 s

/-- `readstab32` up to iteration `count` of the scan. -/
def sections32 (host : Host) (file : List UInt8) (eh : Ehdr) (count : Nat) : Except Exit Scan := do
  let (shstrtab, s) ← loadNames ELF32_SHDR host file eh
  loopUp (scan32 host file shstrtab) count 0 s

/-! ## The entries -/

def SIZEOF_STAB : Nat := 12

def readEntries (file : List UInt8) : Nat → Nat → List UInt8 → List (List UInt8)
  | 0, _, _ => []
  | n + 1, pos, old =>
      let (stab, pos) := read file pos old
      stab :: readEntries file n pos stab

/-- The entries of the section with the header `es`, with the strings that their names are in. -/
def listStabs (L : Shdr) (host : Host) (file : List UInt8) (stabstr : Option (List UInt8))
    (es : Option (List UInt8)) : Except Exit (List (List UInt8) × List UInt8) := do
  match stabstr with
  | none => .error (.err 8)
  | some stabstr =>
      match es with
      | none => .error .uninitialised
      | some es =>
          let pos ← lseek (host.field es L.shOffset)
          let count := host.field es L.shSize / SIZEOF_STAB
          .ok (readEntries file count pos (host.fresh SIZEOF_STAB), stabstr)

def readstab64 (host : Host) (file : List UInt8) (eh : Ehdr) :
    Except Exit (List (List UInt8) × List UInt8) := do
  let s ← sections64 host file eh eh.eShnum
  listStabs ELF64_SHDR host file s.stabstr s.esStab

/-- The entries are those of `es32`, the last header of the scan, as the source has it. -/
def readstab32 (host : Host) (file : List UInt8) (eh : Ehdr) :
    Except Exit (List (List UInt8) × List UInt8) := do
  let s ← sections32 host file eh eh.eShnum
  listStabs ELF32_SHDR host file s.stabstr (some s.es)

/-- `readstab(fname)` for a file that can be opened. -/
def readstab (host : Host) (file : List UInt8) : Except Exit (List (List UInt8) × List UInt8) := do
  let eh := (read file 0 (host.fresh 64)).1
  if eh.take 4 ≠ [0x7f, 0x45, 0x4c, 0x46] then .error (.err 8)
  else if eh[4]? ≠ some 1 ∧ eh[4]? ≠ some 2 then .error (.err 8)
  else if eh[5]? ≠ some 1 ∧ eh[5]? ≠ some 2 then .error (.err 8)
  else if eh[4]? = some 1 then readstab32 host file (elf32Ehdr host eh)
  else readstab64 host file (elf64Ehdr host eh)

end Aimv6.Tools
