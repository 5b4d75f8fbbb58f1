import Aimv6.Base
import Aimv6.Support.Emitter

/-! # The formatter

`lib/libc/stdio/snprintf.c`, for both targets that link it. The body of
`vsnprintf` jumps between its loops; every place that it jumps to or tests a
loop at is a control point, and a `set_ch` is one step that emits a character.
Reading `fmt` beyond its NUL and an index outside `buf` are faults.
-/

namespace Aimv6.Libc

open Support

/-- The targets of the build, `Makefile.armv7a-le` and `Makefile.mips64`. -/
inductive Target where
  | armv7a
  | mips64
deriving DecidableEq, Repr

def Target.longBits : Target → Nat
  | .armv7a => 32
  | .mips64 => 64

/-- A `long`, an `unsigned long`, a `size_t` or a pointer. -/
abbrev Long (T : Target) := BitVec T.longBits

def FLAG_ZEROPAD : BitVec 32 := 0x002

def FLAG_NEG : BitVec 32 := 0x100

def BUF_SIZE : Nat := 25

def digits : List UInt8 := "0123456789ABCDEF".toList.map Char.toUInt8

def isDigit (ch : UInt8) : Bool := decide (ch ≥ '0'.toUInt8) && decide (ch ≤ '9'.toUInt8)

/-- `*p`, where the list holds the characters from `p` to the NUL. -/
def deref (p : List UInt8) : UInt8 := p.headD 0

inductive Label where
  | d
  | o
  | x
  | u
  | c
  | s
  | percent
  | zero
  | nonzero
  | other
deriving DecidableEq, Repr

def Label.of (ch : UInt8) : Label :=
  if ch = 'd'.toUInt8 then .d
  else if ch = 'o'.toUInt8 then .o
  else if ch = 'x'.toUInt8 ∨ ch = 'p'.toUInt8 then .x
  else if ch = 'u'.toUInt8 then .u
  else if ch = 'c'.toUInt8 then .c
  else if ch = 's'.toUInt8 then .s
  else if ch = '%'.toUInt8 then .percent
  else if ch = '0'.toUInt8 then .zero
  else if isDigit ch then .nonzero
  else .other

inductive Control where
  /-- `for ( ; *fmt != '\0'; )` -/
  | main
  /-- `fmt_loop:` -/
  | fmtLoop
  /-- `for ( ; is_digit(*fmt); ++fmt)` -/
  | widthLoop
  /-- `while (uval > 0)` -/
  | digitLoop
  /-- `while ((--buf_pos) >= 0)` -/
  | printDigits
  /-- `while ((--width) >= 0)`, with zeros in front -/
  | zeroPad
  /-- `while ((--width) >= 0)`, with blanks in front -/
  | blankPad
  /-- `for (len = 0; *s != '\0'; ++s, ++len)` -/
  | copyString
  /-- `for (; len < width; ++len)` -/
  | padString
  /-- `++fmt; break;` and then `flag = 0; width = 0; continue;` -/
  | nextFmt
  /-- `print_default:` -/
  | printDefault
  /-- `fmt` points behind the NUL. -/
  | beyond
deriving DecidableEq, Repr

/-- The variables of `vsnprintf`, but for `str` and `pos`. -/
structure State (T : Target) where
  control : Control
  fmt : List UInt8
  /-- the words of the `va_list` that are still to come -/
  ap : Nat → Long T
  uval : Long T
  width : Long T
  base : Long T
  flag : BitVec 32
  len : BitVec 32
  bufPos : Nat
  buf : Nat → UInt8
  s : List UInt8

namespace State

variable {T : Target}

/-- `++fmt`, and on to a control point. -/
def skip (m : State T) (control : Control) : State T :=
  match m.fmt with
  | [] => { m with control := .beyond }
  | _ :: fmt => { m with control := control, fmt := fmt }

/-- `buf[buf_pos++] = ch` -/
def store (m : State T) (ch : UInt8) (control : Control) : Action (State T) :=
  if m.bufPos < BUF_SIZE then
    .silent { m with control := control, buf := Function.update m.buf m.bufPos ch, bufPos := m.bufPos + 1 }
  else .fault

/-- `set_ch(buf[i])` -/
def emitBuf (m : State T) (i : Nat) (next : State T) : Action (State T) :=
  if i < BUF_SIZE then .emit (m.buf i) next else .fault

/-- `if (flag & FLAG_NEG) set_ch('-');`, and on to a control point. -/
def emitSign (m : State T) (control : Control) : Action (State T) :=
  if m.flag &&& FLAG_NEG ≠ 0 then .emit '-'.toUInt8 { m with control := control }
  else .silent { m with control := control }

/-- `get_uint:` and `print_uint:` for a base. -/
def getUint (m : State T) (base : Long T) : State T :=
  { m with
    control := .digitLoop
    uval := m.ap 0
    base := base
    ap := fun i => m.ap (i + 1)
    bufPos := 0 }

/-- `case 'd':` -/
def getInt (m : State T) : State T :=
  if (m.ap 0).slt 0 then
    { m.getUint 10 with uval := -m.ap 0, flag := m.flag ||| FLAG_NEG }
  else m.getUint 10

/-- The switch; `text p` is the string at the address `p`. -/
def fmtSwitch (text : Long T → List UInt8) (m : State T) : Action (State T) :=
  match Label.of (deref m.fmt) with
  | .d => .silent m.getInt
  | .o => .silent (m.getUint 8)
  | .x => .silent (m.getUint 16)
  | .u => .silent (m.getUint 10)
  | .c => .emit (UInt8.ofBitVec ((m.ap 0).setWidth 8))
      { m with control := .nextFmt, ap := fun i => m.ap (i + 1) }
  | .s => .silent
      { m with
        control := .copyString
        ap := fun i => m.ap (i + 1)
        s := if m.ap 0 = 0 then "(null)".toList.map Char.toUInt8 else text (m.ap 0)
        len := 0 }
  | .percent => .emit '%'.toUInt8 { m with control := .nextFmt }
  | .zero => .silent { m.skip .fmtLoop with flag := m.flag ||| FLAG_ZEROPAD }
  | .nonzero => .silent { m with control := .widthLoop }
  | .other => .emit '%'.toUInt8 { m with control := .printDefault }

def byWidth (m : State T) : Action (State T) :=
  if m.width = 0 then m.emitSign .printDigits
  else if (0 : Long T).slt m.width ∧ m.flag ||| FLAG_ZEROPAD ≠ 0 then m.emitSign .zeroPad
  else if (0 : Long T).slt m.width then
    if m.flag &&& FLAG_NEG ≠ 0 then m.store '-'.toUInt8 .blankPad
    else .silent { m with control := .blankPad }
  else .silent { m with control := .nextFmt }

/-- One test and one pass of `while ((--width) >= 0)`. -/
def padLoop (m : State T) (ch : UInt8) : Action (State T) :=
  let m := { m with width := m.width - 1 }
  if 0 ≤ m.width.toInt then
    if m.width.toInt ≥ m.bufPos then .emit ch m else m.emitBuf m.width.toNat m
  else .silent { m with control := .nextFmt }

def step (text : Long T → List UInt8) (m : State T) : Action (State T) :=
  match m.control with
  | .main =>
      if deref m.fmt = 0 then .stop
      else if deref m.fmt = '%'.toUInt8 then .silent (m.skip .fmtLoop)
      else .silent { m with control := .printDefault }
  | .fmtLoop => m.fmtSwitch text
  | .widthLoop =>
      if isDigit (deref m.fmt) then
        .silent { m.skip .widthLoop with
          width := m.width * 10 + BitVec.ofNat _ ((deref m.fmt).toNat - 48) }
      else .silent { m with control := .fmtLoop }
  | .digitLoop =>
      if m.uval ≠ 0 then
        { m with uval := m.uval / m.base }.store (digits.getD (m.uval % m.base).toNat 0) .digitLoop
      else if m.bufPos = 0 then
        byWidth { m with buf := Function.update m.buf 0 '0'.toUInt8, bufPos := 1 }
      else m.byWidth
  | .printDigits =>
      match m.bufPos with
      | 0 => .silent { m with control := .nextFmt }
      | k + 1 => m.emitBuf k { m with bufPos := k }
  | .zeroPad => m.padLoop '0'.toUInt8
  | .blankPad => m.padLoop ' '.toUInt8
  | .copyString =>
      if deref m.s ≠ 0 then .emit (deref m.s) { m with s := m.s.tail, len := m.len + 1 }
      else .silent { m with control := .padString }
  | .padString =>
      if m.len.toInt < m.width.toInt then .emit ' '.toUInt8 { m with len := m.len + 1 }
      else .silent { m with control := .nextFmt }
  | .nextFmt => .silent { m.skip .main with flag := 0, width := 0 }
  | .printDefault => .emit (deref m.fmt) (m.skip .main)
  | .beyond => .fault

/-- The variables before the loop; `uval`, `base`, `len`, `buf_pos`, `buf` and `s` are set before they
are read. -/
def start (fmt : List UInt8) (ap : Nat → Long T) : State T where
  control := .main
  fmt := fmt
  ap := ap
  uval := 0
  width := 0
  base := 0
  flag := 0
  len := 0
  bufPos := 0
  buf := fun _ => 0
  s := []

end State

/-- The value of a `size_t` or `ssize_t` returned as `int`. -/
def asInt (n : Nat) : Int := toInt (n % 4294967296)

/-- `vsnprintf(str, size, fmt, ap)` and what it leaves in `str`; `pos` never exceeds `size`. Nothing
comes back where `fuel` steps are not enough or an access is out of bounds. -/
def vsnprintf {T : Target} (text : Long T → List UInt8) (fuel : Nat) (str : Nat → UInt8)
    (size : Nat) (fmt : List UInt8) (ap : Nat → Long T) : Option (Int × (Nat → UInt8)) :=
  match fill (State.step text) size fuel (State.start fmt ap) ⟨str, 0⟩ with
  | some (.full b) => some (asInt size, Function.update b.str (size - 1) 0)
  | some (.stopped b) =>
      let b := b.put 0
      if b.pos = size then some (asInt size, Function.update b.str (size - 1) 0)
      else some (asInt (b.pos - 1), b.str)
  | some .faulted => none
  | none => none

/-- A format that does not end inside a directive; `inside` holds behind a percent sign. -/
def complete : Bool → List UInt8 → Bool
  | inside, [] => !inside
  | inside, ch :: fmt =>
      if ch = 0 then !inside
      else if inside then complete (isDigit ch) fmt
      else complete (decide (ch = '%'.toUInt8)) fmt

end Aimv6.Libc
