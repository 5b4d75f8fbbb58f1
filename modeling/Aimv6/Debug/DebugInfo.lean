import Mathlib.Data.List.Basic

/-! # Debug information of an instruction

`debug_info.c`: a linear search in the table of stabs that the linker places
between `__STAB_BEGIN__` and `__STAB_END__`. A pointer to a stab is its address,
0 for `NULL`; a string is the index of its first byte in `__STABSTR_BEGIN__`.
`lo32` is the low half of an address, which another header defines.
-/

namespace Aimv6.Debug

def N_FUN : UInt8 := 0x24

def N_SLINE : UInt8 := 0x44

def N_SO : UInt8 := 0x64

def N_SOL : UInt8 := 0x84

structure Stab where
  nStrx : UInt32
  nType : UInt8
  nOther : UInt8
  nDesc : UInt16
  nValue : UInt32
deriving DecidableEq, Repr

def SIZEOF_STAB : Nat := 12

structure DebugInfo where
  sourceFile : Option UInt32
  funcName : Option UInt32
  funcAddrLo : UInt32
  lineNum : UInt32
deriving DecidableEq, Repr

def FIX_INSTRUCTION_ADDR (x : UInt32) : UInt32 := (x ||| 3) ^^^ 3

def isSource (stab : Stab) : Bool :=
  (stab.nType == N_SO && stab.nDesc != 0) || stab.nType == N_SOL

def isTextline (stab : Stab) : Bool := stab.nType == N_SLINE

/-- `return (stab->n_type = N_FUN);`: the value, and the stab behind the assignment. -/
def isFunc (stab : Stab) : Bool × Stab := (N_FUN != 0, { stab with nType := N_FUN })

/-- The table of stabs, at the address `base`. -/
structure StabTable where
  base : Nat
  entries : List Stab
  base_pos : 0 < base

def StabTable.address (T : StabTable) (i : Nat) : Nat := T.base + SIZEOF_STAB * i

/-- The variables of `get_debug_info` that go from one stab to the next. -/
structure Locals where
  sourceFilename : Option UInt32
  funcName : Option UInt32
  sourceAddr32 : UInt32
  funcAddr32 : UInt32
  found : Bool

def Locals.start : Locals := ⟨none, none, 0, 0, false⟩

/-- What a call returns and leaves behind: its value, the stabs, `*info` and `*last`. -/
structure Lookup where
  ret : Int
  entries : List Stab
  info : DebugInfo
  last : Nat

/-- A stab that the search has gone past, in front of the others. -/
def Lookup.behind (stab : Stab) (r : Lookup) : Lookup := { r with entries := stab :: r.entries }

/-- The loop of `get_debug_info`, from the stab at `curStab` on. -/
def searchStabs (addr32 : UInt32) (info : DebugInfo) (last : Nat) :
    Nat → Locals → List Stab → Lookup
  | _, _, [] => ⟨-1, [], info, last⟩
  | curStab, v, stab :: stabs =>
      if isSource stab then
        let v := { v with
          sourceAddr32 := FIX_INSTRUCTION_ADDR stab.nValue
          sourceFilename := some stab.nStrx }
        (searchStabs addr32 info last (curStab + SIZEOF_STAB) v stabs).behind stab
      else if isTextline stab then
        let lineAddr32 := v.sourceAddr32 + stab.nValue
        if lineAddr32 = addr32 then
          let v := { v with found := true }
          if last < curStab then
            ⟨1, stab :: stabs, ⟨v.sourceFilename, v.funcName, v.funcAddr32, stab.nDesc.toUInt32⟩,
              curStab⟩
          else (searchStabs addr32 info last (curStab + SIZEOF_STAB) v stabs).behind stab
        else if v.found then ⟨0, stab :: stabs, info, last⟩
        else (searchStabs addr32 info last (curStab + SIZEOF_STAB) v stabs).behind stab
      else
        let (func, stab) := isFunc stab
        let v := if func then { v with funcAddr32 := stab.nValue, funcName := some stab.nStrx } else v
        (searchStabs addr32 info last (curStab + SIZEOF_STAB) v stabs).behind stab

def getDebugInfo (lo32 : UInt64 → UInt32) (T : StabTable) (addr : UInt64) (info : DebugInfo)
    (last : Nat) : Lookup :=
  let addr32 := lo32 addr
  let addr32 := FIX_INSTRUCTION_ADDR addr32
  searchStabs addr32 info last T.base Locals.start T.entries

def StabTable.after (T : StabTable) (r : Lookup) : StabTable := { T with entries := r.entries }

/-- `while (get_debug_info(addr, info, last) == 1);`: what `*last` is behind each call that returns 1,
and the value of the call that does not; nothing where the bound on the calls is too small. -/
def lookups (lo32 : UInt64 → UInt32) (addr : UInt64) :
    Nat → StabTable → DebugInfo → Nat → Option (List Nat × Int)
  | 0, _, _, _ => none
  | fuel + 1, T, info, last =>
      let r := getDebugInfo lo32 T addr info last
      if r.ret = 1 then
        (lookups lo32 addr fuel (T.after r) r.info r.last).map fun q => (r.last :: q.1, q.2)
      else some ([], r.ret)

end Aimv6.Debug
