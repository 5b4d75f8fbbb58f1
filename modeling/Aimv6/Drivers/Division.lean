import Aimv6.Support.While
import Mathlib.Tactic.Ring

/-! # Division without a divide instruction

`drivers/misc/division-arm.c`: the Cortex-A9 has no integer division, so the
compiler calls these functions. `unsigned int` and `signed int` are words of 32
bits. A call hands back the value of its return statement, and its inline
assembly loads a pair into `r0` and `r1`.
-/

namespace Aimv6.Drivers

open Support

/-- What a call leaves behind: the value of its return statement, and what its inline assembly
loaded into `r0` and `r1`, where control reached it. -/
structure Divided where
  value : BitVec 32
  regs : Option (BitVec 32 × BitVec 32)
deriving DecidableEq, Repr

def ABS (x : BitVec 32) : BitVec 32 := if x.slt 0 then -x else x

def idiv0 (_numerator _denominator : BitVec 32) : BitVec 32 := -1

structure DivVars where
  numerator : BitVec 32
  denominator : BitVec 32
  i : BitVec 32
  shift : BitVec 32
  quot : BitVec 32
deriving DecidableEq, Repr

/-- `shift <<= 1` and then `i <<= 1, denominator <<= 1`. -/
def DivVars.double (v : DivVars) : DivVars :=
  { v with shift := v.shift <<< 1, i := v.i <<< 1, denominator := v.denominator <<< 1 }

/-- `numerator -= denominator; quot += i`. -/
def DivVars.subtract (v : DivVars) : DivVars :=
  { v with numerator := v.numerator - v.denominator, quot := v.quot + v.i }

/-- `i >>= 1, denominator >>= 1`. -/
def DivVars.halve (v : DivVars) : DivVars :=
  { v with i := v.i >>> 1, denominator := v.denominator >>> 1 }

/-- `shift < 0x80000000 && shift <= numerator`: "prevent shift overflow". -/
def DivVars.doubles (v : DivVars) : Bool :=
  decide (v.shift < 0x80000000) && decide (v.shift ≤ v.numerator)

def doubleLoop (fuel : Nat) : DivVars → Option DivVars :=
  whileLoop DivVars.doubles (fun v => some v.double) fuel

/-- The inner `while (numerator >= denominator)`. -/
def subtractLoop (fuel : Nat) : DivVars → Option DivVars :=
  whileLoop (fun v => decide (v.numerator ≥ v.denominator)) (fun v => some v.subtract) fuel

def halveLoop (fuel : Nat) : DivVars → Option DivVars :=
  whileLoop (fun v => decide (v.i > 0)) (fun v => (subtractLoop fuel v).map DivVars.halve) fuel

/-- `__aeabi_uidivmod(numerator, denominator)`; `none` where `fuel` tests do not end a loop. -/
def uidivmod (fuel : Nat) (numerator denominator : BitVec 32) : Option Divided := do
  if denominator = 0 then return ⟨idiv0 numerator denominator, none⟩
  let v ← doubleLoop fuel ⟨numerator, denominator, 1, denominator <<< 1, 0⟩
  let v ← halveLoop fuel v
  return ⟨v.quot, some (v.quot, v.numerator)⟩

def uidiv (fuel : Nat) (numerator denominator : BitVec 32) : Option (BitVec 32) := do
  return (← uidivmod fuel numerator denominator).value

def idivmod (fuel : Nat) (numerator denominator : BitVec 32) : Option Divided := do
  if denominator = 0 then return ⟨idiv0 numerator denominator, none⟩
  let result := (← uidivmod fuel (ABS numerator) (ABS denominator)).value
  let result := if numerator.slt 0 && (0 : BitVec 32).slt denominator then -result else result
  let result := if (0 : BitVec 32).sle numerator && denominator.slt 0 then -result else result
  let remain := numerator - result * denominator
  return ⟨0, some (result, remain)⟩

def idiv (fuel : Nat) (numerator denominator : BitVec 32) : Option (BitVec 32) := do
  return (← idivmod fuel numerator denominator).value

end Aimv6.Drivers
