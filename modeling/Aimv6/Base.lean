import Aimv6.Support.Chain
import Aimv6.Support.ByteMemory

/-! # Words, addresses and outcomes of kernel code

`u32` values are naturals below `2 ^ 32`; the operations that can wrap are
written `add32` and `sub32`. The kernel reaches physical address `a` at
`a + KERNEL_BASE`. A call that does not come back says why.
-/

namespace Aimv6

open Support

/-- `settings.h`: `KERNEL_BASE`. -/
def KERNEL_BASE : Nat := 0x80000000

def add32 (a b : Nat) : Nat := (a + b) % 4294967296

def sub32 (a b : Nat) : Nat := (a + (4294967296 - b)) % 4294967296

def P2V (paddr : Nat) : Nat := add32 paddr KERNEL_BASE

def V2P (vaddr : Nat) : Nat := sub32 vaddr KERNEL_BASE

/-- The value of a word read as a signed `int`. -/
def toInt (a : Nat) : Int := if a < 2147483648 then a else (a : Int) - 4294967296

/-- The word that an `int` is converted to. -/
def ofInt (i : Int) : Nat := (i % 4294967296).toNat

theorem add32_of_lt {a b : Nat} (h : a + b < 4294967296) : add32 a b = a + b :=
  Nat.mod_eq_of_lt h

theorem add32_lt (a b : Nat) : add32 a b < 4294967296 := by
  unfold add32
  exact Nat.mod_lt _ (by decide)

theorem sub32_of_le {a b : Nat} (ha : a < 4294967296) (h : b ≤ a) : sub32 a b = a - b := by
  unfold sub32
  omega

theorem P2V_of_lt {a : Nat} (h : a < 2147483648) : P2V a = a + 2147483648 := by
  unfold P2V KERNEL_BASE
  exact add32_of_lt (by omega)

theorem V2P_P2V {a : Nat} (h : a < 4294967296) : V2P (P2V a) = a := by
  unfold V2P P2V KERNEL_BASE add32 sub32
  omega

theorem toInt_of_lt {a : Nat} (h : a < 2147483648) : toInt a = a := if_pos h

theorem P2V_V2P {a : Nat} (h : a < 4294967296) : P2V (V2P a) = a := by
  unfold V2P P2V KERNEL_BASE add32 sub32
  omega

/-- Why a call does not come back: an endless loop on purpose (`while (1);`), an access through a
null pointer (a data abort, whose handler never returns), or a loop or recursion without end. An
access outside its array counts as one too, since nothing is known of what is there. -/
inductive Halt where
  | spin
  | nullDeref
  | diverge
  | outOfBounds
deriving DecidableEq, Repr

abbrev Res (α : Type) := Except Halt α

/-- The bytes of a block are counted modulo its size. -/
instance blockSize_neZero : @NeZero Nat Zero.ofOfNat0 512 := ⟨by decide⟩

/-- The bytes of a file name are counted modulo its length. -/
instance nameLength_neZero : @NeZero Nat Zero.ofOfNat0 10 := ⟨by decide⟩

/-- A bounded search that runs out of its bound stands for a loop without end. -/
def Res.ofFuel {α : Type} : Option α → Res α
  | some a => .ok a
  | none => .error .diverge

@[simp] theorem Res.ofFuel_some {α : Type} (a : α) : Res.ofFuel (some a) = .ok a := rfl

@[simp] theorem Res.ofFuel_none {α : Type} :
    Res.ofFuel (none : Option α) = .error .diverge := rfl

def Res.toOption {α : Type} : Res α → Option α
  | .ok a => some a
  | .error _ => none

theorem Res.toOption_eq_some {α : Type} {r : Res α} {a : α} :
    r.toOption = some a ↔ r = .ok a := by
  cases r <;> simp [Res.toOption]

theorem Res.bind_eq_ok {α β : Type} {x : Res α} {f : α → Res β} {b : β} :
    (x >>= f) = .ok b ↔ ∃ a, x = .ok a ∧ f a = .ok b := by
  cases x with
  | error e => simp [bind, Except.bind]
  | ok a => simp [bind, Except.bind]

@[simp] theorem Res.ok_bind {α β : Type} (a : α) (f : α → Res β) :
    ((Except.ok a : Res α) >>= f) = f a := rfl

/-- There are fewer nodes than addresses, so a walk this long is in a cycle. -/
def walkFuel : Nat := 4294967296

end Aimv6
