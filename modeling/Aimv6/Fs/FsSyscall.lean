import Aimv6.Fs.FsRead

/-! # The system calls on files

`syscall.c`: `_open`, `_read` and `_write` for the process `pid`, with what is
left in `r0` and `r1`. The memory is what the process sees below `KERNEL_BASE`
and the kernel-linear mapping above.
-/

namespace Aimv6.Fs

open Support

/-- `(n + 511) >> 9` for the `int` in the word `n`, as a word. -/
def blocksOf (n : Nat) : Nat := ofInt (toInt (add32 n 511) >>> (9 : Nat))

/-- `_open()` -/
def sysOpen (fs : FsState) (pid : Nat) (name : Nat → UInt8) (n : Int) : Res (Int × FsState) := do
  let fd ← fnameToFd fs name n
  if fd = -1 then .ok (-1, fs) else openFile fs pid (ofInt fd)

/-- `for (i = 0; i < n; ++i) p[i] = res[i];` from `i` on. -/
def copyLoop (p res : Nat) : Nat → Nat → Memory → Memory
  | 0, _, mem => mem
  | n + 1, i, mem => copyLoop p res n (i + 1) (store8 mem (add32 p i) (mem (add32 res i)))

/-- `_read()`; `ret` is what `kmalloc` returns. -/
def sysRead (w : World) (pid fd p n ret : Nat) (io : Nat → Int) : Res (Int × Nat × World) := do
  let (res, w) ← readDatablock w pid fd 0 (blocksOf n) ret io
  match res with
  | none => .ok (-1, p, w)
  | some res => .ok (0, res, { w with mem := copyLoop p res (toInt n).toNat 0 w.mem })

/-- `_write()` -/
def sysWrite (w : World) (pid fd p n : Nat) (io : Nat → Int) : Res (Int × World) :=
  appendFile w pid fd p (toInt (add32 n 511) >>> (9 : Nat)) io

/-! ## The copy loop -/

theorem blocksOf_eq {n : Nat} (h : n + 511 < 2147483648) : blocksOf n = (n + 511) / 512 := by
  unfold blocksOf ofInt
  rw [add32_of_lt (by omega), toInt_of_lt h, Int.shiftRight_eq_div_pow]
  omega

theorem copyLoop_outside {p res n i a : Nat} {mem : Memory} (hp : p + i + n ≤ KERNEL_BASE)
    (ha : a < p + i ∨ p + i + n ≤ a) : copyLoop p res n i mem a = mem a := by
  induction n generalizing i mem with
  | zero => rfl
  | succ n ih =>
      have hdst : add32 p i = p + i := add32_of_lt (by unfold KERNEL_BASE at hp; omega)
      rw [copyLoop, ih (by omega) (by omega), hdst]
      exact store8_apply_of_ne (by omega)

/-- A byte that comes from above the target is the one that was there before. -/
theorem copyLoop_at {p res n i k : Nat} {mem : Memory} (hp : p + i + n ≤ KERNEL_BASE) (hk : k < n)
    (hsrc : KERNEL_BASE ≤ add32 res (i + k)) :
    copyLoop p res n i mem (p + (i + k)) = mem (add32 res (i + k)) := by
  induction n generalizing i k mem with
  | zero => omega
  | succ n ih =>
      have hdst : add32 p i = p + i := add32_of_lt (by unfold KERNEL_BASE at hp; omega)
      rw [copyLoop, hdst]
      cases k with
      | zero =>
          rw [copyLoop_outside (by omega) (by omega)]
          exact if_pos rfl
      | succ k =>
          have hstep : i + (k + 1) = i + 1 + k := by omega
          rw [hstep] at hsrc ⊢
          rw [ih (by omega) (by omega) hsrc]
          exact store8_apply_of_ne (by omega)

end Aimv6.Fs
