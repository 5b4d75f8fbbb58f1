import Aimv6.Libc.Snprintf
import Aimv6.Support.ByteMemory

/-! # Block copies

`lib/libc/string/memcpy.c`, for both targets that link it. Where the low bits of
the two pointers agree, the copy aligns them byte by byte, goes on in words and
mops up the bytes that are left; a word is read as a whole before any of it is
written. The blocks lie inside the address space, so that no pointer wraps.
-/

namespace Aimv6.Libc

open Support

/-- `sizeof(word)`. -/
def Target.wsize (T : Target) : Nat := T.longBits / 8

theorem Target.wsize_cases (T : Target) : T.wsize = 4 ∨ T.wsize = 8 := by
  cases T
  · exact Or.inl rfl
  · exact Or.inr rfl

/-- The two pointers and the memory. -/
structure Copying where
  dst : Nat
  src : Nat
  mem : Memory

/-- `*dst++ = *src++`. -/
def copyByte (c : Copying) : Option Copying :=
  some { dst := c.dst + 1, src := c.src + 1, mem := store8 c.mem c.dst (c.mem c.src) }

/-- `*(word *)dst = *(word *)src; src += wsize; dst += wsize`. A word at an address that is no
multiple of its size is a fault. -/
def copyWord (w : Nat) (c : Copying) : Option Copying :=
  if c.dst % w = 0 ∧ c.src % w = 0 then
    some { dst := c.dst + w, src := c.src + w,
           mem := storeBytes c.dst w (fun i => c.mem (c.src + i)) c.mem }
  else none

/-- `TLOOP(s)`: `t` times `s`. -/
def TLOOP (s : Copying → Option Copying) : Nat → Copying → Option Copying
  | 0, c => some c
  | t + 1, c => (s c).bind (TLOOP s t)

/-- `TLOOP1(s)`: the test follows the body, so that `--t` takes zero to the largest `size_t`. -/
def TLOOP1 (T : Target) (s : Copying → Option Copying) (t : Nat) (c : Copying) : Option Copying :=
  TLOOP s (if t = 0 then 2 ^ T.longBits else t) c

/-- The bytes in front of the words, with the length that is left: up to the next word where the low
bits of the pointers agree, and all of them where they do not. -/
def copyHead (T : Target) (length : Nat) (c : Copying) : Option (Copying × Nat) :=
  if (c.src ||| c.dst) % T.wsize ≠ 0 then
    let t := if (c.src ^^^ c.dst) % T.wsize ≠ 0 ∨ length < T.wsize then length
      else T.wsize - c.src % T.wsize
    (TLOOP1 T copyByte t c).map fun c => (c, length - t)
  else some (c, length)

def copyRest (T : Target) (length : Nat) (c : Copying) : Option Copying :=
  (TLOOP (copyWord T.wsize) (length / T.wsize) c).bind (TLOOP copyByte (length % T.wsize))

/-- `memcpy`: the pointer it returns and the memory behind it. -/
def memcpy (T : Target) (dst src length : Nat) (m : Memory) : Option (Nat × Memory) :=
  if length = 0 ∨ dst = src then some (dst, m)
  else
    (copyHead T length { dst := dst, src := src, mem := m }).bind fun headed =>
      (copyRest T headed.2 headed.1).map fun c => (dst, c.mem)

/-! ## The plain loop -/

/-- The memory after `n` bytes, one after the other. -/
def copyForward (dst src : Nat) : Nat → Memory → Memory
  | 0, m => m
  | n + 1, m => store8 (copyForward dst src n m) (dst + n) (copyForward dst src n m (src + n))

/-- The source byte that ends up at offset `i`: a destination that starts inside the source repeats
the bytes in front of it. -/
def sourceOffset (dst src i : Nat) : Nat := if src < dst then i % (dst - src) else i

theorem copyForward_outside {dst src n b : Nat} {m : Memory} (h : b < dst ∨ dst + n ≤ b) :
    copyForward dst src n m b = m b := by
  induction n with
  | zero => rfl
  | succ n ih =>
      rw [copyForward, store8_apply_of_ne (by omega)]
      exact ih (by omega)

theorem copyForward_add {dst src n k : Nat} {m : Memory} :
    copyForward dst src (n + k) m = copyForward (dst + n) (src + n) k (copyForward dst src n m) := by
  induction k with
  | zero => rfl
  | succ k ih =>
      rw [show n + (k + 1) = n + k + 1 from rfl, copyForward, copyForward, ih]
      simp only [Nat.add_assoc]

theorem copyForward_self {a n : Nat} {m : Memory} : copyForward a a n m = m := by
  induction n with
  | zero => rfl
  | succ n ih =>
      rw [copyForward, ih]
      funext b
      unfold store8
      split
      · next h => rw [h]
      · rfl

/-- What the byte loop leaves at offset `i`, for blocks that may overlap in either direction. -/
theorem copyForward_at {dst src n i : Nat} {m : Memory} (hi : i < n) :
    copyForward dst src n m (dst + i) = m (src + sourceOffset dst src i) := by
  induction n generalizing i with
  | zero => omega
  | succ n ih =>
      rw [copyForward]
      by_cases hin : i = n
      · subst hin
        rw [show store8 (copyForward dst src i m) (dst + i) (copyForward dst src i m (src + i))
          (dst + i) = copyForward dst src i m (src + i) from if_pos rfl]
        unfold sourceOffset
        by_cases hlt : src < dst
        · rw [if_pos hlt]
          by_cases hfar : i < dst - src
          · -- the source is still in front of the destination
            rw [copyForward_outside (by omega), Nat.mod_eq_of_lt hfar]
          · -- the source byte was itself written by this loop
            have hwritten := ih (show i - (dst - src) < i by omega)
            rw [show dst + (i - (dst - src)) = src + i by omega] at hwritten
            rw [hwritten, sourceOffset, if_pos hlt,
              ← Nat.mod_eq_sub_mod (show dst - src ≤ i by omega)]
        · rw [if_neg hlt, copyForward_outside (by omega)]
      · rw [store8_apply_of_ne (by omega)]
        exact ih (by omega)

/-! ## Words -/

theorem TLOOP_copyByte (dst src t : Nat) (m : Memory) :
    TLOOP copyByte t { dst := dst, src := src, mem := m } =
      some { dst := dst + t, src := src + t, mem := copyForward dst src t m } := by
  induction t generalizing dst src m with
  | zero => rfl
  | succ t ih =>
      have hstep := ih (dst + 1) (src + 1) (store8 m dst (m src))
      have hfirst : store8 m dst (m src) = copyForward dst src 1 m := rfl
      rw [TLOOP, copyByte, Option.bind_some, hstep, hfirst, Nat.add_comm t 1, copyForward_add,
        ← Nat.add_assoc, ← Nat.add_assoc]

/-- A word is copied as its bytes are, in order, when it does not start behind its source inside
the word's own length. -/
theorem storeBytes_eq_copyForward {dst src w : Nat} {m : Memory}
    (hfar : dst ≤ src ∨ src + w ≤ dst) :
    storeBytes dst w (fun i => m (src + i)) m = copyForward dst src w m := by
  funext b
  by_cases hb : dst ≤ b ∧ b < dst + w
  · have hat : copyForward dst src w m (dst + (b - dst)) = _ :=
      copyForward_at (show b - dst < w by omega)
    rw [show dst + (b - dst) = b by omega] at hat
    rw [storeBytes_in hb.1 hb.2, hat]
    unfold sourceOffset
    split
    · rw [Nat.mod_eq_of_lt (by omega)]
    · rfl
  · rw [storeBytes_out (by omega), copyForward_outside (by omega)]

theorem TLOOP_copyWord {w dst src t : Nat} {m : Memory} (hdst : dst % w = 0) (hsrc : src % w = 0)
    (hfar : dst ≤ src ∨ src + w ≤ dst) :
    TLOOP (copyWord w) t { dst := dst, src := src, mem := m } =
      some { dst := dst + w * t, src := src + w * t, mem := copyForward dst src (w * t) m } := by
  induction t generalizing dst src m with
  | zero => rfl
  | succ t ih =>
      have hstep : TLOOP (copyWord w) t
          { dst := dst + w, src := src + w, mem := copyForward dst src w m } = _ := ih
        (by rw [Nat.add_mod_right, hdst]) (by rw [Nat.add_mod_right, hsrc]) (by omega)
      rw [TLOOP, copyWord, if_pos ⟨hdst, hsrc⟩, Option.bind_some, storeBytes_eq_copyForward hfar,
        hstep, Nat.mul_succ, Nat.add_comm (w * t) w, copyForward_add, ← Nat.add_assoc,
        ← Nat.add_assoc]

/-! ## Alignment -/

theorem or_mod_wsize (T : Target) (a b : Nat) :
    (a ||| b) % T.wsize = 0 ↔ a % T.wsize = 0 ∧ b % T.wsize = 0 := by
  obtain ⟨k, hk⟩ : ∃ k, T.wsize = 2 ^ k := by
    rcases T.wsize_cases with h | h
    · exact ⟨2, h⟩
    · exact ⟨3, h⟩
  rw [hk, Nat.or_mod_two_pow, Nat.or_eq_zero_iff]

theorem xor_mod_wsize (T : Target) (a b : Nat) :
    (a ^^^ b) % T.wsize = 0 ↔ a % T.wsize = b % T.wsize := by
  obtain ⟨k, hk⟩ : ∃ k, T.wsize = 2 ^ k := by
    rcases T.wsize_cases with h | h
    · exact ⟨2, h⟩
    · exact ⟨3, h⟩
  rw [hk, Nat.xor_mod_two_pow]
  constructor
  · intro h
    have hback : b % 2 ^ k = (a % 2 ^ k ^^^ b % 2 ^ k) ^^^ b % 2 ^ k := by rw [h, Nat.zero_xor]
    rw [hback, Nat.xor_assoc, Nat.xor_self, Nat.xor_zero]
  · intro h
    rw [h, Nat.xor_self]

/-! ## The copy -/

theorem copyRest_eq {T : Target} {dst src length : Nat} {m : Memory} (hdst : dst % T.wsize = 0)
    (hsrc : src % T.wsize = 0) (hne : dst ≠ src) :
    copyRest T length { dst := dst, src := src, mem := m } =
      some { dst := dst + length, src := src + length, mem := copyForward dst src length m } := by
  have hfar : dst ≤ src ∨ src + T.wsize ≤ dst := by
    -- two different multiples of the word's size are a word apart
    have hdvd : T.wsize ∣ dst - src :=
      Nat.dvd_sub (Nat.dvd_of_mod_eq_zero hdst) (Nat.dvd_of_mod_eq_zero hsrc)
    rcases Nat.lt_or_gt_of_ne hne with hlt | hgt
    · exact Or.inl hlt.le
    · have hle := Nat.le_of_dvd (by omega) hdvd
      omega
  have hparts : T.wsize * (length / T.wsize) + length % T.wsize = length :=
    Nat.div_add_mod length T.wsize
  rw [copyRest, TLOOP_copyWord hdst hsrc hfar, Option.bind_some, TLOOP_copyByte, ← copyForward_add,
    Nat.add_assoc, Nat.add_assoc, hparts]

/-- The head copies some `t` bytes and leaves no more bytes or two aligned pointers. -/
theorem copyHead_eq {T : Target} {dst src length : Nat} {m : Memory} (hlength : 0 < length) :
    ∃ t ≤ length, copyHead T length { dst := dst, src := src, mem := m } =
        some ({ dst := dst + t, src := src + t, mem := copyForward dst src t m }, length - t) ∧
      (t = length ∨ (dst + t) % T.wsize = 0 ∧ (src + t) % T.wsize = 0) := by
  have hw : 0 < T.wsize := by rcases T.wsize_cases with h | h <;> omega
  have hloop : ∀ t, 0 < t → TLOOP1 T copyByte t { dst := dst, src := src, mem := m } =
      some { dst := dst + t, src := src + t, mem := copyForward dst src t m } := fun t ht => by
    rw [TLOOP1, if_neg (by omega), TLOOP_copyByte]
  unfold copyHead
  by_cases haligned : (src ||| dst) % T.wsize = 0
  · obtain ⟨hsrc, hdst⟩ := (or_mod_wsize T src dst).mp haligned
    refine ⟨0, Nat.zero_le _, ?_, Or.inr ⟨hdst, hsrc⟩⟩
    rw [if_neg (not_not.mpr haligned)]
    rfl
  · rw [if_pos haligned]
    by_cases hapart : (src ^^^ dst) % T.wsize ≠ 0 ∨ length < T.wsize
    · refine ⟨length, le_rfl, ?_, Or.inl rfl⟩
      simp only [if_pos hapart, hloop length hlength, Option.map_some]
    · obtain ⟨hxor, hlong⟩ := not_or.mp hapart
      have hmod : src % T.wsize = dst % T.wsize := (xor_mod_wsize T src dst).mp (not_not.mp hxor)
      have hlt : src % T.wsize < T.wsize := Nat.mod_lt src hw
      have hpos : 0 < src % T.wsize := by
        refine Nat.pos_of_ne_zero fun hzero => haligned ?_
        exact (or_mod_wsize T src dst).mpr ⟨hzero, hmod ▸ hzero⟩
      refine ⟨T.wsize - src % T.wsize, by omega, ?_, Or.inr ⟨?_, ?_⟩⟩
      · simp only [if_neg hapart, hloop _ (show 0 < T.wsize - src % T.wsize by omega),
          Option.map_some]
      · rw [hmod]
        rcases T.wsize_cases with h | h <;> rw [h] <;> omega
      · rcases T.wsize_cases with h | h <;> rw [h] <;> omega

/-- The copy in words is the plain byte loop, whatever the alignment and the overlap. -/
theorem memcpy_eq_copyForward (T : Target) (dst src length : Nat) (m : Memory) :
    memcpy T dst src length m = some (dst, copyForward dst src length m) := by
  unfold memcpy
  by_cases hnothing : length = 0 ∨ dst = src
  · rw [if_pos hnothing]
    rcases hnothing with h | h
    · rw [h]
      rfl
    · rw [h, copyForward_self]
  · rw [if_neg hnothing]
    obtain ⟨hlength, hne⟩ := not_or.mp hnothing
    obtain ⟨t, hle, hhead, hrest⟩ := @copyHead_eq T dst src length m
      (Nat.pos_of_ne_zero hlength)
    rw [hhead, Option.bind_some]
    rcases hrest with hall | ⟨hdst, hsrc⟩
    · subst hall
      have hw : 0 < T.wsize := by rcases T.wsize_cases with h | h <;> omega
      rw [Nat.sub_self, copyRest, Nat.zero_div, Nat.zero_mod]
      rfl
    · have hmop := @copyRest_eq T (dst + t) (src + t) (length - t) (copyForward dst src t m) hdst hsrc
        (show dst + t ≠ src + t by omega)
      rw [hmop, Option.map_some, ← copyForward_add, Nat.add_sub_cancel' hle]

/-- What `memcpy` leaves: the destination holds the source, or, where it starts inside the source,
the bytes in front of it over and over; nothing else has changed. -/
theorem memcpy_spec (T : Target) (dst src length : Nat) (m : Memory) :
    ∃ m', memcpy T dst src length m = some (dst, m') ∧
      (∀ i < length, m' (dst + i) = m (src + sourceOffset dst src i)) ∧
      ∀ b, b < dst ∨ dst + length ≤ b → m' b = m b :=
  ⟨copyForward dst src length m, memcpy_eq_copyForward T dst src length m,
    fun _ hi => copyForward_at hi, fun _ hb => copyForward_outside hb⟩

end Aimv6.Libc
