import Aimv6.Base
import Aimv6.Support.While
import Mathlib.Order.Monotone.Basic

/-! # The global timer

`drivers/clock/gtc-a9mpcore.c`: a counter of 64 bits that is read in two halves
while it runs. `int` and `long` are words of 32 bits, and the ticks to sleep for
are a product of the type `long`.
-/

namespace Aimv6.Drivers

open Support

def GTC_COUNTER_LO_OFFSET : Nat := 0x00

def GTC_COUNTER_HI_OFFSET : Nat := 0x04

/-- The value of a computation of the type `long`. -/
def long (i : Int) : Int := toInt (ofInt i)

/-- The `u64` that a `long` is converted to. -/
def toU64 (i : Int) : Nat := (i % 18446744073709551616).toNat

def GTC_TPUS : Int := 400

def GTC_TPS : Int := long (GTC_TPUS * 1000000)

structure Counter where
  value : Nat → Nat
  bounded : ∀ i, value i < 18446744073709551616
  monotone : Monotone value

/-- `in32(GTC_BASE + offset)` at an instant. -/
def Counter.in32 (c : Counter) (offset i : Nat) : Nat :=
  if offset = GTC_COUNTER_HI_OFFSET then c.value i / 4294967296 else c.value i % 4294967296

/-- The variables of `gtc_get_time`, and the instant of the last read. -/
structure GtcVars where
  hi : Nat
  lo : Nat
  tmp : Nat
  now : Nat
deriving DecidableEq, Repr

/-- The three reads of a pass; between any two of them the counter may go on as far as it likes. -/
def GtcVars.pass (c : Counter) (v : GtcVars) : GtcVars where
  hi := c.in32 GTC_COUNTER_HI_OFFSET (v.now + 1)
  lo := c.in32 GTC_COUNTER_LO_OFFSET (v.now + 2)
  tmp := c.in32 GTC_COUNTER_HI_OFFSET (v.now + 3)
  now := v.now + 3

/-- `gtc_get_time()` from an instant on: the time, and the instant at which it returns. -/
def gtcGetTime (c : Counter) (fuel now : Nat) : Option (Nat × Nat) :=
  (whileLoop (fun v => decide (v.hi ≠ v.tmp)) (fun v => some (v.pass c)) fuel
    (GtcVars.pass c ⟨0, 0, 0, now⟩)).map fun v => (v.hi <<< 32 ||| v.lo, v.now)

/-- The common body of `sleep` and `usleep`: the instant at which it returns. -/
def wait (c : Counter) (fuel : Nat) (ticks : Int) (now : Nat) : Option Nat := do
  let (time, now) ← gtcGetTime c fuel now
  let time := (time + toU64 ticks) % 18446744073709551616
  let first ← gtcGetTime c fuel now
  (whileLoop (fun s => decide (s.1 < time)) (fun s => gtcGetTime c fuel s.2) fuel first).map Prod.snd

def sleep (c : Counter) (fuel : Nat) (sec : Int) (now : Nat) : Option Nat :=
  wait c fuel (long (GTC_TPS * sec)) now

def usleep (c : Counter) (fuel : Nat) (usec : Int) (now : Nat) : Option Nat :=
  wait c fuel (long (GTC_TPUS * usec)) now

variable {c : Counter} {fuel now now' time ticks : Nat}

/-! ## Reading the counter -/

theorem Counter.in32_hi (c : Counter) (i : Nat) :
    c.in32 GTC_COUNTER_HI_OFFSET i = c.value i / 4294967296 := if_pos rfl

theorem Counter.in32_lo (c : Counter) (i : Nat) :
    c.in32 GTC_COUNTER_LO_OFFSET i = c.value i % 4294967296 := if_neg (by decide)

theorem join_halves (n : Nat) : (n / 4294967296) <<< 32 ||| n % 4294967296 = n := by
  have hlt : n % 4294967296 < 2 ^ 32 := Nat.mod_lt n (by decide)
  rw [← Nat.shiftLeft_add_eq_or_of_lt hlt, Nat.shiftLeft_eq]
  omega

/-- Where both reads of the upper half agree, the counter was at the value in between. -/
theorem pass_value {v : GtcVars} (h : (v.pass c).hi = (v.pass c).tmp) :
    (v.pass c).hi <<< 32 ||| (v.pass c).lo = c.value (v.now + 2) := by
  have h₁ : c.value (v.now + 1) ≤ c.value (v.now + 2) := c.monotone (by omega)
  have h₂ : c.value (v.now + 2) ≤ c.value (v.now + 3) := c.monotone (by omega)
  unfold GtcVars.pass at h ⊢
  dsimp only at h ⊢
  rw [c.in32_hi, c.in32_hi] at h
  have hsame : c.value (v.now + 1) / 4294967296 = c.value (v.now + 2) / 4294967296 := by omega
  rw [c.in32_hi, c.in32_lo, hsame]
  exact join_halves _

/-- The time is the value of the counter at an instant of the call. -/
theorem gtcGetTime_spec (h : gtcGetTime c fuel now = some (time, now')) :
    ∃ i, now < i ∧ i ≤ now' ∧ time = c.value i := by
  obtain ⟨v, hloop, hv⟩ := Option.map_eq_some_iff.1 h
  obtain ⟨rfl, rfl⟩ := Prod.mk.inj hv
  have hpass : ∀ v w : GtcVars, (∃ u : GtcVars, v = u.pass c ∧ now ≤ u.now) →
      some (v.pass c) = some w → ∃ u : GtcVars, w = u.pass c ∧ now ≤ u.now := by
    rintro v w ⟨u, rfl, hu⟩ hw
    refine ⟨_, (Option.some.inj hw).symm, ?_⟩
    show now ≤ u.now + 3
    omega
  obtain ⟨⟨u, rfl, hu⟩, hsame⟩ :=
    whileLoop_keeps hpass ⟨⟨0, 0, 0, now⟩, rfl, Nat.le_refl now⟩ hloop
  have hagree : (u.pass c).hi = (u.pass c).tmp := by
    by_contra hne
    rw [decide_eq_true hne] at hsame
    exact absurd hsame (by decide)
  refine ⟨u.now + 2, by omega, ?_, pass_value hagree⟩
  show u.now + 2 ≤ u.now + 3
  omega

/-! ## Sleeping -/

/-- The deadline for `ticks` from the time that is read first is a value of 64 bits. -/
def LowEnough (c : Counter) (fuel now ticks : Nat) : Prop :=
  ∀ time now', gtcGetTime c fuel now = some (time, now') → time + ticks < 18446744073709551616

/-- Never does a wait end before the counter has advanced by `ticks`. -/
def NeverEarly (f : Counter → Nat → Nat → Option Nat) (ticks : Nat) : Prop :=
  ∀ c fuel now now', LowEnough c fuel now ticks → f c fuel now = some now' →
    c.value now + ticks ≤ c.value now'

theorem wait_spec {i : Int} (h : wait c fuel i now = some now') :
    ∃ time now₁, gtcGetTime c fuel now = some (time, now₁) ∧ now < now₁ ∧
      (time + toU64 i) % 18446744073709551616 ≤ c.value now' := by
  unfold wait at h
  obtain ⟨⟨time, now₁⟩, hread, h⟩ := Option.bind_eq_some_iff.1 h
  obtain ⟨⟨time₁, now₂⟩, hfirst, h⟩ := Option.bind_eq_some_iff.1 h
  obtain ⟨⟨time₂, now₃⟩, hloop, rfl⟩ := Option.map_eq_some_iff.1 h
  obtain ⟨i, hi, hi', -⟩ := gtcGetTime_spec hread
  have hheld : ∀ s t : Nat × Nat, s.1 ≤ c.value s.2 → gtcGetTime c fuel s.2 = some t →
      t.1 ≤ c.value t.2 := by
    intro s t _ ht
    have hread' : gtcGetTime c fuel s.2 = some (t.1, t.2) := ht
    obtain ⟨j, -, hj, hvalue⟩ := gtcGetTime_spec hread'
    rw [hvalue]
    exact c.monotone hj
  obtain ⟨hle, hend⟩ := whileLoop_keeps hheld (hheld (0, now₁) _ (Nat.zero_le _) hfirst) hloop
  have hlate := of_decide_eq_false hend
  exact ⟨time, now₁, hread, by omega, (Nat.not_lt.1 hlate).trans hle⟩

theorem long_of_small {n : Nat} (h : n < 2147483648) : long n = n := by
  unfold long toInt ofInt
  split <;> omega

theorem long_lt (i : Int) : -2147483648 ≤ long i ∧ long i < 2147483648 := by
  unfold long toInt ofInt
  split <;> omega

/-- A counter that stands still at first and has gone on by `p` at the fourth instant. -/
def jump (p : Nat) (hp : p < 2147483648) : Counter where
  value i := if i < 4 then 4294967296 else 4294967296 + p
  bounded i := by split <;> omega
  monotone := by
    intro i j hij
    dsimp only
    split
    · split <;> omega
    · rw [if_neg (by omega)]

theorem gtcGetTime_steady (h : c.value (now + 1) / 4294967296 = c.value (now + 3) / 4294967296) :
    gtcGetTime c 1 now = some (c.value (now + 2), now + 3) := by
  have hsame : (GtcVars.pass c ⟨0, 0, 0, now⟩).hi = (GtcVars.pass c ⟨0, 0, 0, now⟩).tmp := by
    unfold GtcVars.pass
    dsimp only
    rw [c.in32_hi, c.in32_hi]
    exact h
  have hend : whileLoop (fun v : GtcVars => decide (v.hi ≠ v.tmp)) (fun v => some (v.pass c)) 1
      (GtcVars.pass c ⟨0, 0, 0, now⟩) = some (GtcVars.pass c ⟨0, 0, 0, now⟩) :=
    whileLoop_of_false (decide_eq_false (not_not.2 hsame))
  unfold gtcGetTime
  rw [hend, Option.map_some, pass_value hsame]
  rfl

/-- For any product there is a counter with which the wait ends after less than `2 ^ 31` ticks. -/
theorem wait_jump {i : Int} {p : Nat} (hp : p < 2147483648) (hi : -4294967296 ≤ i) (hle : i ≤ p) :
    wait (jump p hp) 1 i 0 = some 6 := by
  have hfirst : gtcGetTime (jump p hp) 1 0 = some (4294967296, 3) := gtcGetTime_steady rfl
  have hsecond : gtcGetTime (jump p hp) 1 3 = some (4294967296 + p, 6) := gtcGetTime_steady rfl
  have hdeadline : (4294967296 + toU64 i) % 18446744073709551616 ≤ 4294967296 + p := by
    unfold toU64
    omega
  have hend : whileLoop (fun s : Nat × Nat => decide (s.1 < (4294967296 + toU64 i) % 18446744073709551616))
      (fun s => gtcGetTime (jump p hp) 1 s.2) 1 (4294967296 + p, 6) = some (4294967296 + p, 6) :=
    whileLoop_of_false (decide_eq_false (Nat.not_lt.2 hdeadline))
  unfold wait
  rw [hfirst, Option.bind_eq_bind, Option.bind_some]
  dsimp only
  rw [hsecond, Option.bind_some, hend]
  rfl

/-- A wait for a product is right exactly where the product is a value of a `long`. -/
theorem wait_never_early_iff {i : Int} (hi : i = ticks) (hticks : ticks < 4611686018427387904) :
    NeverEarly (fun c fuel now => wait c fuel (long i) now) ticks ↔ ticks < 2147483648 := by
  constructor
  · intro h
    by_contra hlarge
    have hbounds := long_lt i
    obtain ⟨p, hp, hle⟩ : ∃ p : Nat, p < 2147483648 ∧ long i ≤ p :=
      ⟨(long i).toNat, by omega, by omega⟩
    have hlow : LowEnough (jump p hp) 1 0 ticks := by
      intro time now' hstart
      have hread : gtcGetTime (jump p hp) 1 0 = some (4294967296, 3) := gtcGetTime_steady rfl
      rw [hread] at hstart
      obtain ⟨rfl, rfl⟩ := Prod.mk.inj (Option.some.inj hstart)
      omega
    have hadvanced := h (jump p hp) 1 0 6 hlow (wait_jump hp (by omega) hle)
    have hbefore : (jump p hp).value 0 = 4294967296 := rfl
    have hafter : (jump p hp).value 6 = 4294967296 + p := rfl
    omega
  · intro hsmall c fuel now now' hlow hwait
    obtain ⟨time, now₁, hread, hlt, hle⟩ := wait_spec hwait
    obtain ⟨j, hj, -, hvalue⟩ := gtcGetTime_spec hread
    have hstart := hlow time now₁ hread
    have hafter : c.value now ≤ time := by
      rw [hvalue]
      exact c.monotone (Nat.le_of_lt hj)
    rw [hi, long_of_small hsmall] at hle
    have hticks : toU64 ticks = ticks := by
      unfold toU64
      omega
    rw [hticks, Nat.mod_eq_of_lt hstart] at hle
    omega

theorem tps_eq : GTC_TPS = 400000000 := by decide

/-- `sleep(sec)` never returns early exactly up to five seconds, and `usleep(usec)` up to 5368709
microseconds: for more the product is no value of a `long`. -/
theorem sleep_never_early_iff {sec usec : Nat} (hsec : sec < 2147483648) (husec : usec < 2147483648) :
    (NeverEarly (fun c fuel now => sleep c fuel sec now) (400000000 * sec) ↔ sec ≤ 5) ∧
    (NeverEarly (fun c fuel now => usleep c fuel usec now) (400 * usec) ↔ usec ≤ 5368709) := by
  constructor
  · have hproduct : GTC_TPS * sec = (400000000 * sec : Nat) := by
      rw [tps_eq]
      omega
    have hiff := wait_never_early_iff hproduct (by omega)
    unfold sleep
    rw [hiff]
    omega
  · have hproduct : GTC_TPUS * usec = (400 * usec : Nat) := by
      unfold GTC_TPUS
      omega
    have hiff := wait_never_early_iff hproduct (by omega)
    unfold usleep
    rw [hiff]
    omega

/-- The delays that the kernel asks for. -/
theorem sleep_never_early_iff_sample :
    (NeverEarly (fun c fuel now => sleep c fuel (1 : Nat) now) (400000000 * 1) ↔ 1 ≤ 5) ∧
    (NeverEarly (fun c fuel now => usleep c fuel (2000 : Nat) now) (400 * 2000) ↔ 2000 ≤ 5368709) :=
  sleep_never_early_iff (by decide) (by decide)

/-- `sleep(6)` returns at once. -/
theorem sleep_early : ¬∀ sec : Nat, sec < 2147483648 →
    NeverEarly (fun c fuel now => sleep c fuel sec now) (400000000 * sec) := by
  intro h
  have hlow : LowEnough (jump 0 (by decide)) 1 0 (400000000 * 6) := by
    intro time now' hstart
    have hread : gtcGetTime (jump 0 (by decide)) 1 0 = some (4294967296, 3) := gtcGetTime_steady rfl
    rw [hread] at hstart
    obtain ⟨rfl, rfl⟩ := Prod.mk.inj (Option.some.inj hstart)
    decide
  have hproduct : long (GTC_TPS * (6 : Nat)) = -1894967296 := by decide
  have hsleep : sleep (jump 0 (by decide)) 1 (6 : Nat) 0 = some 6 := by
    unfold sleep
    rw [hproduct]
    exact wait_jump (by decide) (by decide) (by decide)
  have hadvanced := h 6 (by decide) _ _ _ _ hlow hsleep
  exact absurd hadvanced (by decide)

end Aimv6.Drivers
