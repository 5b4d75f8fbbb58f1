import Aimv6.Mm.SlabRun
import Mathlib.Data.Nat.Factorization.Basic

/-! # `kmalloc` and `kmfree`

`kmemory_manage.c`: the size of an object stands in the word before it, and the
slab allocator is asked for the next power of two.
-/

namespace Aimv6.Mm

open Support

/-- `x & (-x)` -/
def lowbit (x : Nat) : Nat := x &&& sub32 0 x

/-- `while (size != lowbit(size)) size += lowbit(size);` -/
def upBoundLoop : Nat → Nat → Option Nat
  | 0, _ => none
  | fuel + 1, size =>
      if size ≠ lowbit size then upBoundLoop fuel (add32 size (lowbit size)) else some size

def upBound (size : Nat) : Res Nat := Res.ofFuel (upBoundLoop walkFuel (add32 size 4))

def kmalloc (s : State) (size : Nat) : Res (Option Nat × State) := do
  let bound ← upBound size
  let (p, s) ← slbAlloc s bound
  match p with
  | none => .ok (none, s)
  | some p => .ok (some (add32 p 4), s.setWord p size)

def kmfree (s : State) (p : Nat) : Res (Nat × State) := do
  let p := sub32 p 4
  let size := s.word p
  let bound ← upBound size
  slbFree s p bound

/-! ## Rounding up to a power of two -/

theorem and_two_pow_sub {n x : Nat} (hpos : 0 < x) (hlt : x < 2 ^ n) :
    ∃ t, x &&& (2 ^ n - x) = 2 ^ t ∧ 2 ^ t ∣ x := by
  obtain ⟨t, m, hm, rfl⟩ := Nat.exists_eq_two_pow_mul_odd (Nat.pos_iff_ne_zero.1 hpos)
  obtain ⟨c, rfl⟩ := hm
  refine ⟨t, ?_, Nat.dvd_mul_right _ _⟩
  have ht := Nat.two_pow_pos t
  have hpred : 2 ^ n - 2 ^ t * (2 * c + 1) = 2 ^ n - ((2 ^ t * (2 * c) + (2 ^ t - 1)) + 1) := by
    rw [Nat.mul_add, Nat.mul_one]
    omega
  have hlt' : 2 ^ t * (2 * c) + (2 ^ t - 1) < 2 ^ n := by
    rw [Nat.mul_add, Nat.mul_one] at hlt
    omega
  have htn : t < n := by
    refine (Nat.pow_lt_pow_iff_right (a := 2) (by decide)).1 (Nat.lt_of_le_of_lt ?_ hlt)
    exact Nat.le_mul_of_pos_right _ (by omega)
  refine Nat.eq_of_testBit_eq fun i => ?_
  rw [hpred, Nat.testBit_and, Nat.testBit_two_pow_sub_succ hlt', Nat.testBit_two_pow_mul,
    Nat.testBit_two_pow_mul_add _ (by omega), Nat.testBit_two_pow]
  by_cases hit : i < t
  · simp [hit, Nat.not_le.2 hit, Nat.ne_of_gt hit]
  · by_cases heq : t = i
    · subst heq
      simp [htn]
    · -- above the lowest bit `x` and `x - 1` agree
      obtain ⟨j, hj⟩ : ∃ j, i - t = j + 1 := ⟨i - t - 1, by omega⟩
      have hodd : (2 * c + 1).testBit (j + 1) = (2 * c).testBit (j + 1) := by
        rw [Nat.testBit_succ, Nat.testBit_succ]
        congr 1
        omega
      rw [hj, hodd, if_neg hit, decide_eq_false heq]
      cases (2 * c).testBit (j + 1) <;> simp

theorem lowbit_spec {x : Nat} (hpos : 0 < x) (hlt : x < 4294967296) :
    ∃ t, lowbit x = 2 ^ t ∧ 2 ^ t ∣ x := by
  have hsub : sub32 0 x = 2 ^ 32 - x := by
    unfold sub32
    omega
  unfold lowbit
  rw [hsub]
  exact and_two_pow_sub hpos hlt

theorem lowbit_two_pow : ∀ n ≤ 31, lowbit (2 ^ n) = 2 ^ n := by
  decide

theorem add_lowbit_le {x n : Nat} (hn : n ≤ 31) (hpos : 0 < x) (hlt : x < 2 ^ n) :
    0 < lowbit x ∧ x + lowbit x ≤ 2 ^ n := by
  have hlt32 : x < 4294967296 :=
    Nat.lt_of_lt_of_le hlt (Nat.pow_le_pow_right (by decide) (by omega : n ≤ 32))
  obtain ⟨t, hlow, hdvd⟩ := lowbit_spec hpos hlt32
  have htle : 2 ^ t < 2 ^ n := Nat.lt_of_le_of_lt (Nat.le_of_dvd hpos hdvd) hlt
  have htn : t ≤ n := ((Nat.pow_lt_pow_iff_right (by decide)).1 htle).le
  rw [hlow]
  refine ⟨Nat.two_pow_pos t, ?_⟩
  obtain ⟨a, rfl⟩ := hdvd
  obtain ⟨b, hb⟩ := Nat.pow_dvd_pow 2 htn
  rw [hb] at hlt ⊢
  have hab : a < b := Nat.lt_of_mul_lt_mul_left hlt
  calc 2 ^ t * a + 2 ^ t = 2 ^ t * (a + 1) := by rw [Nat.mul_add, Nat.mul_one]
    _ ≤ 2 ^ t * b := Nat.mul_le_mul_left _ hab

theorem upBoundLoop_spec {n fuel x : Nat} (hn : n ≤ 31) (hpos : 0 < x) (hle : x ≤ 2 ^ n)
    (hfuel : 2 ^ n - x < fuel) :
    ∃ b, upBoundLoop fuel x = some b ∧ x ≤ b ∧ b ≤ 2 ^ n ∧ b = lowbit b := by
  induction fuel generalizing x with
  | zero => omega
  | succ fuel ih =>
      unfold upBoundLoop
      by_cases hlow : x = lowbit x
      · exact ⟨x, if_neg (by simpa using hlow), Nat.le_refl x, hle, hlow⟩
      · have hlt : x < 2 ^ n := by
          refine Nat.lt_of_le_of_ne hle fun hx => hlow ?_
          rw [hx, lowbit_two_pow n hn]
        obtain ⟨hlpos, hnext⟩ := add_lowbit_le hn hpos hlt
        have h31 : 2 ^ n ≤ 2147483648 := Nat.pow_le_pow_right (by decide) hn
        obtain ⟨b, hrun, hxb, hbn, hb⟩ := ih (x := x + lowbit x) (by omega) hnext (by omega)
        refine ⟨b, ?_, by omega, hbn, hb⟩
        rw [if_pos hlow, add32_of_lt (by omega)]
        exact hrun

/-- `up_bound` ends, at a power of two, for sizes whose bound is at most `2 ^ 28`. -/
theorem upBound_spec {size : Nat} (hsize : size + 4 ≤ 268435456) :
    ∃ b, upBound size = .ok b ∧ size + 4 ≤ b ∧ b ≤ 268435456 ∧ b = lowbit b := by
  obtain ⟨b, hrun, h₁, h₂, h₃⟩ := @upBoundLoop_spec 28 walkFuel (size + 4) (by decide) (by omega)
    (by omega) (by unfold walkFuel; omega)
  refine ⟨b, ?_, h₁, by omega, h₃⟩
  unfold upBound
  rw [add32_of_lt (by omega), hrun]
  rfl

theorem upBound_request {size b : Nat} (hpos : 1 ≤ size) (hle : size + 4 ≤ b)
    (hb : b ≤ 268435456) : Request b 0 ∧ ¬ KeysAgree b 0 := by
  refine ⟨⟨by omega, by omega, Or.inl rfl⟩, ?_⟩
  unfold KeysAgree
  omega

/-- The object that `kmalloc` hands out is a slot of the slab allocator with the size in its first
word. -/
theorem kmalloc_of_some {s s₁ : State} {size q b : Nat} (hb : upBound size = .ok b)
    (h : kmalloc s size = .ok (some q, s₁)) :
    ∃ p t, slbAlloc s b = .ok (some p, t) ∧ q = add32 p 4 ∧ s₁ = t.setWord p size := by
  unfold kmalloc at h
  rw [hb, Res.ok_bind] at h
  obtain ⟨⟨res, t⟩, hrun, h⟩ := Res.bind_eq_ok.1 h
  cases res with
  | none => simp at h
  | some p =>
      have h' : (.ok (some (add32 p 4), t.setWord p size) : Res (Option Nat × State)) =
        .ok (some q, s₁) := h
      simp only [Except.ok.injEq, Prod.mk.injEq, Option.some.injEq] at h'
      exact ⟨p, t, hrun, h'.1.symm, h'.2.symm⟩

theorem sub32_add32 {p : Nat} (hp : p < 4294967296) : sub32 (add32 p 4) 4 = p := by
  unfold sub32 add32
  omega

/-- `kmfree` asks for the same bound as long as the size word is intact. -/
theorem kmfree_eq {s : State} {p size b : Nat} (hp : p < 4294967296) (hw : s.word p = size)
    (hb : upBound size = .ok b) : kmfree s (add32 p 4) = slbFree s p b := by
  unfold kmfree
  dsimp only
  rw [sub32_add32 hp, hw, hb, Res.ok_bind]

end Aimv6.Mm
