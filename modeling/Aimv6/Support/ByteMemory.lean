import Mathlib.Order.Interval.Set.Basic

/-! # Byte-addressed memory with little-endian words

Memory is a total function from addresses to bytes. A word occupies four
consecutive bytes at any address, aligned or not; two words are independent
exactly when their byte ranges do not meet. A link stored in a word is a nonzero
address, zero being the null link.
-/

namespace Support

abbrev Memory := Nat → UInt8

/-- The word at address `a`, least significant byte first. -/
def load32 (m : Memory) (a : Nat) : Nat :=
  (m a).toNat + 256 * (m (a + 1)).toNat + 65536 * (m (a + 2)).toNat + 16777216 * (m (a + 3)).toNat

/-- Store the low 32 bits of `v` at address `a`. -/
def store32 (m : Memory) (a v : Nat) : Memory := fun b =>
  if b = a then UInt8.ofNat v
  else if b = a + 1 then UInt8.ofNat (v / 256)
  else if b = a + 2 then UInt8.ofNat (v / 65536)
  else if b = a + 3 then UInt8.ofNat (v / 16777216)
  else m b

def store8 (m : Memory) (a : Nat) (v : UInt8) : Memory := fun b => if b = a then v else m b

theorem store32_eq_store8 (m : Memory) (a v : Nat) : store32 m a v =
    store8 (store8 (store8 (store8 m a (UInt8.ofNat v)) (a + 1) (UInt8.ofNat (v / 256))) (a + 2)
      (UInt8.ofNat (v / 65536))) (a + 3) (UInt8.ofNat (v / 16777216)) := by
  funext b
  unfold store32 store8
  by_cases h₃ : b = a + 3
  · rw [if_neg (by omega), if_neg (by omega), if_neg (by omega), if_pos h₃, if_pos h₃]
  · by_cases h₂ : b = a + 2
    · rw [if_neg (by omega), if_neg (by omega), if_pos h₂, if_neg h₃, if_pos h₂]
    · by_cases h₁ : b = a + 1
      · rw [if_neg (by omega), if_pos h₁, if_neg h₃, if_neg h₂, if_pos h₁]
      · rw [if_neg h₁, if_neg h₂, if_neg h₃, if_neg h₃, if_neg h₂, if_neg h₁]

/-- Two memories hold the same bytes at every address of `s`. -/
def AgreeOn (s : Set Nat) (m m' : Memory) : Prop := ∀ b ∈ s, m' b = m b

theorem AgreeOn.refl (s : Set Nat) (m : Memory) : AgreeOn s m m := fun _ _ => rfl

theorem AgreeOn.trans {s : Set Nat} {m₁ m₂ m₃ : Memory} (h₁ : AgreeOn s m₁ m₂)
    (h₂ : AgreeOn s m₂ m₃) : AgreeOn s m₁ m₃ := fun b hb => (h₂ b hb).trans (h₁ b hb)

theorem AgreeOn.mono {s t : Set Nat} {m m' : Memory} (h : AgreeOn t m m') (hst : s ⊆ t) :
    AgreeOn s m m' := fun b hb => h b (hst hb)

theorem load32_lt (m : Memory) (a : Nat) : load32 m a < 4294967296 := by
  have h₀ := (m a).toNat_lt
  have h₁ := (m (a + 1)).toNat_lt
  have h₂ := (m (a + 2)).toNat_lt
  have h₃ := (m (a + 3)).toNat_lt
  unfold load32
  omega

/-- A word depends on its own four bytes only. -/
theorem load32_ext {m m' : Memory} {a : Nat} (h : ∀ b, a ≤ b → b < a + 4 → m' b = m b) :
    load32 m' a = load32 m a := by
  unfold load32
  rw [h a (by omega) (by omega), h (a + 1) (by omega) (by omega), h (a + 2) (by omega) (by omega),
    h (a + 3) (by omega) (by omega)]

theorem load32_congr {m m' : Memory} {s : Set Nat} (h : AgreeOn s m m') {a : Nat}
    (ha : ∀ b, a ≤ b → b < a + 4 → b ∈ s) : load32 m' a = load32 m a :=
  load32_ext fun b h₁ h₂ => h b (ha b h₁ h₂)

theorem store32_apply_of_outside {m : Memory} {a v b : Nat} (h : b < a ∨ a + 4 ≤ b) :
    store32 m a v b = m b := by
  unfold store32
  rw [if_neg (by omega), if_neg (by omega), if_neg (by omega), if_neg (by omega)]

theorem store32_agreeOn {m : Memory} {a v : Nat} {s : Set Nat}
    (h : ∀ b ∈ s, b < a ∨ a + 4 ≤ b) : AgreeOn s m (store32 m a v) :=
  fun b hb => store32_apply_of_outside (h b hb)

theorem store8_apply_of_ne {m : Memory} {a b : Nat} {v : UInt8} (h : b ≠ a) :
    store8 m a v b = m b := if_neg h

theorem load32_store32_same (m : Memory) (a v : Nat) :
    load32 (store32 m a v) a = v % 4294967296 := by
  have h₁ : a + 1 ≠ a := by omega
  have h₂ : a + 2 ≠ a := by omega
  have h₃ : a + 3 ≠ a := by omega
  have h₄ : a + 2 ≠ a + 1 := by omega
  have h₅ : a + 3 ≠ a + 1 := by omega
  have h₆ : a + 3 ≠ a + 2 := by omega
  simp only [load32, store32, if_pos, if_neg h₁, if_neg h₂, if_neg h₃, if_neg h₄, if_neg h₅,
    if_neg h₆, UInt8.toNat_ofNat']
  omega

theorem load32_store32_of_lt (m : Memory) {a v : Nat} (hv : v < 4294967296) :
    load32 (store32 m a v) a = v := by
  rw [load32_store32_same, Nat.mod_eq_of_lt hv]

theorem load32_store32_ne (m : Memory) {a b v : Nat} (h : a + 4 ≤ b ∨ b + 4 ≤ a) :
    load32 (store32 m a v) b = load32 m b := by
  unfold load32
  rw [store32_apply_of_outside (by omega), store32_apply_of_outside (by omega),
    store32_apply_of_outside (by omega), store32_apply_of_outside (by omega)]

/-! ## Arrays -/

/-- Store `f 0`, `f 1`, ... in the `n` words from address `a` on. -/
def fillWords (a : Nat) (f : Nat → Nat) : Nat → Memory → Memory
  | 0, m => m
  | n + 1, m => store32 (fillWords a f n m) (a + 4 * n) (f n)

/-- Store `f 0`, `f 1`, ... in the `n` bytes from address `a` on. -/
def fillBytes (a : Nat) (f : Nat → UInt8) : Nat → Memory → Memory
  | 0, m => m
  | n + 1, m => store8 (fillBytes a f n m) (a + n) (f n)

theorem fillWords_outside {a b n : Nat} {f : Nat → Nat} {m : Memory} (h : b < a ∨ a + 4 * n ≤ b) :
    fillWords a f n m b = m b := by
  induction n with
  | zero => rfl
  | succ n ih =>
      rw [fillWords, store32_apply_of_outside (by omega)]
      exact ih (by omega)

theorem load32_fillWords {a n i : Nat} {f : Nat → Nat} {m : Memory} (hi : i < n) :
    load32 (fillWords a f n m) (a + 4 * i) = f i % 4294967296 := by
  induction n with
  | zero => omega
  | succ n ih =>
      rw [fillWords]
      by_cases hin : i = n
      · rw [hin, load32_store32_same]
      · rw [load32_store32_ne _ (by omega)]
        exact ih (by omega)

theorem fillBytes_outside {a b n : Nat} {f : Nat → UInt8} {m : Memory} (h : b < a ∨ a + n ≤ b) :
    fillBytes a f n m b = m b := by
  induction n with
  | zero => rfl
  | succ n ih =>
      rw [fillBytes, store8_apply_of_ne (by omega)]
      exact ih (by omega)

theorem fillBytes_at {a n i : Nat} {f : Nat → UInt8} {m : Memory} (hi : i < n) :
    fillBytes a f n m (a + i) = f i := by
  induction n with
  | zero => omega
  | succ n ih =>
      rw [fillBytes]
      by_cases hin : i = n
      · rw [hin]
        exact if_pos rfl
      · rw [store8_apply_of_ne (by omega)]
        exact ih (by omega)

/-- Store `f 0`, ..., `f (n - 1)` from address `a` on, all at once. -/
@[irreducible] def storeBytes (a n : Nat) (f : Nat → UInt8) (m : Memory) : Memory := fun b =>
  if a ≤ b ∧ b < a + n then f (b - a) else m b

theorem storeBytes_in {a b n : Nat} {f : Nat → UInt8} {m : Memory} (h₁ : a ≤ b) (h₂ : b < a + n) :
    storeBytes a n f m b = f (b - a) := by
  unfold storeBytes
  exact if_pos ⟨h₁, h₂⟩

theorem storeBytes_out {a b n : Nat} {f : Nat → UInt8} {m : Memory} (h : b < a ∨ a + n ≤ b) :
    storeBytes a n f m b = m b := by
  unfold storeBytes
  exact if_neg (by omega)

theorem storeBytes_succ {a n : Nat} {f : Nat → UInt8} {m : Memory} :
    storeBytes a (n + 1) f m = store8 (storeBytes a n f m) (a + n) (f n) := by
  funext b
  by_cases hb : b = a + n
  · rw [hb, storeBytes_in (Nat.le_add_right a n) (by omega), Nat.add_sub_cancel_left]
    exact (if_pos rfl).symm
  · rw [store8_apply_of_ne hb]
    by_cases hin : a ≤ b ∧ b < a + n
    · rw [storeBytes_in hin.1 hin.2, storeBytes_in hin.1 (by omega)]
    · rw [storeBytes_out (by omega), storeBytes_out (by omega)]

/-- A word is determined by the four bytes it is made of. -/
theorem load32_eq {m m' : Memory} {a b : Nat} (h : ∀ i < 4, m (a + i) = m' (b + i)) :
    load32 m a = load32 m' b := by
  have h₀ : m a = m' b := h 0 (by omega)
  unfold load32
  rw [h₀, h 1 (by omega), h 2 (by omega), h 3 (by omega)]

/-! ## Links -/

/-- The link a word denotes. -/
def ptr (a : Nat) : Option Nat := if a = 0 then none else some a

/-- The word that denotes a link. -/
def ptrVal (p : Option Nat) : Nat := p.getD 0

@[simp] theorem ptr_zero : ptr 0 = none := rfl

@[simp] theorem ptrVal_none : ptrVal none = 0 := rfl

@[simp] theorem ptrVal_some (a : Nat) : ptrVal (some a) = a := rfl

theorem ptr_of_pos {a : Nat} (h : 0 < a) : ptr a = some a := if_neg (by omega)

theorem ptr_eq_some {a b : Nat} : ptr a = some b ↔ a = b ∧ 0 < b := by
  unfold ptr
  split <;> simp <;> omega

@[simp] theorem ptrVal_ptr (a : Nat) : ptrVal (ptr a) = a := by
  unfold ptr
  split <;> simp_all

theorem ptr_ptrVal {p : Option Nat} (h : ∀ a ∈ p, 0 < a) : ptr (ptrVal p) = p := by
  cases p with
  | none => rfl
  | some a => exact ptr_of_pos (h a rfl)

end Support
