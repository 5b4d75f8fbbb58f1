import Mathlib.Data.Nat.Find

/-! # Counted loops

A body that may fail, or cannot, run for consecutive indices upwards or
downwards. An indexed invariant that every pass keeps holds behind the loop.
-/

namespace Support

variable {σ ε : Type*} {f : Nat → σ → Except ε σ}

/-- Run `f i`, `f (i + 1)`, ... `n` times. -/
def loopUp (f : Nat → σ → Except ε σ) : Nat → Nat → σ → Except ε σ
  | 0, _, s => .ok s
  | n + 1, i, s => f i s >>= loopUp f n (i + 1)

/-- Run `f (a + n - 1)`, ..., `f (a + 1)`, `f a`. -/
def loopDown (f : Nat → σ → Except ε σ) (a : Nat) : Nat → σ → Except ε σ
  | 0, s => .ok s
  | n + 1, s => f (a + n) s >>= loopDown f a n

theorem except_bind_eq_ok {x : Except ε σ} {g : σ → Except ε σ} {t : σ} :
    (x >>= g) = .ok t ↔ ∃ s, x = .ok s ∧ g s = .ok t := by
  cases x <;> simp [bind, Except.bind]

theorem loopUp_succ {n i : Nat} {s t : σ} :
    loopUp f (n + 1) i s = .ok t ↔ ∃ s', f i s = .ok s' ∧ loopUp f n (i + 1) s' = .ok t :=
  except_bind_eq_ok

theorem loopDown_succ {n a : Nat} {s t : σ} :
    loopDown f a (n + 1) s = .ok t ↔ ∃ s', f (a + n) s = .ok s' ∧ loopDown f a n s' = .ok t :=
  except_bind_eq_ok

theorem loopUp_concat (f : Nat → σ → Except ε σ) (n i : Nat) (s : σ) :
    loopUp f (n + 1) i s = loopUp f n i s >>= f (i + n) := by
  induction n generalizing i s with
  | zero =>
      show f i s >>= loopUp f 0 (i + 1) = f i s
      cases f i s <;> rfl
  | succ n ih =>
      show f i s >>= loopUp f (n + 1) (i + 1) = f i s >>= loopUp f n (i + 1) >>= f (i + (n + 1))
      cases f i s with
      | error e => rfl
      | ok u =>
          show loopUp f (n + 1) (i + 1) u = loopUp f n (i + 1) u >>= f (i + (n + 1))
          rw [ih, Nat.add_right_comm, Nat.add_assoc]

/-- What pass `k` takes from index `k` to index `k + 1` is taken from one end to the other. -/
theorem loopUp_invariant {I : Nat → σ → Prop} {n i : Nat} {s t : σ}
    (hstep : ∀ k s s', i ≤ k → k < i + n → I k s → f k s = .ok s' → I (k + 1) s')
    (hs : I i s) (h : loopUp f n i s = .ok t) : I (i + n) t := by
  induction n generalizing i s with
  | zero =>
      obtain rfl := Except.ok.inj h
      exact hs
  | succ n ih =>
      obtain ⟨s', hf, hrest⟩ := loopUp_succ.1 h
      have hI := hstep i s s' (Nat.le_refl i) (by omega) hs hf
      have := ih (fun k u u' h₁ h₂ => hstep k u u' (by omega) (by omega)) hI hrest
      rwa [Nat.add_right_comm] at this

theorem loopDown_invariant {I : Nat → σ → Prop} {n a : Nat} {s t : σ}
    (hstep : ∀ k s s', a ≤ k → k < a + n → I (k + 1) s → f k s = .ok s' → I k s')
    (hs : I (a + n) s) (h : loopDown f a n s = .ok t) : I a t := by
  induction n generalizing s with
  | zero =>
      obtain rfl := Except.ok.inj h
      exact hs
  | succ n ih =>
      obtain ⟨s', hf, hrest⟩ := loopDown_succ.1 h
      have hI := hstep (a + n) s s' (by omega) (by omega) hs hf
      exact ih (fun k u u' h₁ h₂ => hstep k u u' h₁ (by omega)) hI hrest

/-- Passes that change nothing can be left out at the front. -/
theorem loopUp_skip {n m i : Nat} {s : σ} (h : ∀ k, i ≤ k → k < i + m → f k s = .ok s) :
    loopUp f (m + n) i s = loopUp f n (i + m) s := by
  induction m generalizing i with
  | zero => rw [Nat.zero_add, Nat.add_zero]
  | succ m ih =>
      rw [Nat.succ_add, loopUp, h i (Nat.le_refl i) (by omega)]
      show loopUp f (m + n) (i + 1) s = _
      rw [ih fun k h₁ h₂ => h k (by omega) (by omega), Nat.add_right_comm, Nat.add_assoc]

theorem loopDown_skip {n m a : Nat} {s : σ} (h : ∀ k, a + n ≤ k → k < a + n + m → f k s = .ok s) :
    loopDown f a (n + m) s = loopDown f a n s := by
  induction m with
  | zero => rfl
  | succ m ih =>
      rw [← Nat.add_assoc, loopDown, h (a + (n + m)) (by omega) (by omega)]
      exact ih fun k h₁ h₂ => h k h₁ (by omega)

theorem loopUp_id {n i : Nat} {s : σ} (h : ∀ k, i ≤ k → k < i + n → f k s = .ok s) :
    loopUp f n i s = .ok s := by
  have := @loopUp_skip σ ε f 0 n i s h
  rwa [Nat.add_zero] at this

theorem loopDown_id {n a : Nat} {s : σ} (h : ∀ k, a ≤ k → k < a + n → f k s = .ok s) :
    loopDown f a n s = .ok s := by
  have := @loopDown_skip σ ε f 0 n a s h
  rwa [Nat.zero_add] at this

/-- The pass of a downward loop that comes first among those with a property. -/
theorem exists_last {P : Nat → Prop} {n k : Nat} (hk : k ≤ n) (hP : P k) :
    ∃ i ≤ n, P i ∧ ∀ j, i < j → j ≤ n → ¬ P j := by
  classical
  exact ⟨Nat.findGreatest P n, Nat.findGreatest_le n, Nat.findGreatest_spec hk hP,
    fun j h₁ h₂ => Nat.findGreatest_is_greatest h₁ h₂⟩

/-- The pass of an upward loop that comes first among those with a property. -/
theorem exists_first {P : Nat → Prop} {k : Nat} (hP : P k) : ∃ i, P i ∧ ∀ j < i, ¬ P j := by
  classical
  exact ⟨Nat.find ⟨k, hP⟩, Nat.find_spec ⟨k, hP⟩, fun j hj => Nat.find_min ⟨k, hP⟩ hj⟩

/-! ## Bodies that cannot fail -/

/-- Run `g 0`, `g 1`, ... `n` times. -/
def countUp (g : Nat → σ → σ) : Nat → σ → σ
  | 0, s => s
  | n + 1, s => g n (countUp g n s)

theorem countUp_invariant {g : Nat → σ → σ} {I : Nat → σ → Prop} {n : Nat} {s : σ}
    (hstep : ∀ k s, k < n → I k s → I (k + 1) (g k s)) (hs : I 0 s) : I n (countUp g n s) := by
  induction n with
  | zero => exact hs
  | succ n ih => exact hstep n _ (by omega) (ih fun k s hk => hstep k s (by omega))

end Support
