import Mathlib.Data.Nat.Find

/-! # Conditional loops

A loop that runs its body while a test holds, given up when its fuel is spent.
A body may itself contain loops and so give up too. An invariant with a variant
makes the loop end; an invariant that implies the test keeps it from ending.
-/

namespace Support

variable {σ : Type*} {c : σ → Bool} {f g : σ → Option σ}

/-- `while (c) f`, given up after `fuel` tests. -/
def whileLoop (c : σ → Bool) (f : σ → Option σ) : Nat → σ → Option σ
  | 0, _ => none
  | fuel + 1, s => if c s then (f s).bind (whileLoop c f fuel) else some s

theorem whileLoop_of_false {fuel : Nat} {s : σ} (h : c s = false) :
    whileLoop c f (fuel + 1) s = some s := by
  simp [whileLoop, h]

theorem whileLoop_of_true {fuel : Nat} {s s' : σ} (h : c s = true) (hf : f s = some s') :
    whileLoop c f (fuel + 1) s = whileLoop c f fuel s' := by
  simp [whileLoop, h, hf]

/-- With a variant below the fuel the loop ends, and it ends where the test fails. -/
theorem whileLoop_total {I : σ → Prop} {m : σ → Nat}
    (hstep : ∀ s, I s → c s = true → ∃ s', f s = some s' ∧ I s' ∧ m s' < m s)
    {fuel : Nat} {s : σ} (hs : I s) (hfuel : m s < fuel) :
    ∃ t, whileLoop c f fuel s = some t ∧ I t ∧ c t = false := by
  induction fuel generalizing s with
  | zero => omega
  | succ fuel ih =>
      cases hc : c s with
      | false => exact ⟨s, whileLoop_of_false hc, hs, hc⟩
      | true =>
          obtain ⟨s', hf, hs', hm⟩ := hstep s hs hc
          rw [whileLoop_of_true hc hf]
          exact ih hs' (by omega)

/-- Where the loop ends its invariant holds and its test fails. -/
theorem whileLoop_keeps {I : σ → Prop} (hstep : ∀ s t, I s → f s = some t → I t) {fuel : Nat}
    {s t : σ} (hs : I s) (h : whileLoop c f fuel s = some t) : I t ∧ c t = false := by
  induction fuel generalizing s with
  | zero => simp [whileLoop] at h
  | succ fuel ih =>
      cases hc : c s with
      | false =>
          rw [whileLoop_of_false hc] at h
          obtain rfl := Option.some.inj h
          exact ⟨hs, hc⟩
      | true =>
          cases hf : f s with
          | none => simp [whileLoop, hc, hf] at h
          | some s' =>
              rw [whileLoop_of_true hc hf] at h
              exact ih (hstep s s' hs hf) h

/-- A loop whose invariant implies its test does not end. -/
theorem whileLoop_none {I : σ → Prop}
    (hstep : ∀ s, I s → c s = true ∧ ∀ s', f s = some s' → I s')
    (fuel : Nat) {s : σ} (hs : I s) : whileLoop c f fuel s = none := by
  induction fuel generalizing s with
  | zero => rfl
  | succ fuel ih =>
      obtain ⟨hc, hnext⟩ := hstep s hs
      cases hf : f s with
      | none => simp [whileLoop, hc, hf]
      | some s' =>
          rw [whileLoop_of_true hc hf]
          exact ih (hnext s' hf)

/-- More fuel, here and in the body, does not change what an ended loop returns. -/
theorem whileLoop_mono (hfg : ∀ s t, f s = some t → g s = some t) {fuel fuel' : Nat}
    (hle : fuel ≤ fuel') {s t : σ} (h : whileLoop c f fuel s = some t) :
    whileLoop c g fuel' s = some t := by
  induction fuel generalizing fuel' s with
  | zero => simp [whileLoop] at h
  | succ fuel ih =>
      obtain ⟨k, rfl⟩ : ∃ k, fuel' = k + 1 := ⟨fuel' - 1, by omega⟩
      cases hc : c s with
      | false =>
          rw [whileLoop_of_false hc] at h ⊢
          exact h
      | true =>
          cases hf : f s with
          | none => simp [whileLoop, hc, hf] at h
          | some s' =>
              rw [whileLoop_of_true hc hf] at h
              rw [whileLoop_of_true hc (hfg s s' hf)]
              exact ih (by omega) h

end Support
