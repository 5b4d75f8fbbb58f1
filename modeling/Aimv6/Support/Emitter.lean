import Mathlib.Data.List.Basic
import Mathlib.Logic.Function.Basic

/-! # Machines that emit bytes

A machine steps silently, emits a byte, stops or faults. Without a bound it
emits a sequence that may be endless. Into a buffer of a given size it runs on
until the buffer is full. One simulation relates the two: the buffer holds what
the unbounded run has emitted so far.
-/

namespace Support

inductive Action (σ : Type*) where
  | silent (next : σ)
  | emit (ch : UInt8) (next : σ)
  | stop
  | fault

variable {σ : Type*} {step : σ → Action σ}

/-- The unbounded run leads from one state to another and emits a list of bytes on the way. -/
inductive Emits (step : σ → Action σ) : σ → List UInt8 → σ → Prop where
  | refl (s : σ) : Emits step s [] s
  | silent {s s' t : σ} {out : List UInt8} :
      step s = .silent s' → Emits step s' out t → Emits step s out t
  | emit {s s' t : σ} {ch : UInt8} {out : List UInt8} :
      step s = .emit ch s' → Emits step s' out t → Emits step s (ch :: out) t

/-- The unbounded run stops, and `out` is all that it emits. -/
def Stops (step : σ → Action σ) (s : σ) (out : List UInt8) : Prop :=
  ∃ t, Emits step s out t ∧ step t = .stop

/-- `out` is the first `n` bytes that the unbounded run emits, or all of them if it stops before. -/
def FirstBytes (step : σ → Action σ) (s : σ) (n : Nat) (out : List UInt8) : Prop :=
  (out.length = n ∧ ∃ t, Emits step s out t) ∨ (out.length < n ∧ Stops step s out)

theorem Emits.trans {s t u : σ} {out out' : List UInt8} (h : Emits step s out t)
    (h' : Emits step t out' u) : Emits step s (out ++ out') u := by
  induction h with
  | refl s => exact h'
  | silent hs _ ih => exact Emits.silent hs (ih h')
  | emit hs _ ih => exact Emits.emit hs (ih h')

theorem Emits.single {s t : σ} {ch : UInt8} (h : step s = .emit ch t) : Emits step s [ch] t :=
  Emits.emit h (Emits.refl t)

theorem Emits.quiet {s t : σ} (h : step s = .silent t) : Emits step s [] t :=
  Emits.silent h (Emits.refl t)

/-- The run to a prefix of what is emitted. -/
theorem Emits.take {s t : σ} {out : List UInt8} (h : Emits step s out t) {n : Nat}
    (hn : n ≤ out.length) : ∃ u, Emits step s (out.take n) u := by
  induction h generalizing n with
  | refl s => exact ⟨s, by rw [List.take_nil]; exact Emits.refl s⟩
  | silent hs _ ih =>
      obtain ⟨u, hu⟩ := ih hn
      exact ⟨u, Emits.silent hs hu⟩
  | @emit s s' _ ch out hs _ ih =>
      cases n with
      | zero => exact ⟨s, Emits.refl s⟩
      | succ n =>
          obtain ⟨u, hu⟩ := ih (Nat.le_of_succ_le_succ hn)
          exact ⟨u, Emits.emit hs hu⟩

/-- A stopped run and any other run from the same state agree. -/
theorem Stops.of_emits {s t : σ} {out out' : List UInt8} (hstop : Stops step s (out'))
    (h : Emits step s out t) : ∃ rest, out' = out ++ rest ∧ Stops step t rest := by
  induction h generalizing out' with
  | refl s => exact ⟨out', rfl, hstop⟩
  | silent hs _ ih =>
      apply ih
      obtain ⟨u, hu, hend⟩ := hstop
      cases hu with
      | refl => exact absurd (hs.symm.trans hend) (by simp)
      | silent hs' hu =>
          obtain rfl := Action.silent.inj (hs'.symm.trans hs)
          exact ⟨u, hu, hend⟩
      | emit hs' hu => exact absurd (hs.symm.trans hs') (by simp)
  | @emit s s' _ ch out hs _ ih =>
      obtain ⟨u, hu, hend⟩ := hstop
      cases hu with
      | refl => exact absurd (hs.symm.trans hend) (by simp)
      | silent hs' hu => exact absurd (hs.symm.trans hs') (by simp)
      | emit hs' hu =>
          obtain ⟨rfl, rfl⟩ := Action.emit.inj (hs'.symm.trans hs)
          obtain ⟨rest, rfl, hrest⟩ := ih ⟨u, hu, hend⟩
          exact ⟨rest, rfl, hrest⟩

theorem Stops.unique {s : σ} {out out' : List UInt8} (h : Stops step s out)
    (h' : Stops step s out') : out = out' := by
  obtain ⟨t, ht, hend⟩ := h
  obtain ⟨rest, rfl, u, hu, -⟩ := Stops.of_emits h' ht
  cases hu with
  | refl => exact (List.append_nil out).symm
  | silent hs _ => exact absurd (hs.symm.trans hend) (by simp)
  | emit hs _ => exact absurd (hs.symm.trans hend) (by simp)

theorem FirstBytes.take {s : σ} {n m : Nat} {out : List UInt8} (h : FirstBytes step s n out)
    (hm : m ≤ n) : FirstBytes step s m (out.take m) := by
  by_cases hlen : m ≤ out.length
  · left
    have hrun : ∃ t, Emits step s out t := by
      cases h with
      | inl h => exact h.2
      | inr h =>
          obtain ⟨-, t, ht, -⟩ := h
          exact ⟨t, ht⟩
    obtain ⟨t, ht⟩ := hrun
    exact ⟨List.length_take_of_le hlen, ht.take hlen⟩
  · right
    rw [List.take_of_length_le (by omega)]
    cases h with
    | inl h => omega
    | inr h => exact ⟨by omega, h.2⟩

/-- What a machine that never faults and never runs on in silence has to offer: an invariant, and
a variant that every silent step makes smaller. -/
structure Lively (step : σ → Action σ) (Inv : σ → Prop) (m : σ → Nat) : Prop where
  silent : ∀ s s', Inv s → step s = .silent s' → Inv s' ∧ m s' < m s
  emit : ∀ s ch s', Inv s → step s = .emit ch s' → Inv s'
  sound : ∀ s, Inv s → step s ≠ .fault

theorem Lively.emits {Inv : σ → Prop} {m : σ → Nat} (h : Lively step Inv m) {s t : σ}
    {out : List UInt8} (hs : Inv s) (hrun : Emits step s out t) : Inv t := by
  induction hrun with
  | refl s => exact hs
  | silent hstep _ ih => exact ih (h.silent _ _ hs hstep).1
  | emit hstep _ ih => exact ih (h.emit _ _ _ hs hstep)

/-- A lively machine comes to its next byte, or to its end. -/
theorem Lively.next {Inv : σ → Prop} {m : σ → Nat} (h : Lively step Inv m) {s : σ} (hs : Inv s) :
    (∃ ch t, Emits step s [ch] t ∧ Inv t) ∨ Stops step s [] := by
  obtain ⟨k, hk⟩ : ∃ k, m s < k := ⟨m s + 1, Nat.lt_succ_self _⟩
  induction k generalizing s with
  | zero => omega
  | succ k ih =>
      cases hstep : step s with
      | silent s' =>
          obtain ⟨hs', hless⟩ := h.silent s s' hs hstep
          cases ih hs' (by omega) with
          | inl hbyte =>
              obtain ⟨ch, t, ht, hinv⟩ := hbyte
              exact Or.inl ⟨ch, t, Emits.silent hstep ht, hinv⟩
          | inr hend =>
              obtain ⟨t, ht, hstop⟩ := hend
              exact Or.inr ⟨t, Emits.silent hstep ht, hstop⟩
      | emit ch s' => exact Or.inl ⟨ch, s', Emits.single hstep, h.emit s ch s' hs hstep⟩
      | stop => exact Or.inr ⟨s, Emits.refl s, hstep⟩
      | fault => exact absurd hstep (h.sound s hs)

theorem Lively.firstBytes {Inv : σ → Prop} {m : σ → Nat} (h : Lively step Inv m) (n : Nat) {s : σ}
    (hs : Inv s) : ∃ out, FirstBytes step s n out := by
  induction n generalizing s with
  | zero => exact ⟨[], Or.inl ⟨rfl, s, Emits.refl s⟩⟩
  | succ n ih =>
      cases h.next hs with
      | inr hend => exact ⟨[], Or.inr ⟨Nat.succ_pos n, hend⟩⟩
      | inl hbyte =>
          obtain ⟨ch, t, ht, hinv⟩ := hbyte
          obtain ⟨out, hout⟩ := ih hinv
          use ch :: out
          cases hout with
          | inl hlong =>
              obtain ⟨hlen, u, hu⟩ := hlong
              exact Or.inl ⟨by rw [List.length_cons, hlen], u, ht.trans hu⟩
          | inr hshort =>
              obtain ⟨hlen, u, hu, hstop⟩ := hshort
              exact Or.inr ⟨by rw [List.length_cons]; omega, u, ht.trans hu, hstop⟩

/-! ## Runs that look the same -/

section
variable {τ : Type*} {step' : τ → Action τ} {I : σ → Prop} {f : σ → τ}

/-- An action with the state behind it seen through a map. -/
def Action.map (f : σ → τ) : Action σ → Action τ
  | .silent next => .silent (f next)
  | .emit ch next => .emit ch (f next)
  | .stop => .stop
  | .fault => .fault

/-- What holds of the state behind an action, if there is one. -/
def Action.Leads (P : σ → Prop) : Action σ → Prop
  | .silent next => P next
  | .emit _ next => P next
  | .stop => True
  | .fault => True

theorem Action.map_ite (f : σ → τ) {p : Prop} [Decidable p] (a b : Action σ) :
    (if p then a else b).map f = if p then a.map f else b.map f := apply_ite (Action.map f) p a b

/-- Actions that look the same. -/
def Action.Agree (f : σ → τ) (a b : Action σ) : Prop := a.map f = b.map f

theorem Action.Agree.silent {s t : σ} (h : f s = f t) : Agree f (.silent s) (.silent t) :=
  congrArg Action.silent h

theorem Action.Agree.emit {s t : σ} {ch ch' : UInt8} (hch : ch = ch') (h : f s = f t) :
    Agree f (.emit ch s) (.emit ch' t) := by
  subst hch
  exact congrArg (Action.emit ch) h

theorem Action.Agree.ite {p q : Prop} [Decidable p] [Decidable q] (hpq : p ↔ q)
    {a a' b b' : Action σ} (ha : p → Agree f a a') (hb : ¬p → Agree f b b') :
    Agree f (if p then a else b) (if q then a' else b') := by
  by_cases hp : p
  · rw [if_pos hp, if_pos (hpq.1 hp)]
    exact ha hp
  · rw [if_neg hp, if_neg (mt hpq.2 hp)]
    exact hb hp

theorem Action.Leads.ite {P : σ → Prop} {p : Prop} [Decidable p] {a b : Action σ}
    (ha : p → a.Leads P) (hb : ¬p → b.Leads P) : (if p then a else b).Leads P := by
  split
  case isTrue hp => exact ha hp
  case isFalse hp => exact hb hp

theorem Emits.keeps (hstep : ∀ s, I s → (step s).Leads I) {s t : σ} {out : List UInt8} (hs : I s)
    (h : Emits step s out t) : I t := by
  induction h with
  | refl s => exact hs
  | silent hact _ ih =>
      have hnext := hstep _ hs
      rw [hact] at hnext
      exact ih hnext
  | emit hact _ ih =>
      have hnext := hstep _ hs
      rw [hact] at hnext
      exact ih hnext

/-- A machine that does under a map what another does emits the same, until that one stops. -/
theorem Emits.map (hkeep : ∀ s, I s → (step s).Leads I)
    (hmap : ∀ s, I s → step s ≠ .stop → step' (f s) = (step s).map f) {s t : σ} {out : List UInt8}
    (hs : I s) (h : Emits step s out t) : Emits step' (f s) out (f t) := by
  induction h with
  | refl s => exact Emits.refl (f s)
  | silent hact _ ih =>
      have hnext := hkeep _ hs
      have hsame := hmap _ hs (by rw [hact]; simp)
      rw [hact] at hnext hsame
      exact Emits.silent hsame (ih hnext)
  | emit hact _ ih =>
      have hnext := hkeep _ hs
      have hsame := hmap _ hs (by rw [hact]; simp)
      rw [hact] at hnext hsame
      exact Emits.emit hsame (ih hnext)

end

section
variable {view : σ → σ} (hview : ∀ s, Action.Agree view (step (view s)) (step s))
include hview

/-- States that look the same emit the same, where steps do not see more than the view shows. -/
theorem Emits.of_view {s s' t : σ} {out : List UInt8} (hs : view s = view s')
    (h : Emits step s out t) : ∃ t', Emits step s' out t' ∧ view t = view t' := by
  have hsame : ∀ {s s'}, view s = view s' → (step s).map view = (step s').map view := by
    intro s s' hs
    have h := hview s
    rw [hs] at h
    exact h.symm.trans (hview s')
  induction h generalizing s' with
  | refl s => exact ⟨s', Emits.refl s', hs⟩
  | silent hact _ ih =>
      have hstep := hsame hs
      rw [hact] at hstep
      cases hact' : step s' with
      | silent next =>
          rw [hact'] at hstep
          obtain ⟨t', hrun, ht⟩ := ih (Action.silent.inj hstep)
          exact ⟨t', Emits.silent hact' hrun, ht⟩
      | emit ch next => rw [hact'] at hstep; exact absurd hstep (by simp [Action.map])
      | stop => rw [hact'] at hstep; exact absurd hstep (by simp [Action.map])
      | fault => rw [hact'] at hstep; exact absurd hstep (by simp [Action.map])
  | emit hact _ ih =>
      have hstep := hsame hs
      rw [hact] at hstep
      cases hact' : step s' with
      | silent next => rw [hact'] at hstep; exact absurd hstep (by simp [Action.map])
      | emit ch next =>
          rw [hact'] at hstep
          obtain ⟨rfl, hnext⟩ := Action.emit.inj hstep
          obtain ⟨t', hrun, ht⟩ := ih hnext
          exact ⟨t', Emits.emit hact' hrun, ht⟩
      | stop => rw [hact'] at hstep; exact absurd hstep (by simp [Action.map])
      | fault => rw [hact'] at hstep; exact absurd hstep (by simp [Action.map])

theorem Stops.of_view {s s' : σ} {out : List UInt8} (hs : view s = view s')
    (h : Stops step s out) : Stops step s' out := by
  obtain ⟨t, hrun, hstop⟩ := h
  obtain ⟨t', hrun', ht⟩ := hrun.of_view hview hs
  refine ⟨t', hrun', ?_⟩
  have hstep : (step t).map view = (step t').map view := by
    have h := hview t
    rw [ht] at h
    exact h.symm.trans (hview t')
  rw [hstop] at hstep
  cases hact : step t' with
  | stop => rfl
  | silent next => rw [hact] at hstep; exact absurd hstep (by simp [Action.map])
  | emit ch next => rw [hact] at hstep; exact absurd hstep (by simp [Action.map])
  | fault => rw [hact] at hstep; exact absurd hstep (by simp [Action.map])

theorem FirstBytes.of_view {s s' : σ} {n : Nat} {out : List UInt8} (hs : view s = view s')
    (h : FirstBytes step s n out) : FirstBytes step s' n out := by
  cases h with
  | inl h =>
      obtain ⟨hlen, t, hrun⟩ := h
      obtain ⟨t', hrun', -⟩ := hrun.of_view hview hs
      exact Or.inl ⟨hlen, t', hrun'⟩
  | inr h => exact Or.inr ⟨h.1, h.2.of_view hview hs⟩

end

/-- The first bytes behind a run that emits some. -/
theorem Emits.firstBytes {s t : σ} {out out' : List UInt8} {n : Nat} (h : Emits step s out t)
    (h' : FirstBytes step t n out') : FirstBytes step s (out.length + n) (out ++ out') := by
  cases h' with
  | inl h' =>
      obtain ⟨hlen, u, hrun⟩ := h'
      exact Or.inl ⟨by rw [List.length_append, hlen], u, h.trans hrun⟩
  | inr h' =>
      obtain ⟨hlen, u, hrun, hstop⟩ := h'
      exact Or.inr ⟨by rw [List.length_append]; omega, u, h.trans hrun, hstop⟩

/-! ## The bounded run -/

structure Buffer where
  str : Nat → UInt8
  pos : Nat

namespace Buffer

/-- `str[pos++] = ch` -/
def put (b : Buffer) (ch : UInt8) : Buffer := ⟨Function.update b.str b.pos ch, b.pos + 1⟩

def putAll (b : Buffer) (out : List UInt8) : Buffer := out.foldl put b

theorem putAll_pos (b : Buffer) (out : List UInt8) : (b.putAll out).pos = b.pos + out.length := by
  induction out generalizing b with
  | nil => rfl
  | cons ch out ih =>
      rw [List.length_cons]
      exact (ih (b.put ch)).trans (by simp only [put]; omega)

/-- Bytes outside the part that is filled stay as they were. -/
theorem putAll_outside (b : Buffer) (out : List UInt8) {i : Nat}
    (h : i < b.pos ∨ b.pos + out.length ≤ i) : (b.putAll out).str i = b.str i := by
  induction out generalizing b with
  | nil => rfl
  | cons ch out ih =>
      rw [List.length_cons] at h
      have hne : i ≠ b.pos := by omega
      refine (ih (b.put ch) ?_).trans (Function.update_of_ne hne _ _)
      simp only [put]
      omega

theorem putAll_inside (b : Buffer) (out : List UInt8) {i : Nat} (h : i < out.length) :
    (b.putAll out).str (b.pos + i) = out[i] := by
  induction out generalizing b i with
  | nil => exact absurd h (Nat.not_lt_zero i)
  | cons ch out ih =>
      cases i with
      | zero =>
          have hfirst : ((b.put ch).putAll out).str b.pos = (b.put ch).str b.pos :=
            putAll_outside (b.put ch) out (Or.inl (Nat.lt_succ_self b.pos))
          exact hfirst.trans (Function.update_self _ _ _)
      | succ i =>
          have hnext := ih (b.put ch) (Nat.lt_of_succ_lt_succ h)
          rw [show (b.put ch).pos + i = b.pos + (i + 1) by simp only [put]; omega] at hnext
          exact hnext

end Buffer

/-- How a bounded run ends. -/
inductive Outcome where
  | full (b : Buffer)
  | stopped (b : Buffer)
  | faulted

/-- Run into a buffer until it holds `size` bytes; nothing when the fuel is spent. -/
def fill (step : σ → Action σ) (size : Nat) : Nat → σ → Buffer → Option Outcome
  | 0, _, _ => none
  | fuel + 1, s, b =>
      match step s with
      | .silent s' => fill step size fuel s' b
      | .emit ch s' =>
          if (b.put ch).pos = size then some (.full (b.put ch)) else fill step size fuel s' (b.put ch)
      | .stop => some (.stopped b)
      | .fault => some .faulted

variable {size : Nat}

/-- As long as there is room the buffer receives what the unbounded run emits. -/
theorem Emits.fill_room {s t : σ} {out : List UInt8} (h : Emits step s out t) {b : Buffer}
    (hroom : b.pos + out.length < size) :
    ∃ k, ∀ fuel, fill step size (fuel + k) s b = fill step size fuel t (b.putAll out) := by
  induction h generalizing b with
  | refl s => exact ⟨0, fun fuel => rfl⟩
  | silent hs _ ih =>
      obtain ⟨k, hk⟩ := ih hroom
      refine ⟨k + 1, fun fuel => ?_⟩
      rw [← Nat.add_assoc, fill, hs]
      exact hk fuel
  | @emit s s' t ch out hs _ ih =>
      rw [List.length_cons] at hroom
      have hpos : (b.put ch).pos = b.pos + 1 := rfl
      obtain ⟨k, hk⟩ := @ih (b.put ch) (by omega)
      refine ⟨k + 1, fun fuel => ?_⟩
      rw [← Nat.add_assoc, fill, hs]
      show (if (b.put ch).pos = size then _ else _) = _
      rw [if_neg (by omega)]
      exact hk fuel

/-- The byte that leaves no room ends the run. -/
theorem Emits.fill_full {s t : σ} {out : List UInt8} (h : Emits step s out t) {b : Buffer}
    (hlt : b.pos < size) (hfull : b.pos + out.length = size) :
    ∃ k, fill step size k s b = some (.full (b.putAll out)) := by
  induction h generalizing b with
  | refl s =>
      rw [List.length_nil] at hfull
      omega
  | silent hs _ ih =>
      obtain ⟨k, hk⟩ := ih hlt hfull
      refine ⟨k + 1, ?_⟩
      rw [fill, hs]
      exact hk
  | @emit s s' t ch out hs _ ih =>
      rw [List.length_cons] at hfull
      have hpos : (b.put ch).pos = b.pos + 1 := rfl
      by_cases hlast : (b.put ch).pos = size
      · refine ⟨1, ?_⟩
        obtain rfl : out = [] := List.eq_nil_of_length_eq_zero (by omega)
        rw [fill, hs]
        exact if_pos hlast
      · obtain ⟨k, hk⟩ := @ih (b.put ch) (by omega) (by omega)
        refine ⟨k + 1, ?_⟩
        rw [fill, hs]
        exact (if_neg hlast).trans hk

theorem Stops.fill_stopped {s : σ} {out : List UInt8} (h : Stops step s out) {b : Buffer}
    (hroom : b.pos + out.length < size) :
    ∃ k, fill step size k s b = some (.stopped (b.putAll out)) := by
  obtain ⟨t, ht, hstop⟩ := h
  obtain ⟨k, hk⟩ := ht.fill_room hroom
  refine ⟨1 + k, (hk 1).trans ?_⟩
  rw [fill, hstop]

/-- What an ended run returns does not depend on the fuel. -/
theorem fill_mono {fuel fuel' : Nat} (hle : fuel ≤ fuel') {s : σ} {b : Buffer} {o : Outcome}
    (h : fill step size fuel s b = some o) : fill step size fuel' s b = some o := by
  induction fuel generalizing fuel' s b with
  | zero => simp [fill] at h
  | succ fuel ih =>
      obtain ⟨k, rfl⟩ : ∃ k, fuel' = k + 1 := ⟨fuel' - 1, by omega⟩
      rw [fill] at h ⊢
      cases hs : step s with
      | silent s' =>
          simp only [hs] at h
          exact ih (by omega) h
      | emit ch s' =>
          simp only [hs] at h
          show (if (b.put ch).pos = size then _ else _) = _
          by_cases hfull : (b.put ch).pos = size
          · rw [if_pos hfull] at h ⊢
            exact h
          · rw [if_neg hfull] at h ⊢
            exact ih (by omega) h
      | stop =>
          simp only [hs] at h
          exact h
      | fault =>
          simp only [hs] at h
          exact h

/-- There is one way for a run to end. -/
theorem fill_unique {fuel fuel' : Nat} {s : σ} {b : Buffer} {o o' : Outcome}
    (h : fill step size fuel s b = some o) (h' : fill step size fuel' s b = some o') : o = o' := by
  have h₁ := fill_mono (Nat.le_max_left fuel fuel') h
  have h₂ := fill_mono (Nat.le_max_right fuel fuel') h'
  exact Option.some.inj (h₁.symm.trans h₂)

/-- A run that comes to a fault before the buffer is full. -/
theorem Emits.fill_faulted {s t : σ} {out : List UInt8} (h : Emits step s out t)
    (hfault : step t = .fault) {b : Buffer} (hroom : b.pos + out.length < size) :
    ∃ k, fill step size k s b = some .faulted := by
  obtain ⟨k, hk⟩ := h.fill_room hroom
  refine ⟨1 + k, (hk 1).trans ?_⟩
  rw [fill, hfault]

end Support
