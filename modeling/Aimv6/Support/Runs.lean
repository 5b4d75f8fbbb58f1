import Mathlib.Data.List.Induction

/-! # Runs of a partial step function

A system is a step function that gives no successor where the event is not
allowed or the call it stands for does not return. A run performs a list of
events; what every step preserves holds along the whole run, and may speak of
the states that the run has passed.
-/

namespace Support

variable {σ ε : Type*} {step : σ → ε → Option σ}

/-- Perform the events one after another. -/
def run (step : σ → ε → Option σ) : σ → List ε → Option σ
  | s, [] => some s
  | s, e :: es => (step s e).bind fun s' => run step s' es

@[simp] theorem run_nil (s : σ) : run step s [] = some s := rfl

theorem run_cons {s t : σ} {e : ε} {es : List ε} :
    run step s (e :: es) = some t ↔ ∃ s', step s e = some s' ∧ run step s' es = some t := by
  simp [run, Option.bind_eq_some_iff]

theorem run_append {s t : σ} {es es' : List ε} :
    run step s (es ++ es') = some t ↔ ∃ s', run step s es = some s' ∧ run step s' es' = some t := by
  induction es generalizing s with
  | nil => simp
  | cons e es ih =>
      simp only [List.cons_append, run_cons, ih]
      constructor
      · rintro ⟨s₁, hs, s₂, h₁, h₂⟩
        exact ⟨s₂, ⟨s₁, hs, h₁⟩, h₂⟩
      · rintro ⟨s₂, ⟨s₁, hs, h₁⟩, h₂⟩
        exact ⟨s₁, hs, s₂, h₁, h₂⟩

theorem run_concat {s t : σ} {e : ε} {es : List ε} :
    run step s (es ++ [e]) = some t ↔ ∃ s', run step s es = some s' ∧ step s' e = some t := by
  simp [run_append, run]

/-- What every step preserves holds at the end of every run. -/
theorem run_invariant {Inv : σ → Prop}
    (hstep : ∀ s e s', Inv s → step s e = some s' → Inv s') {s t : σ} {es : List ε}
    (hs : Inv s) (h : run step s es = some t) : Inv t := by
  induction es generalizing s with
  | nil =>
      obtain rfl : s = t := Option.some.inj h
      exact hs
  | cons e es ih =>
      obtain ⟨s', he, hrest⟩ := run_cons.1 h
      exact ih (hstep s e s' hs he) hrest

/-- The events of a run may meet a condition that the invariant needs. -/
theorem run_invariant_of {Inv : σ → Prop} {P : ε → Prop}
    (hstep : ∀ s e s', P e → Inv s → step s e = some s' → Inv s') {s t : σ} {es : List ε}
    (hP : ∀ e ∈ es, P e) (hs : Inv s) (h : run step s es = some t) : Inv t := by
  induction es generalizing s with
  | nil =>
      obtain rfl : s = t := Option.some.inj h
      exact hs
  | cons e es ih =>
      obtain ⟨s', he, hrest⟩ := run_cons.1 h
      exact ih (fun e' he' => hP e' (by simp [he'])) (hstep s e s' (hP e (by simp)) hs he) hrest

/-- Where the system takes a step, the model that `abs` sees takes the same step. -/
theorem run_refines {τ : Type*} {abs : σ → τ} {absStep : τ → ε → τ} {Inv : σ → Prop}
    (hstep : ∀ s e s', Inv s → step s e = some s' → Inv s' ∧ abs s' = absStep (abs s) e) {s t : σ}
    {es : List ε} (hs : Inv s) (h : run step s es = some t) :
    Inv t ∧ abs t = es.foldl absStep (abs s) := by
  induction es generalizing s with
  | nil =>
      obtain rfl : s = t := Option.some.inj h
      exact ⟨hs, rfl⟩
  | cons e es ih =>
      obtain ⟨s', he, hrest⟩ := run_cons.1 h
      obtain ⟨hinv, habs⟩ := hstep s e s' hs he
      rw [List.foldl_cons, ← habs]
      exact ih hinv hrest

/-- A run along `es` passes a state with `P`. -/
def Passes (step : σ → ε → Option σ) (s : σ) (es : List ε) (P : σ → Prop) : Prop :=
  ∃ es₁ t, es₁ <+: es ∧ run step s es₁ = some t ∧ P t

theorem Passes.of_run {P : σ → Prop} {s t : σ} {es : List ε} (h : run step s es = some t) (ht : P t) :
    Passes step s es P :=
  ⟨es, t, List.prefix_refl es, h, ht⟩

theorem Passes.append {P : σ → Prop} {s : σ} {es : List ε} (h : Passes step s es P) (es' : List ε) :
    Passes step s (es ++ es') P := by
  obtain ⟨es₁, t, hprefix, hrun, ht⟩ := h
  exact ⟨es₁, t, hprefix.trans (List.prefix_append es es'), hrun, ht⟩

/-- Where an event's condition is exactly what its step needs to keep the invariant, the invariant
holds all along a run exactly if every event meets its condition. -/
theorem run_invariant_iff {Inv : σ → Prop} {P : σ → ε → Prop}
    (hstep : ∀ s e s', Inv s → step s e = some s' → (Inv s' ↔ P s e)) {s t : σ} {es : List ε}
    (hs : Inv s) (h : run step s es = some t) :
    (∀ es₁ s₁, es₁ <+: es → run step s es₁ = some s₁ → Inv s₁) ↔
      ∀ es₁ e s₁, es₁ ++ [e] <+: es → run step s es₁ = some s₁ → P s₁ e := by
  constructor
  · intro hall es₁ e s₁ hpre hrun
    obtain ⟨es₂, rfl⟩ := hpre
    obtain ⟨s₂, hrun₂, -⟩ := run_append.1 h
    obtain ⟨s₁', hrun₁, he⟩ := run_concat.1 hrun₂
    obtain rfl : s₁ = s₁' := Option.some.inj (hrun.symm.trans hrun₁)
    have hbefore : Inv s₁ :=
      hall es₁ s₁ ⟨[e] ++ es₂, (List.append_assoc es₁ [e] es₂).symm⟩ hrun
    exact (hstep s₁ e s₂ hbefore he).1 (hall _ s₂ (List.prefix_append _ es₂) hrun₂)
  · intro hall es₁
    induction es₁ using List.reverseRecOn with
    | nil =>
        intro s₁ _ hrun
        obtain rfl : s = s₁ := Option.some.inj hrun
        exact hs
    | append_singleton es₁ e ih =>
        intro s₂ hpre hrun
        obtain ⟨s₁, hrun₁, he⟩ := run_concat.1 hrun
        have hbefore := ih s₁ ((List.prefix_append es₁ [e]).trans hpre) hrun₁
        exact (hstep s₁ e s₂ hbefore he).2 (hall es₁ e s₁ hpre hrun₁)

/-- The invariant of a run may depend on the events so far. -/
theorem run_history {Inv : List ε → σ → Prop} {s t : σ} {es : List ε}
    (hstep : ∀ es t e t', run step s es = some t → Inv es t → step t e = some t' → Inv (es ++ [e]) t')
    (hs : Inv [] s) (h : run step s es = some t) : Inv es t := by
  induction es using List.reverseRecOn generalizing t with
  | nil =>
      obtain rfl : s = t := Option.some.inj h
      exact hs
  | append_singleton es e ih =>
      obtain ⟨s', hrun, he⟩ := run_concat.1 h
      exact hstep es s' e t hrun (ih hrun) he

/-! ## Replies -/

section Replies

variable {τ ε' α : Type*} {call : σ → ε → Option (α × σ)} {call' : τ → ε' → Option (α × τ)}

/-- Perform calls one after another, and what they return. -/
def replies (call : σ → ε → Option (α × σ)) : σ → List ε → Option (List α × σ)
  | s, [] => some ([], s)
  | s, e :: es => (call s e).bind fun r => (replies call r.2 es).map fun p => (r.1 :: p.1, p.2)

theorem replies_cons {s t : σ} {e : ε} {es : List ε} {as : List α}
    (h : replies call s (e :: es) = some (as, t)) :
    ∃ a s' as', call s e = some (a, s') ∧ replies call s' es = some (as', t) ∧ as = a :: as' := by
  obtain ⟨⟨a, s'⟩, hcall, hrest⟩ := Option.bind_eq_some_iff.1 h
  obtain ⟨⟨as', t'⟩, hreplies, heq⟩ := Option.map_eq_some_iff.1 hrest
  obtain ⟨has, rfl⟩ := Prod.mk.inj heq
  exact ⟨a, s', as', hcall, hreplies, has.symm⟩

/-- Calls that are answered alike, one by one, are answered alike in every run. -/
theorem replies_simulate {R : σ → τ → Prop} {P : ε → Prop} {M : ε → ε' → Prop}
    (hcall : ∀ s t e a s', P e → R s t → call s e = some (a, s') →
      ∃ e' t', M e e' ∧ call' t e' = some (a, t') ∧ R s' t')
    {s s' : σ} {t : τ} {es : List ε} {as : List α} (hR : R s t) (hP : ∀ e ∈ es, P e)
    (h : replies call s es = some (as, s')) :
    ∃ es' t', List.Forall₂ M es es' ∧ replies call' t es' = some (as, t') ∧ R s' t' := by
  induction es generalizing s t as with
  | nil =>
      obtain ⟨rfl, rfl⟩ := Prod.mk.inj (Option.some.inj h)
      exact ⟨[], t, .nil, rfl, hR⟩
  | cons e es ih =>
      obtain ⟨a, s₁, as', hfirst, hrest, rfl⟩ := replies_cons h
      obtain ⟨e', t₁, hM, hfirst', hR₁⟩ := hcall s t e a s₁ (hP e List.mem_cons_self) hR hfirst
      obtain ⟨es', t', hMs, hrest', hR'⟩ :=
        ih hR₁ (fun e he => hP e (List.mem_cons_of_mem _ he)) hrest
      refine ⟨e' :: es', t', .cons hM hMs, ?_, hR'⟩
      rw [replies, hfirst', Option.bind_some, hrest']
      rfl

end Replies

end Support
