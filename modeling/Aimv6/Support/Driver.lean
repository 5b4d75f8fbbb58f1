import Aimv6.Support.Runs

/-! # Drivers and devices

A driver is a program over the registers of a device; a loop on a register gives
up when its polls are used up. The device answers a read with any value that its
state allows, and moves on its own between the accesses of the driver. A
driver's specification is a condition on the device that holds at every moment
of every run, and one for the state in which the driver returns.
-/

namespace Support

inductive Driver (ρ : Type) (α : Type) where
  | done (a : α)
  | read (r : ρ) (k : Nat → Driver ρ α)
  | write (r : ρ) (v : Nat) (d : Driver ρ α)
  /-- a loop has used up its polls -/
  | waiting

namespace Driver

variable {ρ α β : Type}

def bind : Driver ρ α → (α → Driver ρ β) → Driver ρ β
  | done a, k => k a
  | read r f, k => read r fun v => (f v).bind k
  | write r v d, k => write r v (d.bind k)
  | waiting, _ => waiting

instance : Monad (Driver ρ) where
  pure := done
  bind := bind

@[simp] theorem bind_eq (d : Driver ρ α) (k : α → Driver ρ β) : d >>= k = d.bind k := rfl

@[simp] theorem pure_eq (a : α) : (pure a : Driver ρ α) = done a := rfl

def input (r : ρ) : Driver ρ Nat := read r done

def output (r : ρ) (v : Nat) : Driver ρ Unit := write r v (done ())

/-- Repeat `body` until it gives a value, at most `n` times. -/
def poll (body : Driver ρ (Option α)) : Nat → Driver ρ α
  | 0 => waiting
  | n + 1 => body >>= fun o =>
      match o with
      | some a => done a
      | none => poll body n

end Driver

/-- A device with registers `ρ`, states `μ` and moves of its own `ε`. -/
structure Device (ρ μ ε : Type) where
  /-- whether a read may give this value -/
  answers : μ → ρ → Nat → Bool
  read : μ → ρ → Nat → μ
  write : μ → ρ → Nat → μ
  own : μ → ε → Option μ

/-- The driver performs its next access, and reads `v` if that is a read; or the device moves. -/
inductive Turn (ε : Type) where
  | access (v : Nat)
  | own (e : ε)

namespace Device

variable {ρ μ ε α β : Type} {D : Device ρ μ ε}

/-- One step of driver and device. -/
def step (D : Device ρ μ ε) : Driver ρ α × μ → Turn ε → Option (Driver ρ α × μ)
  | (.read r k, q), .access v => if D.answers q r v then some (k v, D.read q r v) else none
  | (.write r v d, q), .access _ => some (d, D.write q r v)
  | (d, q), .own e => (D.own q e).map fun q' => (d, q')
  | _, .access _ => none

/-- The device comes from `q` to `q'` on its own. -/
def Drifts (D : Device ρ μ ε) (q q' : μ) : Prop := ∃ es, run D.own q es = some q'

theorem Drifts.refl (q : μ) : D.Drifts q q := ⟨[], rfl⟩

theorem Drifts.trans {q q₁ q₂ : μ} (h : D.Drifts q q₁) (h' : D.Drifts q₁ q₂) : D.Drifts q q₂ := by
  obtain ⟨es, hes⟩ := h
  obtain ⟨es', hes'⟩ := h'
  exact ⟨es ++ es', run_append.2 ⟨q₁, hes, hes'⟩⟩

theorem Drifts.own {q q' : μ} {e : ε} (h : D.own q e = some q') : D.Drifts q q' :=
  ⟨[e], run_cons.2 ⟨q', h, rfl⟩⟩

theorem Drifts.invariant {P : μ → Prop} (hown : ∀ q e q', P q → D.own q e = some q' → P q')
    {q q' : μ} (h : D.Drifts q q') (hq : P q) : P q' := by
  obtain ⟨es, hes⟩ := h
  exact run_invariant hown hq hes

end Device

namespace Driver

variable {ρ μ ε α β : Type} {D : Device ρ μ ε} {I : μ → Prop} {Q Q' : α → μ → Prop}
  {d d' : Driver ρ α} {q q' : μ}

/-- From state `q` on the device meets `I`, and `Q` once the driver has returned, whatever is
read and whenever the device moves. -/
def Holds (D : Device ρ μ ε) (I : μ → Prop) (Q : α → μ → Prop) : Driver ρ α → μ → Prop
  | done a, q => ∀ q', D.Drifts q q' → I q' ∧ Q a q'
  | read r k, q => ∀ q', D.Drifts q q' → I q' ∧
      ∀ v, D.answers q' r v = true → (k v).Holds D I Q (D.read q' r v)
  | write r v d, q => ∀ q', D.Drifts q q' → I q' ∧ d.Holds D I Q (D.write q' r v)
  | waiting, q => ∀ q', D.Drifts q q' → I q'

theorem Holds.safe (h : d.Holds D I Q q) : ∀ q', D.Drifts q q' → I q' := by
  cases d with
  | done a => exact fun q' hq => (h q' hq).1
  | read r k => exact fun q' hq => (h q' hq).1
  | write r v d => exact fun q' hq => (h q' hq).1
  | waiting => exact h

theorem Holds.drift (h : d.Holds D I Q q) (hq : D.Drifts q q') : d.Holds D I Q q' := by
  cases d with
  | done a => exact fun q₁ h₁ => h q₁ (hq.trans h₁)
  | read r k => exact fun q₁ h₁ => h q₁ (hq.trans h₁)
  | write r v d => exact fun q₁ h₁ => h q₁ (hq.trans h₁)
  | waiting => exact fun q₁ h₁ => h q₁ (hq.trans h₁)

theorem Holds.weaken {J : μ → Prop} (h : d.Holds D I Q q) (hI : ∀ q, I q → J q)
    (hQ : ∀ a q, Q a q → Q' a q) : d.Holds D J Q' q := by
  induction d generalizing q with
  | done a => exact fun q₁ h₁ => ⟨hI q₁ (h q₁ h₁).1, hQ a q₁ (h q₁ h₁).2⟩
  | read r k ih => exact fun q₁ h₁ => ⟨hI q₁ (h q₁ h₁).1, fun v hv => ih v ((h q₁ h₁).2 v hv)⟩
  | write r v d ih => exact fun q₁ h₁ => ⟨hI q₁ (h q₁ h₁).1, ih (h q₁ h₁).2⟩
  | waiting => exact fun q₁ h₁ => hI q₁ (h q₁ h₁)

theorem Holds.mono (h : d.Holds D I Q q) (hQ : ∀ a q, Q a q → Q' a q) : d.Holds D I Q' q :=
  h.weaken (fun _ hq => hq) hQ

theorem holds_bind {k : α → Driver ρ β} {R : β → μ → Prop}
    (h : d.Holds D I (fun a q => (k a).Holds D I R q) q) : (d >>= k).Holds D I R q := by
  induction d generalizing q with
  | done a => exact (h q (.refl q)).2
  | read r f ih => exact fun q₁ h₁ => ⟨(h q₁ h₁).1, fun v hv => ih v ((h q₁ h₁).2 v hv)⟩
  | write r v d ih => exact fun q₁ h₁ => ⟨(h q₁ h₁).1, ih (h q₁ h₁).2⟩
  | waiting => exact h

theorem holds_input {r : ρ} {k : Nat → Driver ρ α} (h : ∀ q', D.Drifts q q' → I q' ∧
    ∀ v, D.answers q' r v = true → (k v).Holds D I Q (D.read q' r v)) :
    (input r >>= k).Holds D I Q q := h

theorem holds_output {r : ρ} {v : Nat} {k : Unit → Driver ρ α} (h : ∀ q', D.Drifts q q' → I q' ∧
    (k ()).Holds D I Q (D.write q' r v)) : (output r v >>= k).Holds D I Q q := h

theorem holds_done {a : α} (h : ∀ q', D.Drifts q q' → I q' ∧ Q a q') :
    (done a).Holds D I Q q := h

/-- What holds where the driver returns holds as long as the device is left alone. -/
theorem Holds.settle (h : d.Holds D I Q q) :
    d.Holds D I (fun a q => (done a).Holds D I Q q) q := by
  induction d generalizing q with
  | done a => exact fun q₁ h₁ => ⟨(h q₁ h₁).1, fun q₂ h₂ => h q₂ (h₁.trans h₂)⟩
  | read r k ih => exact fun q₁ h₁ => ⟨(h q₁ h₁).1, fun v hv => ih v ((h q₁ h₁).2 v hv)⟩
  | write r v d ih => exact fun q₁ h₁ => ⟨(h q₁ h₁).1, ih (h q₁ h₁).2⟩
  | waiting => exact h

theorem holds_poll {body : Driver ρ (Option α)} {P : μ → Prop}
    (hbody : ∀ q, P q → body.Holds D I (fun o q' => o.elim (P q') fun a => Q a q') q) (n : Nat)
    (hq : P q) : (poll body n).Holds D I Q q := by
  induction n generalizing q with
  | zero => exact (hbody q hq).safe
  | succ n ih =>
      refine holds_bind ((hbody q hq).settle.mono fun o q' ho => ?_)
      cases o with
      | some a => exact ho
      | none => exact ih (ho q' (.refl q')).2

/-! ## What a driver keeps -/

/-- The driver leaves `R` where it finds it. -/
def Keeps (D : Device ρ μ ε) (I R : μ → Prop) (d : Driver ρ α) : Prop :=
  ∀ q, R q → d.Holds D I (fun _ => R) q

section Keeps

variable {R : μ → Prop}

theorem Keeps.bind {d : Driver ρ α} {k : α → Driver ρ β} (hd : d.Keeps D I R)
    (hk : ∀ a, (k a).Keeps D I R) : (d >>= k).Keeps D I R :=
  fun q hq => holds_bind ((hd q hq).mono fun a q' hq' => hk a q' hq')

theorem Keeps.ite {c : Prop} [Decidable c] {d d' : Driver ρ α} (h : d.Keeps D I R)
    (h' : d'.Keeps D I R) : (if c then d else d').Keeps D I R := by
  split
  · exact h
  · exact h'

theorem Keeps.poll {body : Driver ρ (Option α)} (h : body.Keeps D I R) (n : Nat) :
    (poll body n).Keeps D I R :=
  fun q hq => holds_poll (fun q₁ h₁ => (h q₁ h₁).mono fun o q₂ h₂ => by cases o <;> exact h₂) n hq

end Keeps

/-! ## Stable conditions -/

section Stable

variable {P : μ → Prop}

theorem stable_input (hown : ∀ q e q', P q → D.own q e = some q' → P q') (hI : ∀ q, P q → I q)
    (hq : P q) {r : ρ} {k : Nat → Driver ρ α}
    (h : ∀ q', P q' → ∀ v, D.answers q' r v = true → (k v).Holds D I Q (D.read q' r v)) :
    (input r >>= k).Holds D I Q q :=
  fun q' hd => ⟨hI q' (hd.invariant hown hq), h q' (hd.invariant hown hq)⟩

theorem stable_output (hown : ∀ q e q', P q → D.own q e = some q' → P q') (hI : ∀ q, P q → I q)
    (hq : P q) {r : ρ} {v : Nat} {k : Unit → Driver ρ α}
    (h : ∀ q', P q' → (k ()).Holds D I Q (D.write q' r v)) : (output r v >>= k).Holds D I Q q :=
  fun q' hd => ⟨hI q' (hd.invariant hown hq), h q' (hd.invariant hown hq)⟩

theorem stable_done (hown : ∀ q e q', P q → D.own q e = some q' → P q') (hI : ∀ q, P q → I q)
    (hq : P q) {a : α} (hQ : ∀ q', P q' → Q a q') : (done a).Holds D I Q q :=
  fun q' hd => ⟨hI q' (hd.invariant hown hq), hQ q' (hd.invariant hown hq)⟩

theorem stable_waiting (hown : ∀ q e q', P q → D.own q e = some q' → P q') (hI : ∀ q, P q → I q)
    (hq : P q) : (waiting : Driver ρ α).Holds D I Q q :=
  fun q' hd => hI q' (hd.invariant hown hq)

end Stable

/-! ## Devices at rest -/

section Still

theorem drifts_still (hstill : ∀ e, D.own q e = none) (h : D.Drifts q q') : q' = q := by
  obtain ⟨es, hes⟩ := h
  cases es with
  | nil => exact (Option.some.inj hes).symm
  | cons e es =>
      obtain ⟨q₁, he, -⟩ := run_cons.1 hes
      rw [hstill e] at he
      simp at he

theorem still_input (hstill : ∀ e, D.own q e = none) {r : ρ} {k : Nat → Driver ρ α} (hq : I q)
    (h : ∀ v, D.answers q r v = true → (k v).Holds D I Q (D.read q r v)) :
    (input r >>= k).Holds D I Q q := by
  intro q' hd
  obtain rfl := drifts_still hstill hd
  exact ⟨hq, h⟩

theorem still_output (hstill : ∀ e, D.own q e = none) {r : ρ} {v : Nat} {k : Unit → Driver ρ α}
    (hq : I q) (h : (k ()).Holds D I Q (D.write q r v)) : (output r v >>= k).Holds D I Q q := by
  intro q' hd
  obtain rfl := drifts_still hstill hd
  exact ⟨hq, h⟩

theorem still_done (hstill : ∀ e, D.own q e = none) {a : α} (hq : I q) (ha : Q a q) :
    (done a).Holds D I Q q := by
  intro q' hd
  obtain rfl := drifts_still hstill hd
  exact ⟨hq, ha⟩

theorem still_waiting (hstill : ∀ e, D.own q e = none) (hq : I q) :
    (waiting : Driver ρ α).Holds D I Q q := by
  intro q' hd
  obtain rfl := drifts_still hstill hd
  exact hq

end Still

/-! ## Monitors -/

section Monitor

variable {D : Device ρ μ Empty}

theorem monitor_input {r : ρ} {k : Nat → Driver ρ α} (hq : I q)
    (h : ∀ v, D.answers q r v = true → (k v).Holds D I Q (D.read q r v)) :
    (input r >>= k).Holds D I Q q :=
  still_input (fun e => e.elim) hq h

theorem monitor_output {r : ρ} {v : Nat} {k : Unit → Driver ρ α} (hq : I q)
    (h : (k ()).Holds D I Q (D.write q r v)) : (output r v >>= k).Holds D I Q q :=
  still_output (fun e => e.elim) hq h

theorem monitor_done {a : α} (hq : I q) (ha : Q a q) : (done a).Holds D I Q q :=
  still_done (fun e => e.elim) hq ha

theorem monitor_waiting (hq : I q) : (waiting : Driver ρ α).Holds D I Q q :=
  still_waiting (fun e => e.elim) hq

end Monitor

/-! ## Runs -/

theorem Holds.step {e : Turn ε} (h : d.Holds D I Q q) (hstep : D.step (d, q) e = some (d', q')) :
    d'.Holds D I Q q' := by
  cases e with
  | own e =>
      have hown : (D.own q e).map (fun q' => (d, q')) = some (d', q') := by
        cases d <;> exact hstep
      obtain ⟨q₁, hq₁, heq⟩ := Option.map_eq_some_iff.1 hown
      obtain ⟨rfl, rfl⟩ := Prod.mk.inj heq
      exact h.drift (.own hq₁)
  | access v =>
      cases d with
      | done a => cases hstep
      | waiting => cases hstep
      | read r k =>
          unfold Device.step at hstep
          dsimp only at hstep
          split at hstep
          case isFalse => simp at hstep
          case isTrue hv =>
            obtain ⟨rfl, rfl⟩ := Prod.mk.inj (Option.some.inj hstep)
            exact (h q (.refl q)).2 v hv
      | write r w d =>
          obtain ⟨rfl, rfl⟩ := Prod.mk.inj (Option.some.inj hstep)
          exact (h q (.refl q)).2

/-- What holds along every run of a driver that meets its specification. -/
theorem Holds.run {es : List (Turn ε)} (h : d.Holds D I Q q)
    (hrun : run D.step (d, q) es = some (d', q')) :
    I q' ∧ ∀ a, d' = done a → Q a q' := by
  have hall : d'.Holds D I Q q' :=
    @run_invariant _ _ D.step (fun p => p.1.Holds D I Q p.2) (fun _ _ _ hp hstep => hp.step hstep) _ _ _
      h hrun
  refine ⟨hall.safe q' (.refl q'), fun a ha => ?_⟩
  subst ha
  exact (hall q' (.refl q')).2

/-- What a driver that has returned gives. -/
def result : Driver ρ α → Option α
  | done a => some a
  | _ => none

theorem result_eq_some {a : α} (h : d.result = some a) : d = done a := by
  cases d with
  | done b => exact congrArg done (Option.some.inj h)
  | read r k => simp [result] at h
  | write r v d => simp [result] at h
  | waiting => simp [result] at h

theorem run_result (D : Device ρ μ ε) (p : Driver ρ α × μ) (es : List (Turn ε)) {a : α}
    (h : (Support.run D.step p es).bind (fun p' => p'.1.result) = some a) :
    ∃ q', Support.run D.step p es = some (done a, q') := by
  obtain ⟨p', hrun, hp'⟩ := Option.bind_eq_some_iff.1 h
  refine ⟨p'.2, hrun.trans ?_⟩
  rw [← result_eq_some hp']

end Driver

end Support
