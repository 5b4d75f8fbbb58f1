import Aimv6.Drivers.SdTransfers

/-! # Sequences of transfers

A sequence of transfers leaves what the same transfers leave that are done at a
stroke, each one as far as it came; one that returns 0 came to its end. At every
moment on the way that is so for the transfers begun.
-/

namespace Aimv6.Drivers

open Support

/-- The three transfers of the drivers. -/
inductive SdTransfer where
  | read (pa count offset : Nat)
  | write (pa count offset : Nat)
  | load (walk : Nat → Nat) (va count offset : Nat)

namespace SdTransfer

def driver (polls : Nat) : SdTransfer → Driver SdReg Int
  | read pa count offset => sdDmaSpinRead polls pa count offset
  | write pa count offset => sdDmaSpinWrite polls pa count offset
  | load walk va count offset => sdDmaSpinLoad polls walk va count offset

/-- The transfer on a card whose arguments count `u` bytes. -/
def job (u : Nat) : SdTransfer → SdJob
  | read pa count offset => ⟨true, offset * u, 512 * count, pa, 0, fun va next => (va, next)⟩
  | write pa count offset => ⟨false, offset * u, 512 * count, pa, 0, fun va next => (va, next)⟩
  | load walk va count offset => ⟨true, offset * u, 512 * count, walk va, va, fun va next =>
      if next % 4096 = 0 then (va + 0x1000, walk (va + 0x1000)) else (va, next)⟩

end SdTransfer

def sdTransfers (polls : Nat) : List SdTransfer → Driver SdReg (List Int)
  | [] => pure []
  | k :: ks => do
      let ret ← k.driver polls
      let rets ← sdTransfers polls ks
      pure (ret :: rets)

/-- The transfers lead from `s` to `s'`: each one moves some of its bytes, and all of them if it
returns 0. -/
inductive Served (u : Nat) : List SdTransfer → List Int → Memory × Memory → Memory × Memory → Prop where
  | nil (s : Memory × Memory) : Served u [] [] s s
  | cons {k : SdTransfer} {ks : List SdTransfer} {ret : Int} {rets : List Int}
      {s s' : Memory × Memory} {n : Nat} (hn : n ≤ (k.job u).total) (hnonpos : ret ≤ 0)
      (hall : ret = 0 → n = (k.job u).total) (h : Served u ks rets ((k.job u).moves s n) s') :
      Served u (k :: ks) (ret :: rets) s s'

variable {u polls : Nat} {q q' : SdController} {ks : List SdTransfer} {rets : List Int}
  {s s' : Memory × Memory}

theorem SdTransfer.begins (k : SdTransfer) : ∃ cmd mode count arg pa va resume,
    (k.job u).Begins u cmd mode count arg ∧ (k.job u).pa = pa ∧ (k.job u).va = va ∧
      (k.job u).resume = resume ∧ k.driver polls = sdTransfer polls cmd mode pa count arg resume va := by
  cases k with
  | read pa count offset =>
      exact ⟨SD_CMD18, 1, count, offset, pa, _, _, ⟨Or.inl (by decide), rfl, rfl, rfl⟩, rfl, rfl, rfl, rfl⟩
  | write pa count offset =>
      exact ⟨SD_CMD25, 2, count, offset, pa, _, _, ⟨Or.inl (by decide), rfl, rfl, rfl⟩, rfl, rfl, rfl, rfl⟩
  | load walk va count offset =>
      exact ⟨SD_CMD18, 1, count, offset, _, va, _, ⟨Or.inl (by decide), rfl, rfl, rfl⟩, rfl, rfl, rfl, rfl⟩

/-- The controller waits for a command, with its block size set. -/
structure SdController.Ready (u : Nat) (q : SdController) : Prop where
  idle : q.phase = .idle
  blkSize : q.blkSize = 512
  unit : q.unit = u

theorem SdTransfer.holds (k : SdTransfer) (h : q.Ready u) :
    (k.driver polls).Holds sdController ((k.job u).Holding q.image u) ((k.job u).Over q.image u) q := by
  obtain ⟨cmd, mode, count, arg, pa, va, resume, hbegins, hpa, hva, hresume, hdriver⟩ :=
    @begins u polls k
  rw [hdriver]
  exact transfer_runs hbegins hpa hva hresume
    ⟨h.idle, h.blkSize, h.unit, 0, Nat.zero_le _, rfl⟩ rfl

def ServedSome (u : Nat) (ks : List SdTransfer) (s : Memory × Memory) (q : SdController) : Prop :=
  ∃ ks₁ rets, ks₁ <+: ks ∧ Served u ks₁ rets s q.image

theorem SdJob.Holding.served {k : SdTransfer} (h : (k.job u).Holding s u q) :
    ServedSome u (k :: ks) s q := by
  obtain ⟨n, hn, himage⟩ := h.partway
  refine ⟨[k], [-3], ⟨ks, rfl⟩, .cons hn (by decide) (fun h => absurd h (by decide)) ?_⟩
  rw [himage]
  exact .nil _

theorem sdTransfers_holds (h : q.Ready u) :
    (sdTransfers polls ks).Holds sdController (ServedSome u ks q.image)
      (fun rets q' => q'.Ready u ∧ Served u ks rets q.image q'.image) q := by
  induction ks generalizing q with
  | nil =>
      exact Driver.still_done (fun _ => SdController.own_idle h.idle)
        ⟨[], [], List.nil_prefix, .nil _⟩ ⟨h, .nil _⟩
  | cons k ks ih =>
      refine Driver.holds_bind (((k.holds h).weaken (fun q₁ h₁ => h₁.served) fun ret q₁ h₁ => h₁).mono
        fun ret q₁ h₁ => ?_)
      have hready : q₁.Ready u := ⟨h₁.idle, h₁.holding.blkSize, h₁.holding.unit⟩
      obtain ⟨n, hn, hall, himage⟩ : ∃ n ≤ (k.job u).total, (ret = 0 → n = (k.job u).total) ∧
          q₁.image = (k.job u).moves q.image n := by
        by_cases hret : ret = 0
        · exact ⟨_, le_rfl, fun _ => rfl, h₁.all hret⟩
        · obtain ⟨n, hn, himage⟩ := h₁.holding.partway
          exact ⟨n, hn, fun h => absurd h hret, himage⟩
      have hcons : ∀ {ks' : List SdTransfer} {rets : List Int} {s' : Memory × Memory},
          Served u ks' rets q₁.image s' → Served u (k :: ks') (ret :: rets) q.image s' := by
        intro ks' rets s' h'
        rw [himage] at h'
        exact .cons hn h₁.nonpos hall h'
      have hsome : ∀ q₂, ServedSome u ks q₁.image q₂ → ServedSome u (k :: ks) q.image q₂ := by
        rintro q₂ ⟨ks₁, rets, hprefix, h₂⟩
        exact ⟨k :: ks₁, ret :: rets, (List.prefix_cons_inj k).2 hprefix, hcons h₂⟩
      refine Driver.holds_bind (((ih hready).weaken hsome fun rets q₂ h₂ => h₂).mono
        fun rets q₂ h₂ => ?_)
      have hserved := hcons h₂.2
      exact Driver.still_done (fun _ => SdController.own_idle h₂.1.idle)
        ⟨k :: ks, ret :: rets, List.prefix_rfl, hserved⟩ ⟨h₂.1, hserved⟩

/-- Whatever the controller does between the accesses, at every moment memory and the card are as
transfers leave them that are done one at a time, the last of them perhaps in part; and when the
sequence has returned, as all of them leave them. -/
theorem transfers_served (hq : q.Ready u) {es : List (Turn SdMove)} {d' : Driver SdReg (List Int)}
    (hrun : run sdController.step (sdTransfers polls ks, q) es = some (d', q')) :
    ServedSome u ks q.image q' ∧
      ∀ rets, d' = .done rets → q'.Ready u ∧ Served u ks rets q.image q'.image :=
  (sdTransfers_holds hq).run hrun

/-- A read that an error ends behind its second byte. -/
theorem transfers_served_sample : ∃ q' : SdController,
    run sdController.step (sdTransfers 2 [.read 0x2000 1 7],
      SdController.fresh (fun _ => 0) fun a => UInt8.ofNat a)
      (SdController.turns 2 ++ [.own .fail, .access SD_INTR_ERR, .access 0]) =
      some (.done [-3], q') ∧ q'.Ready 512 ∧
    Served 512 [.read 0x2000 1 7] [-3] (fun _ => 0, fun a => UInt8.ofNat a) q'.image := by
  obtain ⟨q', hrun⟩ := Driver.run_result sdController
    (sdTransfers 2 [.read 0x2000 1 7], SdController.fresh (fun _ => 0) fun a => UInt8.ofNat a)
    (SdController.turns 2 ++ [.own .fail, .access SD_INTR_ERR, .access 0]) (a := [-3])
    (by decide +kernel)
  exact ⟨q', hrun, (transfers_served ⟨rfl, rfl, rfl⟩ hrun).2 _ rfl⟩

end Aimv6.Drivers
