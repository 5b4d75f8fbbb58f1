import Aimv6.Drivers.SdController

/-! # Transfers and the controller

What the two transfers and the load leave in memory and on the card, in every
run with the controller.
-/

namespace Aimv6.Drivers

open Support

variable {j : SdJob} {s : Memory × Memory} {q q' : SdController} {u n va polls v : Nat}

namespace SdJob

structure Holding (j : SdJob) (s : Memory × Memory) (u : Nat) (q : SdController) : Prop where
  blkSize : q.blkSize = 512
  unit : q.unit = u
  partway : j.Partway s q

structure AtRest (j : SdJob) (s : Memory × Memory) (u : Nat) (q : SdController) : Prop where
  idle : q.phase = .idle
  holding : j.Holding s u q

structure Over (j : SdJob) (s : Memory × Memory) (u : Nat) (ret : Int) (q : SdController) : Prop
    extends j.AtRest s u q where
  nonpos : ret ≤ 0
  all : ret = 0 → q.image = j.moves s j.total

theorem Ended.partway (h : j.Ended s q) : j.Partway s q := by
  rcases h with ⟨-, h⟩ | ⟨-, -, h⟩
  · exact h
  · exact ⟨j.total, le_rfl, h⟩

theorem holding_runs (h : j.Running s u va q) : j.Holding s u q := by
  obtain ⟨hset, hruns⟩ := h
  refine ⟨hset.blkSize, hset.unit, ?_⟩
  cases hruns with
  | ended phase h => exact h.partway
  | moves n phase h => exact ⟨n, h.le, h.image⟩
  | waits n phase h dma => exact ⟨n, h.lt.le, h.image⟩

theorem holding_halted {addr : Nat} {dma : Bool} (h : j.Stopped s u va addr dma q) :
    j.Holding s u q := by
  obtain ⟨hset, hhalted⟩ := h
  refine ⟨hset.blkSize, hset.unit, ?_⟩
  cases hhalted with
  | failed phase addr err h => exact h
  | waits n phase addr h dma => exact ⟨n, h.lt.le, h.image⟩

theorem Runs.failed (h : j.Runs s va q) (herr : q.err = true) : q.phase = .idle := by
  cases h with
  | ended phase h => exact phase
  | moves n phase h => simp [h.err] at herr
  | waits n phase h dma => simp [h.err] at herr

theorem Runs.completed (h : j.Runs s va q) (herr : q.err = false) (htc : q.tc = true) :
    q.phase = .idle ∧ q.image = j.moves s j.total := by
  cases h with
  | ended phase h =>
      rcases h with ⟨h, -⟩ | ⟨-, -, h⟩
      · simp [h] at herr
      · exact ⟨phase, h⟩
  | moves n phase h => simp [h.tc] at htc
  | waits n phase h dma => simp [h.tc] at htc

theorem Runs.halted (h : j.Runs s va q) (herr : q.err = false) (hdma : q.dma = true) :
    j.Halted s va q.sysAddr true q ∧ q.tc = false := by
  cases h with
  | ended phase h =>
      rcases h with ⟨h, -⟩ | ⟨-, h, -⟩
      · simp [h] at herr
      · simp [h] at hdma
  | moves n phase h => simp [h.dma] at hdma
  | waits n phase h dma => exact ⟨.waits n phase rfl h dma, h.tc⟩

end SdJob

/-! ## The loop on a transfer -/

theorem status_bits (hv : sdController.answers q .normIntrSts v = true) :
    (v &&& SD_INTR_CC ≠ 0 ↔ q.cc = true) ∧ (v &&& SD_INTR_DMA ≠ 0 ↔ q.dma = true) ∧
      (v &&& SD_INTR_TC ≠ 0 ↔ q.tc = true) ∧ (v &&& SD_INTR_ERR ≠ 0 ↔ q.err = true) := by
  have h : q.status v = true := hv
  unfold SdController.status at h
  rw [Bool.and_eq_true, Bool.and_eq_true, Bool.and_eq_true, beq_iff_eq, beq_iff_eq, beq_iff_eq,
    beq_iff_eq] at h
  obtain ⟨⟨⟨h₁, h₂⟩, h₃⟩, h₄⟩ := h
  rw [← h₁, ← h₂, ← h₃, ← h₄]
  simp only [bne_iff_ne, ne_eq, and_self]

/-- The driver sends a transfer that has stopped on its way along the route. -/
theorem resume_runs {addr : Nat} (h : j.Stopped s u va addr false q) :
    j.Running s u (j.resume va addr).1 (q.write .sdmaSysAddr (j.resume va addr).2) := by
  obtain ⟨hset, hhalted⟩ := h
  refine ⟨⟨hset.blkSize, hset.unit, hset.total, hset.start, hset.reads⟩, ?_⟩
  unfold SdController.write
  cases hhalted with
  | failed phase haddr err h => exact .ended (by rw [phase]) (Or.inl ⟨err, h⟩)
  | waits n phase haddr h hdma =>
      refine .moves n (by rw [phase]) ⟨h.lt.le, h.image, fun _ => ?_, hdma, h.tc, h.err⟩
      rw [h.route, haddr]

theorem ack_halted {addr : Nat} (h : j.Stopped s u va addr true q) :
    j.Stopped s u va addr false (q.write .normIntrSts SD_INTR_DMA) := by
  obtain ⟨hset, hhalted⟩ := h
  refine ⟨⟨hset.blkSize, hset.unit, hset.total, hset.start, hset.reads⟩, ?_⟩
  cases hhalted with
  | failed phase haddr err h => exact .failed phase haddr err h
  | waits n phase haddr h hdma =>
      have htc : (q.write .normIntrSts SD_INTR_DMA).tc = false := (Bool.and_true _).trans h.tc
      exact .waits n phase haddr ⟨h.lt, h.image, h.route, htc, h.err⟩ (Bool.and_false _)

theorem dmaBoundary_runs (h : j.Running s u va q)
    (hv : sdController.answers q .normIntrSts v = true) (herr : q.err = false) :
    (dmaBoundary j.resume va v).Holds sdController (j.Holding s u)
      (fun va' q' => if v &&& SD_INTR_TC ≠ 0 then j.Over s u 0 q'
        else j.Running s u va' q') q := by
  obtain ⟨-, hdma, htc, -⟩ := status_bits hv
  unfold dmaBoundary
  by_cases hstop : v &&& SD_INTR_DMA ≠ 0
  · rw [if_pos hstop]
    obtain ⟨hhalted, hnot⟩ := h.2.halted herr (hdma.1 hstop)
    have hincomplete : ¬v &&& SD_INTR_TC ≠ 0 := by
      rw [htc, hnot]
      simp
    simp only [if_neg hincomplete]
    refine Driver.stable_input (P := j.Stopped s u va q.sysAddr true)
      (fun _ _ _ => SdController.own_halted) (fun _ => SdJob.holding_halted) ⟨h.1, hhalted⟩ fun q₁ h₁ a ha => ?_
    have haddr : a = q.sysAddr := by
      have hread : a = q₁.sysAddr := of_decide_eq_true ha
      rw [hread]
      cases h₁.2 with
      | failed phase haddr err h => exact haddr
      | waits n phase haddr h hdma => exact haddr
    rw [haddr]
    refine Driver.stable_output (P := j.Stopped s u va q.sysAddr true)
      (fun _ _ _ => SdController.own_halted) (fun _ => SdJob.holding_halted) h₁ fun q₂ h₂ => ?_
    refine Driver.stable_output (P := j.Stopped s u va q.sysAddr false)
      (fun _ _ _ => SdController.own_halted) (fun _ => SdJob.holding_halted) (ack_halted h₂) fun q₃ h₃ => ?_
    exact Driver.stable_done (P := j.Running s u (j.resume va q.sysAddr).1)
      (fun _ _ _ => SdController.own_runs) (fun _ => SdJob.holding_runs) (resume_runs h₃) fun q₄ h₄ => h₄
  · rw [if_neg hstop]
    by_cases hcomplete : v &&& SD_INTR_TC ≠ 0
    · simp only [if_pos hcomplete]
      obtain ⟨hidle, himage⟩ := h.2.completed herr (htc.1 hcomplete)
      have hholding := SdJob.holding_runs h
      exact Driver.still_done (fun _ => SdController.own_idle hidle) hholding
        ⟨⟨hidle, hholding⟩, le_rfl, fun _ => himage⟩
    · simp only [if_neg hcomplete]
      exact Driver.stable_done (P := j.Running s u va) (fun _ _ _ => SdController.own_runs)
        (fun _ => SdJob.holding_runs) h fun q₁ h₁ => h₁

theorem transferPass_runs (h : j.Running s u va q) :
    (transferPass j.resume va).Holds sdController (j.Holding s u)
      (fun r q' => r.1.elim (j.Running s u r.2 q') fun ret => j.Over s u ret q') q := by
  refine Driver.stable_input (P := j.Running s u va) (fun _ _ _ => SdController.own_runs)
    (fun _ => SdJob.holding_runs) h fun q₁ h₁ v hv => ?_
  obtain ⟨-, -, -, hbit⟩ := status_bits hv
  by_cases herr : v &&& SD_INTR_ERR ≠ 0
  · rw [if_pos herr]
    have hidle := h₁.2.failed (hbit.1 herr)
    have hholding := SdJob.holding_runs h₁
    refine Driver.still_output (fun _ => SdController.own_idle hidle) hholding ?_
    have hidle' : (q₁.write .errIntrSts SD_ERR_INTR_ALL).phase = .idle := hidle
    have hholding' : j.Holding s u (q₁.write .errIntrSts SD_ERR_INTR_ALL) :=
      ⟨hholding.blkSize, hholding.unit, hholding.partway⟩
    exact Driver.still_done (fun _ => SdController.own_idle hidle') hholding'
      ⟨⟨hidle', hholding'⟩, by decide, fun h => absurd h (by decide)⟩
  · rw [if_neg herr]
    have hclear : q₁.err = false := Bool.not_eq_true _ ▸ fun h => herr (hbit.2 h)
    refine Driver.holds_bind ((dmaBoundary_runs h₁ hv hclear).settle.mono fun va' q₂ h₂ => ?_)
    by_cases hcomplete : v &&& SD_INTR_TC ≠ 0
    · rw [if_pos hcomplete]
      simp only [if_pos hcomplete] at h₂
      exact h₂
    · rw [if_neg hcomplete]
      simp only [if_neg hcomplete] at h₂
      exact h₂

theorem transferLoop_runs (h : j.Running s u va q) (passes : Nat) :
    (transferLoop j.resume passes va).Holds sdController (j.Holding s u) (j.Over s u) q := by
  induction passes generalizing q va with
  | zero =>
      exact Driver.stable_waiting (P := j.Running s u va) (fun _ _ _ => SdController.own_runs)
        (fun _ => SdJob.holding_runs) h
  | succ passes ih =>
      refine Driver.holds_bind ((transferPass_runs h).mono fun r q' h' => ?_)
      cases hr : r.1 with
      | none =>
          rw [hr] at h'
          exact ih h'
      | some ret =>
          rw [hr] at h'
          exact Driver.still_done (fun _ => SdController.own_idle h'.idle) h'.holding h'

/-! ## The command -/

/-- The command of the transfer is on its way. -/
structure SdJob.Awaits (j : SdJob) (s : Memory × Memory) (cmd : Nat) (q : SdController) : Prop where
  phase : q.phase = .command cmd
  image : q.image = s
  sysAddr : q.sysAddr = j.pa
  cc : q.cc = false
  dma : q.dma = false
  tc : q.tc = false
  err : q.err = false

/-- From the answer to the command on; without data that is all. -/
def SdJob.Answered (j : SdJob) (s : Memory × Memory) (u cmd : Nat) (q : SdController) : Prop :=
  j.Running s u j.va q ∧ (cmd &&& SD_DAT_PRESENT = 0 → q.phase = .idle)

def SdJob.Asked (j : SdJob) (s : Memory × Memory) (u cmd : Nat) (q : SdController) : Prop :=
  j.IsSet u q ∧ j.Awaits s cmd q ∨ j.Answered s u cmd q

variable {cmd count arg mode : Nat} {r : SdReg}

theorem own_answered {e : SdMove} (h : j.Answered s u cmd q) (hown : q.own e = some q') :
    j.Answered s u cmd q' := by
  refine ⟨SdController.own_runs h.1 hown, fun hplain => ?_⟩
  rw [SdController.own_idle (h.2 hplain)] at hown
  simp at hown

theorem own_asked (hdata : cmd &&& SD_DAT_PRESENT ≠ 0 ∨ j.total = 0) {e : SdMove}
    (h : j.Asked s u cmd q) (hown : q.own e = some q') : j.Asked s u cmd q' := by
  rcases h with ⟨hset, h⟩ | h
  · unfold SdController.own at hown
    rw [h.phase] at hown
    cases e with
    | answer =>
        obtain rfl := Option.some.inj hown
        refine Or.inr ⟨⟨⟨hset.blkSize, hset.unit, hset.total, hset.start, hset.reads⟩, ?_⟩,
          fun hplain => if_neg (not_not.2 hplain)⟩
        by_cases hmoves : cmd &&& SD_DAT_PRESENT ≠ 0
        · refine .moves 0 (if_pos hmoves) ⟨Nat.zero_le _, h.image, fun _ => ?_, h.dma, h.tc, h.err⟩
          exact congrArg (Prod.mk j.va) h.sysAddr.symm
        · refine .ended (if_neg hmoves) (Or.inr ⟨h.err, h.dma, ?_⟩)
          rw [hdata.resolve_left hmoves]
          exact h.image
    | fail =>
        obtain rfl := Option.some.inj hown
        exact Or.inr ⟨⟨⟨hset.blkSize, hset.unit, hset.total, hset.start, hset.reads⟩,
          .ended rfl (Or.inl ⟨rfl, 0, Nat.zero_le _, h.image⟩)⟩, fun _ => rfl⟩
    | move => simp at hown
    | complete => simp at hown
  · exact Or.inr (own_answered h hown)

theorem holding_asked (h : j.Asked s u cmd q) : j.Holding s u q := by
  rcases h with ⟨hset, h⟩ | h
  · exact ⟨hset.blkSize, hset.unit, 0, Nat.zero_le _, h.image⟩
  · exact SdJob.holding_runs h.1

theorem commandResult_runs (hdata : cmd &&& SD_DAT_PRESENT ≠ 0 ∨ j.total = 0)
    (h : j.Asked s u cmd q) :
    (Driver.poll commandResult polls).Holds sdController (j.Holding s u)
      (fun ret q' => if ret = 0 then j.Answered s u cmd q' else j.AtRest s u q') q := by
  refine Driver.holds_poll (P := j.Asked s u cmd) (fun q h => ?_) polls h
  refine Driver.stable_input (P := j.Asked s u cmd) (fun _ _ _ => own_asked hdata)
    (fun _ => holding_asked) h fun q₁ h₁ v hv => ?_
  obtain ⟨hcc, -, -, herr⟩ := status_bits hv
  by_cases hbit : v &&& SD_INTR_ERR ≠ 0
  · rw [if_pos hbit]
    have hrest : j.AtRest s u q₁ := by
      rcases h₁ with ⟨-, h₁⟩ | h₁
      · simp [h₁.err] at herr
        exact absurd herr hbit
      · exact ⟨h₁.1.2.failed (herr.1 hbit), SdJob.holding_runs h₁.1⟩
    exact Driver.still_done (fun _ => SdController.own_idle hrest.idle) hrest.holding hrest
  · rw [if_neg hbit]
    by_cases hdone : v &&& SD_INTR_CC ≠ 0
    · rw [if_pos hdone]
      have hruns : j.Answered s u cmd q₁ := by
        rcases h₁ with ⟨-, h₁⟩ | h₁
        · simp [h₁.cc] at hcc
          exact absurd hcc hdone
        · exact h₁
      exact Driver.stable_done (P := j.Answered s u cmd) (fun _ _ _ => own_answered)
        (fun _ h => SdJob.holding_runs h.1) hruns fun q₂ h₂ => h₂
    · rw [if_neg hdone]
      exact Driver.stable_done (P := j.Asked s u cmd) (fun _ _ _ => own_asked hdata)
        (fun _ => holding_asked) h₁ fun q₂ h₂ => h₂

theorem clear_runs (h : j.Running s u va q) : j.Running s u va (q.write .normIntrSts SD_INTR_CC) := by
  obtain ⟨hset, hruns⟩ := h
  refine ⟨⟨hset.blkSize, hset.unit, hset.total, hset.start, hset.reads⟩, ?_⟩
  have hdma : (q.write .normIntrSts SD_INTR_CC).dma = q.dma := Bool.and_true _
  have htc : (q.write .normIntrSts SD_INTR_CC).tc = q.tc := Bool.and_true _
  cases hruns with
  | ended phase h =>
      refine .ended phase (h.imp_right fun h => ?_)
      exact ⟨h.1, hdma.trans h.2.1, h.2.2⟩
  | moves n phase h =>
      exact .moves n phase ⟨h.le, h.image, h.route, hdma.trans h.dma, htc.trans h.tc, h.err⟩
  | waits n phase h dma =>
      exact .waits n phase ⟨h.lt, h.image, h.route, htc.trans h.tc, h.err⟩ (hdma.trans dma)

theorem rest_output {Q : Int → SdController → Prop} {k : Unit → Driver SdReg Int}
    (h : j.AtRest s u q)
    (hsame : (q.write r v).phase = q.phase ∧ (q.write r v).blkSize = q.blkSize ∧
      (q.write r v).unit = q.unit ∧ (q.write r v).image = q.image)
    (hk : j.AtRest s u (q.write r v) → (k ()).Holds sdController (j.Holding s u) Q (q.write r v)) :
    (Driver.output r v >>= k).Holds sdController (j.Holding s u) Q q := by
  refine Driver.still_output (fun _ => SdController.own_idle h.idle) h.holding (hk ?_)
  obtain ⟨hphase, hblk, hunit, himage⟩ := hsame
  obtain ⟨n, hn, hmoved⟩ := h.holding.partway
  exact ⟨hphase.trans h.idle, hblk.trans h.holding.blkSize, hunit.trans h.holding.unit, n, hn,
    himage.trans hmoved⟩

/-- What a transfer is started with, or a command without one. -/
structure SdJob.Begins (j : SdJob) (u cmd mode count arg : Nat) : Prop where
  data : sdFrameCmd cmd &&& SD_DAT_PRESENT ≠ 0 ∨ j.total = 0
  total : 512 * count = j.total
  start : arg * u = j.start
  reads : (transferMode mode &&& SD_TM_DAT_DIR_SEL != 0) = j.reads

theorem sendCmd_runs (hj : j.Begins u cmd mode count arg) (h : j.AtRest s u q) (himage : q.image = s)
    (haddr : q.sysAddr = j.pa) :
    (sdSpinSendCmd polls cmd count arg mode).Holds sdController (j.Holding s u)
      (fun ret q' => if ret = 0 then j.Answered s u (sdFrameCmd cmd) q' else j.AtRest s u q') q := by
  refine Driver.still_input (fun _ => SdController.own_idle h.idle) h.holding fun v _ => ?_
  by_cases hcmd : v &&& SD_PSR_INHIBIT_CMD ≠ 0
  · rw [if_pos hcmd]
    exact Driver.still_done (fun _ => SdController.own_idle h.idle) h.holding h
  · rw [if_neg hcmd]
    by_cases hdat : v &&& SD_PSR_INHIBIT_DAT ≠ 0 ∧ sdFrameCmd cmd &&& SD_DAT_PRESENT ≠ 0
    · rw [if_pos hdat]
      exact Driver.still_done (fun _ => SdController.own_idle h.idle) h.holding h
    · rw [if_neg hdat]
      refine rest_output h ⟨rfl, rfl, rfl, rfl⟩ fun h₁ => ?_
      refine rest_output h₁ ⟨rfl, rfl, rfl, rfl⟩ fun h₂ => ?_
      refine rest_output h₂ ⟨rfl, rfl, rfl, rfl⟩ fun h₃ => ?_
      refine rest_output h₃ ⟨rfl, rfl, rfl, rfl⟩ fun h₄ => ?_
      refine rest_output h₄ ⟨rfl, rfl, rfl, rfl⟩ fun h₅ => ?_
      refine rest_output h₅ ⟨rfl, rfl, rfl, rfl⟩ fun h₆ => ?_
      refine Driver.still_output (fun _ => SdController.own_idle h₆.idle) h₆.holding ?_
      refine Driver.holds_bind ((commandResult_runs hj.data (Or.inl ⟨?_, ?_⟩)).mono fun ret q' h' => ?_)
      · exact ⟨h.holding.blkSize, h.holding.unit, hj.total, hj.start, hj.reads⟩
      · exact ⟨rfl, himage, haddr, Bool.and_false _, Bool.and_false _, Bool.and_false _,
          Bool.and_false _⟩
      · by_cases hret : ret = 0
        · rw [if_pos hret] at h' ⊢
          refine Driver.stable_output (P := j.Answered s u (sdFrameCmd cmd)) (fun _ _ _ => own_answered)
            (fun _ h => SdJob.holding_runs h.1) h' fun q₁ h₁ => ?_
          refine Driver.stable_done (P := j.Answered s u (sdFrameCmd cmd)) (fun _ _ _ => own_answered)
            (fun _ h => SdJob.holding_runs h.1) ⟨clear_runs h₁.1, h₁.2⟩ fun q₂ h₂ => ?_
          rw [if_pos rfl]
          exact h₂
        · rw [if_neg hret] at h' ⊢
          refine Driver.still_done (fun _ => SdController.own_idle h'.idle) h'.holding ?_
          rw [if_neg hret]
          exact h'

theorem transfer_runs {pa : Nat} {resume : Nat → Nat → Nat × Nat}
    (hj : j.Begins u cmd mode count arg) (hpa : j.pa = pa) (hva : j.va = va)
    (hresume : j.resume = resume) (h : j.AtRest s u q) (himage : q.image = s) :
    (sdTransfer polls cmd mode pa count arg resume va).Holds sdController (j.Holding s u)
      (j.Over s u) q := by
  subst hpa
  subst hva
  subst hresume
  have hover : ∀ {q' : SdController} {ret : Int}, j.AtRest s u q' → ret < 0 →
      (Driver.done ret).Holds sdController (j.Holding s u) (j.Over s u) q' := fun hq' hret =>
    Driver.still_done (fun _ => SdController.own_idle hq'.idle) hq'.holding
      ⟨hq', hret.le, fun h => absurd h hret.ne⟩
  refine Driver.still_input (fun _ => SdController.own_idle h.idle) h.holding fun v _ => ?_
  by_cases hcard : v &&& SD_PSR_CARD_INSRT = 0
  · rw [if_pos hcard]
    exact hover h (by decide)
  · rw [if_neg hcard]
    have hphase : (q.write .sdmaSysAddr j.pa).phase = q.phase := by
      unfold SdController.write
      rw [h.idle]
    refine rest_output h ⟨hphase, rfl, rfl, rfl⟩ fun h₁ => ?_
    refine Driver.holds_bind ((sendCmd_runs hj h₁ himage rfl).mono fun ret q₂ h₂ => ?_)
    by_cases hret : ret = 0
    · rw [if_neg (not_not.2 hret)]
      rw [if_pos hret] at h₂
      refine Driver.holds_bind ((transferLoop_runs h₂.1 polls).mono fun ret q₃ h₃ => ?_)
      by_cases hall : ret = 0
      · rw [if_pos hall]
        refine rest_output h₃.toAtRest ⟨rfl, rfl, rfl, rfl⟩ fun h₄ => ?_
        exact Driver.still_done (fun _ => SdController.own_idle h₄.idle) h₄.holding
          ⟨h₄, le_rfl, fun _ => h₃.all hall⟩
      · rw [if_neg hall]
        exact hover h₃.toAtRest (h₃.nonpos.lt_of_ne hall)
    · rw [if_pos hret]
      rw [if_neg hret] at h₂
      exact hover h₂ (by decide)

end Aimv6.Drivers
