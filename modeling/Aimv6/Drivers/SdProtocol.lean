import Aimv6.Drivers.SdZynq7000

/-! # The protocol with the controller

Whatever the controller answers, the driver sends a command only where the
controller is free and its status is cleared, touches nothing until the command
is over, and sets a transfer going again at each boundary. A watch on the
registers counts the breaches of these rules: there is none in any sequence of
calls.
-/

namespace Aimv6.Drivers

open Support

/-- What the controller has been told and has reported. -/
structure SdHost where
  /-- a command is on its way -/
  busy : Bool
  /-- the command has data -/
  data : Bool
  /-- the data of the last command are on their way -/
  moving : Bool
  /-- the present state, if read since the last command -/
  seen : Option Nat
  normClear : Bool
  errClear : Bool
  /-- the transfer stands at a boundary -/
  boundary : Bool
  /-- the address read there -/
  held : Option Nat
  /-- the interrupt of the boundary is cleared -/
  acked : Bool
  /-- breaches of the protocol -/
  faults : Nat

namespace SdHost

def fault (q : SdHost) : SdHost := { q with faults := q.faults + 1 }

def mayStart (q : SdHost) (cmd : Nat) : Bool :=
  !q.busy && !q.moving && !q.boundary && q.normClear && q.errClear &&
    match q.seen with
    | none => false
    | some v => v &&& SD_PSR_INHIBIT_CMD == 0 &&
        (cmd &&& SD_DAT_PRESENT == 0 || v &&& SD_PSR_INHIBIT_DAT == 0)

/-- Whether a transfer that stands at a boundary may go on at `addr`: where it stands, or elsewhere if
that is the end of a page and pages may lie apart. -/
def mayResume (loads : Bool) (q : SdHost) (addr : Nat) : Bool :=
  q.acked &&
    match q.held with
    | none => false
    | some a => addr == a || (loads && a % 4096 == 0)

def write (loads : Bool) (q : SdHost) : SdReg → Nat → SdHost
  | .cmd, c =>
      { q with
        busy := true
        data := c &&& SD_DAT_PRESENT != 0
        seen := none
        normClear := false
        errClear := false
        faults := if q.mayStart c then q.faults else q.faults + 1 }
  | .normIntrSts, v =>
      if q.busy then q.fault
      else if v = SD_NORM_INTR_ALL then { q with normClear := true }
      else if v = SD_INTR_DMA then { q with acked := true }
      else q
  | .errIntrSts, v =>
      if q.busy then q.fault
      else if v = SD_ERR_INTR_ALL then { q with errClear := true }
      else q
  | .sdmaSysAddr, a =>
      if q.busy then q.fault
      else if q.boundary then
        if q.mayResume loads a then { q with boundary := false } else q.fault
      else if q.moving then q.fault
      else q
  | _, _ => if q.busy || q.moving then q.fault else q

def read (q : SdHost) : SdReg → Nat → SdHost
  | .presState, v => { q with seen := some v }
  | .normIntrSts, v =>
      if q.busy then
        if v &&& SD_INTR_ERR ≠ 0 then { q with busy := false }
        else if v &&& SD_INTR_CC ≠ 0 then
          { q with
            busy := false
            moving := q.data }
        else q
      else if q.moving then
        -- to be set going before it is looked at again
        if q.boundary then q.fault
        else if v &&& SD_INTR_ERR ≠ 0 then { q with moving := false }
        else
          { q with
            moving := v &&& SD_INTR_TC == 0
            boundary := v &&& SD_INTR_DMA != 0
            held := none
            acked := false }
      else q
  | .sdmaSysAddr, v => if q.boundary then { q with held := some v } else q
  | _, _ => q

/-- Neither a command nor data are on their way. -/
structure Rest (q : SdHost) : Prop where
  busy : q.busy = false
  moving : q.moving = false
  boundary : q.boundary = false

end SdHost

/-- A controller that answers as it likes, and is watched. -/
def sdHost (loads : Bool) : Device SdReg SdHost Empty where
  answers _ _ _ := true
  read := SdHost.read
  write := SdHost.write loads
  own _ e := e.elim

variable {loads : Bool} {q q' : SdHost} {n polls cmd count arg mode va : Nat}

/-- No breach beyond `n`. -/
def SdHost.Clean (n : Nat) (q : SdHost) : Prop := q.faults = n

def SdHost.Over (n : Nat) (q : SdHost) : Prop := q.Rest ∧ q.faults = n

/-! ## A command -/

theorem write_setting (hq : q.Rest) {r : SdReg} (hr : r ∈ SdReg.settings) (v : Nat) :
    (sdHost loads).write q r v = q := by
  have hif : (if (q.busy || q.moving) = true then q.fault else q) = q := by
    rw [hq.busy, hq.moving]
    rfl
  simp only [SdReg.settings, List.mem_cons, List.not_mem_nil, or_false] at hr
  rcases hr with rfl | rfl | rfl | rfl | rfl | rfl | rfl | rfl | rfl | rfl | rfl | rfl | rfl <;>
    exact hif

theorem setting_output {α : Type} {Q : α → SdHost → Prop} {r : SdReg} {v : Nat}
    {k : Unit → Driver SdReg α} (hq : q.Rest) (hn : q.faults = n) (hr : r ∈ SdReg.settings)
    (hk : (k ()).Holds (sdHost loads) (SdHost.Clean n) Q q) :
    (Driver.output r v >>= k).Holds (sdHost loads) (SdHost.Clean n) Q q := by
  refine Driver.monitor_output hn ?_
  rw [write_setting hq hr]
  exact hk

theorem write_norm_all (hq : q.Rest) :
    (sdHost loads).write q .normIntrSts SD_NORM_INTR_ALL = { q with normClear := true } := by
  show (if q.busy = true then q.fault else _) = _
  rw [hq.busy]
  rfl

theorem write_err_all (hq : q.busy = false) :
    (sdHost loads).write q .errIntrSts SD_ERR_INTR_ALL = { q with errClear := true } := by
  show (if q.busy = true then q.fault else _) = _
  rw [hq]
  rfl

theorem write_norm_bit (hq : q.busy = false) {v : Nat} (hv : v ≠ SD_NORM_INTR_ALL) :
    (sdHost loads).write q .normIntrSts v = if v = SD_INTR_DMA then { q with acked := true } else q := by
  show (if q.busy = true then q.fault else _) = _
  rw [hq, if_neg (by simp), if_neg hv]

theorem mayStart_eq (hq : q.Rest) (hnorm : q.normClear = true) (herr : q.errClear = true) {v c : Nat}
    (hseen : q.seen = some v) (hcmd : v &&& SD_PSR_INHIBIT_CMD = 0)
    (hdat : c &&& SD_DAT_PRESENT = 0 ∨ v &&& SD_PSR_INHIBIT_DAT = 0) : q.mayStart c = true := by
  unfold SdHost.mayStart
  rw [hq.busy, hq.moving, hq.boundary, hnorm, herr, hseen]
  dsimp only
  rw [hcmd]
  rcases hdat with h | h <;> simp [h]

/-- While a command is on its way the status is polled until it is over. -/
theorem commandResult_holds (hbusy : q.busy = true) (hmoving : q.moving = false)
    (hboundary : q.boundary = false) (hn : q.faults = n) :
    (Driver.poll commandResult polls).Holds (sdHost loads) (SdHost.Clean n)
      (fun r q' => q'.busy = false ∧ q'.boundary = false ∧ q'.faults = n ∧
        q'.moving = (decide (r = 0) && q.data)) q := by
  refine Driver.holds_poll (P := (· = q)) (fun q₁ h => ?_) polls rfl
  subst h
  refine Driver.monitor_input hn fun v _ => ?_
  have hread : (sdHost loads).read q₁ .normIntrSts v =
      if v &&& SD_INTR_ERR ≠ 0 then { q₁ with busy := false }
      else if v &&& SD_INTR_CC ≠ 0 then
        { q₁ with
          busy := false
          moving := q₁.data }
      else q₁ := if_pos hbusy
  rw [hread]
  by_cases herr : v &&& SD_INTR_ERR ≠ 0
  · rw [if_pos herr, if_pos herr]
    exact Driver.monitor_done hn ⟨rfl, hboundary, hn, hmoving⟩
  · rw [if_neg herr, if_neg herr]
    by_cases hcc : v &&& SD_INTR_CC ≠ 0
    · rw [if_pos hcc, if_pos hcc]
      exact Driver.monitor_done hn ⟨rfl, hboundary, hn, (Bool.true_and _).symm⟩
    · rw [if_neg hcc, if_neg hcc]
      exact Driver.monitor_done hn rfl

/-- A command keeps the rules; its data are on their way where it has some and succeeds. -/
theorem sendCmd_holds (hq : q.Rest) (hn : q.faults = n) :
    (sdSpinSendCmd polls cmd count arg mode).Holds (sdHost loads) (SdHost.Clean n)
      (fun r q' => q'.busy = false ∧ q'.boundary = false ∧ q'.faults = n ∧
        q'.moving = (decide (r = 0) && (sdFrameCmd cmd &&& SD_DAT_PRESENT != 0))) q := by
  unfold sdSpinSendCmd
  refine Driver.monitor_input hn fun v _ => ?_
  obtain ⟨q₁, hq₁⟩ : ∃ q₁, q₁ = { q with seen := some v } := ⟨_, rfl⟩
  have hread : (sdHost loads).read q .presState v = q₁ := hq₁.symm
  rw [hread]
  have hrest : q₁.Rest := by
    rw [hq₁]
    exact ⟨hq.busy, hq.moving, hq.boundary⟩
  have hn₁ : q₁.faults = n := by
    rw [hq₁]
    exact hn
  have hseen : q₁.seen = some v := by rw [hq₁]
  split
  · exact Driver.monitor_done hn₁ ⟨hrest.busy, hrest.boundary, hn₁, hrest.moving⟩
  · split
    · exact Driver.monitor_done hn₁ ⟨hrest.busy, hrest.boundary, hn₁, hrest.moving⟩
    · next hcmd hdat =>
        have hfree : v &&& SD_PSR_INHIBIT_CMD = 0 := by omega
        have hdata : sdFrameCmd cmd &&& SD_DAT_PRESENT = 0 ∨ v &&& SD_PSR_INHIBIT_DAT = 0 := by
          by_cases h : v &&& SD_PSR_INHIBIT_DAT = 0
          · exact Or.inr h
          · exact Or.inl (not_not.1 fun hc => hdat ⟨h, hc⟩)
        refine setting_output hrest hn₁ (by decide) ?_
        refine setting_output hrest hn₁ (by decide) ?_
        refine setting_output hrest hn₁ (by decide) ?_
        refine Driver.monitor_output hn₁ ?_
        rw [write_norm_all hrest]
        refine Driver.monitor_output hn₁ ?_
        rw [write_err_all (show SdHost.busy { q₁ with normClear := true } = false from hrest.busy)]
        obtain ⟨q₂, hq₂⟩ : ∃ q₂, q₂ = { q₁ with
            normClear := true
            errClear := true } := ⟨_, rfl⟩
        rw [← hq₂]
        have hrest₂ : q₂.Rest := by
          rw [hq₂]
          exact ⟨hrest.busy, hrest.moving, hrest.boundary⟩
        have hn₂ : q₂.faults = n := by
          rw [hq₂]
          exact hn₁
        refine setting_output hrest₂ hn₂ (by decide) ?_
        refine Driver.monitor_output hn₂ ?_
        have hstart : q₂.mayStart (sdFrameCmd cmd) = true :=
          mayStart_eq hrest₂ (by rw [hq₂]) (by rw [hq₂]) (by rw [hq₂]; exact hseen) hfree hdata
        obtain ⟨q₃, hq₃⟩ : ∃ q₃, q₃ = (sdHost loads).write q₂ .cmd (sdFrameCmd cmd) := ⟨_, rfl⟩
        rw [← hq₃]
        have hn₃ : q₃.faults = n := by
          rw [hq₃]
          exact (if_pos hstart).trans hn₂
        refine Driver.holds_bind ((commandResult_holds (by rw [hq₃]; rfl)
          (by rw [hq₃]; exact hrest₂.moving) (by rw [hq₃]; exact hrest₂.boundary)
          hn₃).mono fun r q₄ h₄ => ?_)
        have hdata₃ : q₃.data = (sdFrameCmd cmd &&& SD_DAT_PRESENT != 0) := by
          rw [hq₃]
          rfl
        rw [hdata₃] at h₄
        split
        · next hr =>
            refine Driver.monitor_output h₄.2.2.1 ?_
            rw [write_norm_bit h₄.1 (by decide), if_neg (by decide)]
            rw [hr] at h₄
            exact Driver.monitor_done h₄.2.2.1 h₄
        · exact Driver.monitor_done h₄.2.2.1 h₄

theorem plainCmd_holds (hcmd : sdFrameCmd cmd &&& SD_DAT_PRESENT = 0) (h : q.Over n) :
    (sdSpinSendCmd polls cmd count arg mode).Holds (sdHost loads) (SdHost.Clean n)
      (fun _ => SdHost.Over n) q := by
  refine (sendCmd_holds h.1 h.2).mono fun r q' hq' => ⟨⟨hq'.1, ?_, hq'.2.1⟩, hq'.2.2.1⟩
  rw [hq'.2.2.2, hcmd]
  exact Bool.and_false _

theorem over_keeps : SdKeeps (sdHost loads) (SdHost.Clean n) (SdHost.Over n) polls where
  done _ := fun _ hq => Driver.monitor_done hq.2 hq
  presState := fun _ hq => Driver.monitor_input (k := Driver.done) hq.2 fun _ _ =>
    Driver.monitor_done hq.2 ⟨⟨hq.1.busy, hq.1.moving, hq.1.boundary⟩, hq.2⟩
  resp0 := fun _ hq => Driver.monitor_input (k := Driver.done) hq.2 fun _ _ =>
    Driver.monitor_done hq.2 hq
  command _ _ hcmd := fun _ hq => plainCmd_holds hcmd hq

/-! ## Transfers -/

/-- The data are on their way. -/
structure SdHost.Transfers (n : Nat) (q : SdHost) : Prop where
  busy : q.busy = false
  moving : q.moving = true
  boundary : q.boundary = false
  faults : q.faults = n

variable {resume : Nat → Nat → Nat × Nat}

theorem write_resume {a : Nat} (hbusy : q.busy = false) (hstands : q.boundary = true)
    (hmay : q.mayResume loads a = true) :
    (sdHost loads).write q .sdmaSysAddr a = { q with boundary := false } := by
  show (if q.busy = true then _ else if q.boundary = true then if _ = true then _ else _ else _) = _
  rw [hbusy, if_neg (by simp), if_pos hstands, if_pos hmay]

theorem dmaBoundary_holds (hresume : ∀ va a, (resume va a).2 = a ∨ (loads = true ∧ a % 4096 = 0))
    {v : Nat} (hbusy : q.busy = false) (hboundary : q.boundary = (v &&& SD_INTR_DMA != 0))
    (hn : q.faults = n) : (dmaBoundary resume va v).Holds (sdHost loads) (SdHost.Clean n)
      (fun _ q' => q'.busy = false ∧ q'.boundary = false ∧ q'.faults = n ∧ q'.moving = q.moving) q := by
  unfold dmaBoundary
  split
  · next hdma =>
      have hstands : q.boundary = true := by
        rw [hboundary]
        exact bne_iff_ne.2 hdma
      refine Driver.monitor_input hn fun a _ => ?_
      have hread : (sdHost loads).read q .sdmaSysAddr a = { q with held := some a } := if_pos hstands
      rw [hread]
      refine Driver.monitor_output hn ?_
      rw [write_norm_bit (show SdHost.busy { q with held := some a } = false from hbusy) (by decide),
        if_pos rfl]
      obtain ⟨q₁, hq₁⟩ : ∃ q₁, q₁ = { q with
          held := some a
          acked := true } := ⟨_, rfl⟩
      have hmay : q₁.mayResume loads (resume va a).2 = true := by
        unfold SdHost.mayResume
        rw [hq₁]
        rcases hresume va a with h | ⟨h₁, h₂⟩
        · simp [h]
        · simp [h₁, h₂]
      have hwrite := write_resume (q := q₁) (by rw [hq₁]; exact hbusy) (by rw [hq₁]; exact hstands)
        hmay
      rw [hq₁] at hwrite
      refine Driver.monitor_output hn ?_
      rw [hwrite]
      exact Driver.monitor_done hn ⟨hbusy, rfl, hn, rfl⟩
  · next hdma =>
      refine Driver.monitor_done hn ⟨hbusy, ?_, hn, rfl⟩
      rw [hboundary, not_not.1 hdma]
      rfl

theorem transferPass_holds (hresume : ∀ va a, (resume va a).2 = a ∨ (loads = true ∧ a % 4096 = 0))
    (h : q.Transfers n) : (transferPass resume va).Holds (sdHost loads) (SdHost.Clean n)
      (fun r q' => if r.1 = none then q'.Transfers n else q'.Over n) q := by
  refine Driver.monitor_input h.faults fun v _ => ?_
  have hread : (sdHost loads).read q .normIntrSts v =
      if v &&& SD_INTR_ERR ≠ 0 then { q with moving := false }
      else
        { q with
          moving := v &&& SD_INTR_TC == 0
          boundary := v &&& SD_INTR_DMA != 0
          held := none
          acked := false } := by
    show (if q.busy = true then _ else if q.moving = true then if q.boundary = true then _ else _
      else _) = _
    rw [h.busy, h.moving, h.boundary]
    rfl
  rw [hread]
  by_cases herr : v &&& SD_INTR_ERR ≠ 0
  · rw [if_pos herr, if_pos herr]
    refine Driver.monitor_output h.faults ?_
    rw [write_err_all (show SdHost.busy { q with moving := false } = false from h.busy)]
    refine Driver.monitor_done h.faults ?_
    rw [if_neg (by simp)]
    exact ⟨⟨h.busy, rfl, h.boundary⟩, h.faults⟩
  · rw [if_neg herr, if_neg herr]
    obtain ⟨q₁, hq₁⟩ : ∃ q₁, q₁ = { q with
        moving := v &&& SD_INTR_TC == 0
        boundary := v &&& SD_INTR_DMA != 0
        held := none
        acked := false } := ⟨_, rfl⟩
    rw [← hq₁]
    refine Driver.holds_bind ((dmaBoundary_holds hresume (by rw [hq₁]; exact h.busy) (by rw [hq₁])
      (by rw [hq₁]; exact h.faults)).mono fun va' q' h' => ?_)
    obtain ⟨hbusy, hboundary, hn, hmoving⟩ := h'
    have hmoves : q₁.moving = (v &&& SD_INTR_TC == 0) := by rw [hq₁]
    rw [hmoves] at hmoving
    refine Driver.monitor_done hn ?_
    by_cases htc : v &&& SD_INTR_TC ≠ 0
    · rw [if_pos htc, if_neg (by simp)]
      refine ⟨⟨hbusy, ?_, hboundary⟩, hn⟩
      rw [hmoving]
      exact beq_false_of_ne htc
    · rw [if_neg htc, if_pos rfl]
      refine ⟨hbusy, ?_, hboundary, hn⟩
      rw [hmoving, not_not.1 htc]
      rfl

theorem transferLoop_holds (hresume : ∀ va a, (resume va a).2 = a ∨ (loads = true ∧ a % 4096 = 0))
    (h : q.Transfers n) (passes : Nat) : (transferLoop resume passes va).Holds (sdHost loads)
      (SdHost.Clean n) (fun _ => SdHost.Over n) q := by
  induction passes generalizing q va with
  | zero => exact Driver.monitor_waiting h.faults
  | succ passes ih =>
      refine Driver.holds_bind ((transferPass_holds hresume h).mono fun r q' h' => ?_)
      cases hr : r.1 with
      | none =>
          rw [if_pos hr] at h'
          exact ih h'
      | some ret =>
          rw [if_neg (by simp [hr])] at h'
          exact Driver.monitor_done h'.2 h'

theorem transfer_holds {pa offset : Nat}
    (hresume : ∀ va a, (resume va a).2 = a ∨ (loads = true ∧ a % 4096 = 0))
    (hcmd : sdFrameCmd cmd &&& SD_DAT_PRESENT ≠ 0) (h : q.Over n) :
    (sdTransfer polls cmd mode pa count offset resume va).Holds (sdHost loads) (SdHost.Clean n)
      (fun _ => SdHost.Over n) q := by
  unfold sdTransfer
  refine Driver.monitor_input h.2 fun v _ => ?_
  have h₁ : SdHost.Over n ((sdHost loads).read q .presState v) :=
    ⟨⟨h.1.busy, h.1.moving, h.1.boundary⟩, h.2⟩
  split
  · exact Driver.monitor_done h₁.2 h₁
  · refine Driver.monitor_output h₁.2 ?_
    have hwrite : (sdHost loads).write ((sdHost loads).read q .presState v) .sdmaSysAddr pa =
        (sdHost loads).read q .presState v := by
      show (if q.busy = true then _ else if q.boundary = true then _ else if q.moving = true then _
        else _) = _
      rw [h.1.busy, h.1.boundary, h.1.moving]
      rfl
    rw [hwrite]
    refine Driver.holds_bind ((sendCmd_holds h₁.1 h₁.2).mono fun ret q₂ h₂ => ?_)
    obtain ⟨hbusy, hboundary, hn, hmoving⟩ := h₂
    by_cases hret : ret = 0
    · rw [if_neg (not_not.2 hret)]
      have htransfers : q₂.Transfers n := by
        refine ⟨hbusy, ?_, hboundary, hn⟩
        rw [hmoving, hret]
        exact bne_iff_ne.2 hcmd
      refine Driver.holds_bind ((transferLoop_holds hresume htransfers polls).mono fun r q₃ h₃ => ?_)
      split
      · refine Driver.monitor_output h₃.2 ?_
        rw [write_norm_bit h₃.1.busy (by decide), if_neg (by decide)]
        exact Driver.monitor_done h₃.2 h₃
      · exact Driver.monitor_done h₃.2 h₃
    · rw [if_pos hret]
      refine Driver.monitor_done hn ⟨⟨hbusy, ?_, hboundary⟩, hn⟩
      rw [hmoving, decide_eq_false hret]
      rfl

/-! ## Calls -/

inductive SdCall where
  | init
  | initMemCard
  | read (pa count offset : Nat)
  | write (pa count offset : Nat)
  | load (walk : Nat → Nat) (va count offset : Nat)

def SdCall.driver (polls : Nat) : SdCall → Driver SdReg Unit
  | init => sdInit polls
  | initMemCard => do
      let _ ← sdSpinInitMemCard polls
      pure ()
  | read pa count offset => do
      let _ ← sdDmaSpinRead polls pa count offset
      pure ()
  | write pa count offset => do
      let _ ← sdDmaSpinWrite polls pa count offset
      pure ()
  | load walk va count offset => do
      let _ ← sdDmaSpinLoad polls walk va count offset
      pure ()

def SdCall.isLoad : SdCall → Bool
  | load .. => true
  | _ => false

def sdCalls (polls : Nat) : List SdCall → Driver SdReg Unit
  | [] => pure ()
  | k :: ks => do
      k.driver polls
      sdCalls polls ks

theorem sdInit_holds (h : q.Over n) :
    (sdInit polls).Holds (sdHost loads) (SdHost.Clean n) (fun _ => SdHost.Over n) q := by
  have hout : ∀ r ∈ SdReg.settings, ∀ v,
      (Driver.output r v).Keeps (sdHost loads) (SdHost.Clean n) (SdHost.Over n) :=
    fun r hr v q hq => setting_output (k := Driver.done) hq.1 hq.2 hr (Driver.monitor_done hq.2 hq)
  refine (sdInitController_keeps (fun _ _ hq => Driver.monitor_done hq.2 hq) (fun q hq => ?_)
    (fun q hq => ?_) hout).bind (fun _ => hout .blkSize (by decide) 512) q h
  · exact Driver.monitor_input (k := Driver.done) hq.2 fun _ _ => Driver.monitor_done hq.2 hq
  · exact Driver.monitor_input (k := Driver.done) hq.2 fun _ _ => Driver.monitor_done hq.2 hq

theorem SdCall.holds (k : SdCall) (hk : k.isLoad = true → loads = true) (h : q.Over n) :
    (k.driver polls).Holds (sdHost loads) (SdHost.Clean n) (fun _ => SdHost.Over n) q := by
  have hdone : ∀ {d : Driver SdReg Int},
      d.Holds (sdHost loads) (SdHost.Clean n) (fun _ => SdHost.Over n) q →
      (d >>= fun _ => pure ()).Holds (sdHost loads) (SdHost.Clean n) (fun _ => SdHost.Over n) q :=
    fun hd => Driver.holds_bind (hd.mono fun r q' h' => Driver.monitor_done h'.2 h')
  cases k with
  | init => exact sdInit_holds h
  | initMemCard => exact hdone (sdSpinInitMemCard_keeps over_keeps q h)
  | read pa count offset => exact hdone (transfer_holds (fun va a => Or.inl rfl) (by decide) h)
  | write pa count offset => exact hdone (transfer_holds (fun va a => Or.inl rfl) (by decide) h)
  | load walk va count offset =>
      refine hdone (transfer_holds (fun va a => ?_) (by decide) h)
      by_cases ha : a % 4096 = 0
      · exact Or.inr ⟨hk rfl, ha⟩
      · exact Or.inl (congrArg Prod.snd (if_neg ha))

theorem sdCalls_holds {ks : List SdCall} (hks : ∀ k ∈ ks, k.isLoad = true → loads = true)
    (h : q.Over n) :
    (sdCalls polls ks).Holds (sdHost loads) (SdHost.Clean n) (fun _ => SdHost.Over n) q := by
  induction ks generalizing q with
  | nil => exact Driver.monitor_done h.2 h
  | cons k ks ih =>
      refine Driver.holds_bind ((k.holds (hks k (List.mem_cons_self ..)) h).mono fun _ q' h' => ?_)
      exact ih (fun k' hk' => hks k' (List.mem_cons_of_mem k hk')) h'

/-- In any sequence of calls, at every moment and whatever the controller answers, no rule of the
protocol is broken; and between the calls neither a command nor data are on their way. -/
theorem sd_protocol_kept {ks : List SdCall} (hks : ∀ k ∈ ks, k.isLoad = true → loads = true)
    (hq : q.Rest) {es : List (Turn Empty)} {d' : Driver SdReg Unit}
    (hrun : run (sdHost loads).step (sdCalls polls ks, q) es = some (d', q')) :
    q'.faults = q.faults ∧ (d' = .done () → q'.Rest) := by
  obtain ⟨hclean, hdone⟩ := (sdCalls_holds hks ⟨hq, rfl⟩).run hrun
  exact ⟨hclean, fun hd => (hdone () hd).1⟩

/-- A read of one sector that stands at a boundary once. -/
theorem sd_protocol_kept_sample : ∃ q' : SdHost,
    run (sdHost false).step (sdCalls 3 [.read 0x100000 1 0],
      ⟨false, false, false, none, false, false, false, none, false, 0⟩)
      ([SD_PSR_CARD_INSRT, 0, SD_PSR_CARD_INSRT, 0, 0, 0, 0, 0, 0, 0, SD_INTR_CC, 0, SD_INTR_DMA,
        0x101000, 0, 0, SD_INTR_TC, 0].map Turn.access) = some (.done (), q') ∧
      q'.faults = 0 ∧ q'.Rest := by
  have hrun : run (sdHost false).step (sdCalls 3 [.read 0x100000 1 0],
      ⟨false, false, false, none, false, false, false, none, false, 0⟩)
      ([SD_PSR_CARD_INSRT, 0, SD_PSR_CARD_INSRT, 0, 0, 0, 0, 0, 0, 0, SD_INTR_CC, 0, SD_INTR_DMA,
        0x101000, 0, 0, SD_INTR_TC, 0].map Turn.access) = some (.done (),
      ⟨false, true, false, none, false, false, false, none, false, 0⟩) := by
    rfl
  have hkept := sd_protocol_kept (by simp [SdCall.isLoad]) ⟨rfl, rfl, rfl⟩ hrun
  exact ⟨_, hrun, hkept.1, hkept.2 rfl⟩

end Aimv6.Drivers
