import Aimv6.Drivers.SdZynq7000

/-! # The identification of the card

A card takes a command only at its stage of the identification: after the reset
come the check of the voltage, the negotiation until it is ready, its number and
its address, and at last it is selected by that address and takes transfers. A
watch on the commands follows the card: no command comes out of order, and what
`sd_spin_init_mem_card` returns says how far the card has come.
-/

namespace Aimv6.Drivers

open Support

/-- The stages of the card, with what it has told of itself. -/
inductive CardStage where
  /-- before the reset -/
  | unknown
  /-- after a command without an answer -/
  | silent (cmd : Nat)
  | idle
  /-- asked for its voltage -/
  | asked
  | fits
  /-- told that an application command follows -/
  | app
  | negotiated
  | ready (ocr : Nat)
  | ident (ocr : Nat)
  | addressed (ocr : Nat)
  | standby (ocr rca : Nat)
  | described (ocr rca : Nat)
  | transfer (ocr rca : Nat)
deriving DecidableEq, Repr

namespace CardStage

/-- The stage that an answered command leads to, if the card may be given it. -/
def next (stage : CardStage) (cmd arg : Nat) : Option CardStage :=
  match cmd >>> 8, stage with
  | 0, _ => some idle
  | 8, idle => if arg = SD_CMD8_VOL_PATTERN then some asked else none
  | 55, fits => some app
  | 41, app => if arg = SD_ACMD41_HCS ||| SD_ACMD41_3V3 then some negotiated else none
  | 2, ready ocr => some (ident ocr)
  | 3, ident ocr => some (addressed ocr)
  | 9, standby ocr rca => if arg = rca then some (described ocr rca) else none
  | 7, described ocr rca => if arg = rca then some (transfer ocr rca) else none
  | 18, transfer ocr rca => some (transfer ocr rca)
  | 25, transfer ocr rca => some (transfer ocr rca)
  | _, _ => none

def told (stage : CardStage) (resp : Nat) : CardStage :=
  match stage with
  | asked => if resp = SD_CMD8_VOL_PATTERN then fits else asked
  | negotiated => if resp &&& SD_RESP_READY ≠ 0 then ready resp else fits
  | addressed ocr =>
      if resp &&& 0xFFFF0000 ≠ 0 then standby ocr (resp &&& 0xFFFF0000) else ident ocr
  | stage => stage

/-- After an error: a transfer leaves the card selected. -/
def failed (stage : CardStage) (cmd : Nat) : CardStage :=
  if cmd &&& SD_DAT_PRESENT ≠ 0 then stage else silent (cmd >>> 8)

end CardStage

structure CardWatch where
  stage : CardStage
  argmt : Nat
  /-- the command on its way -/
  sent : Option Nat
  /-- commands out of order -/
  wrong : Nat

namespace CardWatch

def write (q : CardWatch) : SdReg → Nat → CardWatch
  | .argmt, v => { q with argmt := v }
  | .cmd, c =>
      { q with
        sent := some c
        wrong := if (q.stage.next c q.argmt).isSome then q.wrong else q.wrong + 1 }
  | _, _ => q

def read (q : CardWatch) : SdReg → Nat → CardWatch
  | .normIntrSts, v =>
      match q.sent with
      | none => q
      | some c =>
          if v &&& SD_INTR_ERR ≠ 0 then
            { q with
              sent := none
              stage := q.stage.failed c }
          else if v &&& SD_INTR_CC ≠ 0 then
            { q with
              sent := none
              stage := (q.stage.next c q.argmt).getD .unknown }
          else q
  | .resp0, v => { q with stage := q.stage.told v }
  | _, _ => q

end CardWatch

/-- A card that answers as it likes, and is watched. -/
def cardWatch : Device SdReg CardWatch Empty where
  answers _ _ _ := true
  read := CardWatch.read
  write := CardWatch.write
  own _ e := e.elim

/-- The values of the accesses of a command that is answered. -/
def watchedCommand : List Nat := List.replicate 8 0 ++ [SD_INTR_CC, 0]

/-- The results for each command that is not answered. -/
def silentResults : List (Int × Nat) :=
  [(-2, 0), (-3, 8), (-5, 55), (-5, 41), (-6, 2), (-7, 3), (-8, 9), (-9, 7)]

/-- What the result of the identification says of the card, which was `before`. -/
inductive Reached (before : CardStage) : Int → CardStage → Prop where
  | absent : Reached before (-1) before
  /-- a command was not answered -/
  | unanswered {ret : Int} {cmd : Nat} (h : (ret, cmd) ∈ silentResults) :
      Reached before ret (.silent cmd)
  /-- or not sent -/
  | reset : Reached before (-2) before
  | voltage : Reached before (-3) .idle
  | pattern : Reached before (-4) .asked
  | announce : Reached before (-5) .fits
  | negotiate : Reached before (-5) .app
  | identify {ocr : Nat} : Reached before (-6) (.ready ocr)
  | publish {ocr : Nat} : Reached before (-7) (.ident ocr)
  | describe {ocr rca : Nat} : Reached before (-8) (.standby ocr rca)
  | select {ocr rca : Nat} : Reached before (-9) (.described ocr rca)
  | selected {ocr rca : Nat} (hready : ocr &&& SD_RESP_READY ≠ 0) (hrca : rca ≠ 0) :
      Reached before (if ocr &&& SD_ACMD41_HCS ≠ 0 then 1 else 0) (.transfer ocr rca)

variable {q q' : CardWatch} {n polls cmd count arg mode c : Nat} {stage : CardStage}

/-- No command out of order beyond `n`. -/
def CardWatch.Clean (n : Nat) (q : CardWatch) : Prop := q.wrong = n

structure CardWatch.At (n : Nat) (stage : CardStage) (q : CardWatch) : Prop where
  sent : q.sent = none
  stage : q.stage = stage
  wrong : q.wrong = n

/-! ## A command -/

theorem card_output {α : Type} {Q : α → CardWatch → Prop} {r : SdReg} {v : Nat}
    {k : Unit → Driver SdReg α} (hn : q.wrong = n) (hr : q.write r v = q)
    (hk : (k ()).Holds cardWatch (CardWatch.Clean n) Q q) :
    (Driver.output r v >>= k).Holds cardWatch (CardWatch.Clean n) Q q := by
  refine Driver.monitor_output hn ?_
  show (k ()).Holds cardWatch (CardWatch.Clean n) Q (q.write r v)
  rw [hr]
  exact hk

theorem cardResult_holds (hn : q.wrong = n) (hsent : q.sent = some c) :
    (Driver.poll commandResult polls).Holds cardWatch (CardWatch.Clean n)
      (fun ret => CardWatch.At n (if ret = 0 then (q.stage.next c q.argmt).getD .unknown
        else q.stage.failed c)) q := by
  refine Driver.holds_poll (P := (· = q)) (fun q₁ h => ?_) polls rfl
  subst h
  refine Driver.monitor_input hn fun v _ => ?_
  have hread : cardWatch.read q₁ .normIntrSts v =
      if v &&& SD_INTR_ERR ≠ 0 then
        { q₁ with
          sent := none
          stage := q₁.stage.failed c }
      else if v &&& SD_INTR_CC ≠ 0 then
        { q₁ with
          sent := none
          stage := (q₁.stage.next c q₁.argmt).getD .unknown }
      else q₁ := by
    show q₁.read .normIntrSts v = _
    simp only [CardWatch.read, hsent]
  rw [hread]
  by_cases herr : v &&& SD_INTR_ERR ≠ 0
  · rw [if_pos herr, if_pos herr]
    exact Driver.monitor_done hn ⟨rfl, rfl, hn⟩
  · rw [if_neg herr, if_neg herr]
    by_cases hcc : v &&& SD_INTR_CC ≠ 0
    · rw [if_pos hcc, if_pos hcc]
      exact Driver.monitor_done hn ⟨rfl, rfl, hn⟩
    · rw [if_neg hcc, if_neg hcc]
      exact Driver.monitor_done hn rfl

/-- A command that the card may be given leads it on if it is answered. -/
theorem cardCmd_holds {stage' : CardStage} (h : q.At n stage)
    (hnext : stage.next (sdFrameCmd cmd) arg = some stage') :
    (sdSpinSendCmd polls cmd count arg mode).Holds cardWatch (CardWatch.Clean n)
      (fun ret q' => if ret = 0 then q'.At n stage'
        else q'.At n stage ∨ q'.At n (stage.failed (sdFrameCmd cmd))) q := by
  refine Driver.monitor_input h.wrong fun v _ => ?_
  have hread : cardWatch.read q .presState v = q := rfl
  rw [hread]
  by_cases hcmd : v &&& SD_PSR_INHIBIT_CMD ≠ 0
  · rw [if_pos hcmd]
    exact Driver.monitor_done h.wrong (Or.inl h)
  · rw [if_neg hcmd]
    by_cases hdat : v &&& SD_PSR_INHIBIT_DAT ≠ 0 ∧ sdFrameCmd cmd &&& SD_DAT_PRESENT ≠ 0
    · rw [if_pos hdat]
      exact Driver.monitor_done h.wrong (Or.inl h)
    · rw [if_neg hdat]
      refine card_output h.wrong rfl (card_output h.wrong rfl (Driver.monitor_output h.wrong ?_))
      obtain ⟨q₁, hq₁⟩ : ∃ q₁, q₁ = cardWatch.write q .argmt arg := ⟨_, rfl⟩
      have hargmt : q₁.argmt = arg := by rw [hq₁]; rfl
      have h₁ : q₁.At n stage := by
        rw [hq₁]
        exact ⟨h.sent, h.stage, h.wrong⟩
      rw [← hq₁]
      refine card_output h₁.wrong rfl (card_output h₁.wrong rfl (card_output h₁.wrong rfl
        (Driver.monitor_output h₁.wrong ?_)))
      obtain ⟨q₂, hq₂⟩ : ∃ q₂, q₂ = cardWatch.write q₁ .cmd (sdFrameCmd cmd) := ⟨_, rfl⟩
      have hstage : q₂.stage = stage := by
        rw [hq₂]
        exact h₁.stage
      have hargmt₂ : q₂.argmt = arg := by
        rw [hq₂]
        exact hargmt
      have hwrong : q₂.wrong = n := by
        have hmay : (q₁.stage.next (sdFrameCmd cmd) q₁.argmt).isSome = true := by
          rw [h₁.stage, hargmt, hnext]
          rfl
        rw [hq₂]
        exact (if_pos hmay).trans h₁.wrong
      have hsent : q₂.sent = some (sdFrameCmd cmd) := by rw [hq₂]; rfl
      rw [← hq₂]
      refine Driver.holds_bind ((cardResult_holds hwrong hsent).mono fun ret q₃ h₃ => ?_)
      rw [hstage, hargmt₂, hnext] at h₃
      by_cases hret : ret = 0
      · rw [if_pos hret] at h₃ ⊢
        refine card_output h₃.wrong ?_ (Driver.monitor_done h₃.wrong ?_)
        · rfl
        · rw [if_pos rfl]
          exact h₃
      · rw [if_neg hret] at h₃ ⊢
        refine Driver.monitor_done h₃.wrong ?_
        rw [if_neg hret]
        exact Or.inr h₃

/-! ## The identification -/

def CardWatch.Out (n : Nat) (before : CardStage) (ret : Int) (q : CardWatch) : Prop :=
  ∃ stage, q.At n stage ∧ Reached before ret stage

variable {before stage' : CardStage} {error : Int} {rest : Driver SdReg Int}

theorem cardError_holds (h : q.At n stage) (hreached : Reached before error stage) :
    (Driver.done error).Holds cardWatch (CardWatch.Clean n) (CardWatch.Out n before) q :=
  Driver.monitor_done h.wrong ⟨stage, h, hreached⟩

theorem cardCommand_holds (h : q.At n stage) (hnext : stage.next (sdFrameCmd cmd) arg = some stage')
    (hplain : sdFrameCmd cmd &&& SD_DAT_PRESENT = 0)
    (herror : (error, sdFrameCmd cmd >>> 8) ∈ silentResults)
    (hreached : Reached before error stage)
    (hrest : ∀ q', q'.At n stage' →
      rest.Holds cardWatch (CardWatch.Clean n) (CardWatch.Out n before) q') :
    (sdCommand polls cmd arg error rest).Holds cardWatch (CardWatch.Clean n)
      (CardWatch.Out n before) q := by
  refine Driver.holds_bind ((cardCmd_holds h hnext).mono fun ret q' h' => ?_)
  by_cases hret : ret = 0
  · rw [if_neg (not_not.2 hret)]
    rw [if_pos hret] at h'
    exact hrest q' h'
  · rw [if_pos hret]
    rw [if_neg hret] at h'
    rcases h' with h' | h'
    · exact cardError_holds h' hreached
    · rw [CardStage.failed, if_neg (not_not.2 hplain)] at h'
      exact cardError_holds h' (.unanswered herror)

theorem cardOpCond_holds (h : q.At n .fits) :
    (opCond polls).Holds cardWatch (CardWatch.Clean n)
      (fun o q' => o.elim (q'.At n .fits) fun r => match r with
        | none => (q'.At n .fits ∨ q'.At n .app) ∨ q'.At n (.silent 55) ∨ q'.At n (.silent 41)
        | some ocr => ocr &&& SD_RESP_READY ≠ 0 ∧ q'.At n (.ready ocr)) q := by
  refine Driver.holds_bind ((cardCmd_holds h rfl).mono fun ret q₁ h₁ => ?_)
  by_cases hret : ret = 0
  · rw [if_neg (not_not.2 hret)]
    rw [if_pos hret] at h₁
    refine Driver.holds_bind ((cardCmd_holds h₁ rfl).mono fun ret q₂ h₂ => ?_)
    by_cases hret : ret = 0
    · rw [if_neg (not_not.2 hret)]
      rw [if_pos hret] at h₂
      refine Driver.monitor_input h₂.wrong fun v _ => ?_
      have htold : (cardWatch.read q₂ .resp0 v).stage =
          if v &&& SD_RESP_READY ≠ 0 then .ready v else .fits := by
        show q₂.stage.told v = _
        rw [h₂.stage]
        rfl
      by_cases hready : v &&& SD_RESP_READY ≠ 0
      · rw [if_pos hready] at htold ⊢
        exact Driver.monitor_done h₂.wrong ⟨hready, h₂.sent, htold, h₂.wrong⟩
      · rw [if_neg hready] at htold ⊢
        exact Driver.monitor_done h₂.wrong ⟨h₂.sent, htold, h₂.wrong⟩
    · rw [if_pos hret]
      rw [if_neg hret] at h₂
      rcases h₂ with h₂ | h₂
      · exact Driver.monitor_done h₂.wrong (Or.inl (Or.inr h₂))
      · exact Driver.monitor_done h₂.wrong (Or.inr (Or.inr h₂))
  · rw [if_pos hret]
    rw [if_neg hret] at h₁
    rcases h₁ with h₁ | h₁
    · exact Driver.monitor_done h₁.wrong (Or.inl (Or.inl h₁))
    · exact Driver.monitor_done h₁.wrong (Or.inr (Or.inl h₁))

theorem cardAddress_holds {ocr : Nat} (h : q.At n (.ident ocr)) :
    (relativeAddress polls).Holds cardWatch (CardWatch.Clean n)
      (fun o q' => o.elim (q'.At n (.ident ocr)) fun r => match r with
        | none => q'.At n (.ident ocr) ∨ q'.At n (.silent 3)
        | some rca => rca ≠ 0 ∧ q'.At n (.standby ocr rca)) q := by
  refine Driver.holds_bind ((cardCmd_holds h rfl).mono fun ret q₁ h₁ => ?_)
  by_cases hret : ret = 0
  · rw [if_neg (not_not.2 hret)]
    rw [if_pos hret] at h₁
    refine Driver.monitor_input h₁.wrong fun v _ => ?_
    have htold : (cardWatch.read q₁ .resp0 v).stage =
        if v &&& 0xFFFF0000 ≠ 0 then .standby ocr (v &&& 0xFFFF0000) else .ident ocr := by
      show q₁.stage.told v = _
      rw [h₁.stage]
      rfl
    dsimp only
    by_cases hrca : v &&& 0xFFFF0000 = 0
    · rw [if_neg (not_not.2 hrca)] at htold
      rw [if_pos hrca]
      exact Driver.monitor_done h₁.wrong ⟨h₁.sent, htold, h₁.wrong⟩
    · rw [if_pos hrca] at htold
      rw [if_neg hrca]
      exact Driver.monitor_done h₁.wrong ⟨hrca, h₁.sent, htold, h₁.wrong⟩
  · rw [if_pos hret]
    rw [if_neg hret] at h₁
    exact Driver.monitor_done (h₁.elim CardWatch.At.wrong CardWatch.At.wrong) h₁

theorem sdSpinInitMemCard_holds (h : q.At n before) :
    (sdSpinInitMemCard polls).Holds cardWatch (CardWatch.Clean n) (CardWatch.Out n before) q := by
  refine Driver.monitor_input h.wrong fun v _ => ?_
  have hread : cardWatch.read q .presState v = q := rfl
  rw [hread]
  by_cases hcard : v &&& SD_PSR_CARD_INSRT = 0
  · rw [if_pos hcard]
    exact cardError_holds h .absent
  · rw [if_neg hcard]
    refine cardCommand_holds h rfl (by decide) (by decide) .reset fun q₁ h₁ => ?_
    refine cardCommand_holds h₁ rfl (by decide) (by decide) .voltage fun q₂ h₂ => ?_
    refine Driver.monitor_input h₂.wrong fun v _ => ?_
    have htold : (cardWatch.read q₂ .resp0 v).stage =
        if v = SD_CMD8_VOL_PATTERN then .fits else .asked := by
      show q₂.stage.told v = _
      rw [h₂.stage]
      rfl
    by_cases hpattern : v ≠ SD_CMD8_VOL_PATTERN
    · rw [if_neg hpattern] at htold
      rw [if_pos hpattern]
      exact cardError_holds ⟨h₂.sent, htold, h₂.wrong⟩ .pattern
    rw [if_pos (not_not.1 hpattern)] at htold
    rw [if_neg hpattern]
    have hfits : CardWatch.At n .fits (cardWatch.read q₂ .resp0 v) := ⟨h₂.sent, htold, h₂.wrong⟩
    refine Driver.holds_bind ((Driver.holds_poll (fun q h => cardOpCond_holds h) polls hfits).mono
      fun ready q₃ h₃ => ?_)
    cases ready with
    | none =>
        rcases h₃ with (h₃ | h₃) | h₃ | h₃
        · exact cardError_holds h₃ .announce
        · exact cardError_holds h₃ .negotiate
        · exact cardError_holds h₃ (.unanswered (by decide))
        · exact cardError_holds h₃ (.unanswered (by decide))
    | some ocr =>
        obtain ⟨hready, h₃⟩ := h₃
        refine cardCommand_holds h₃ rfl (by decide) (by decide) .identify fun q₄ h₄ => ?_
        refine Driver.holds_bind ((Driver.holds_poll (fun q h => cardAddress_holds h) polls h₄).mono
          fun address q₅ h₅ => ?_)
        cases address with
        | none =>
            rcases h₅ with h₅ | h₅
            · exact cardError_holds h₅ .publish
            · exact cardError_holds h₅ (.unanswered (by decide))
        | some rca =>
            obtain ⟨hrca, h₅⟩ := h₅
            refine cardCommand_holds h₅ (if_pos rfl) (by decide) (by decide) .describe fun q₆ h₆ => ?_
            refine cardCommand_holds h₆ (if_pos rfl) (by decide) (by decide) .select fun q₇ h₇ => ?_
            exact cardError_holds h₇ (.selected hready hrca)

/-- Whatever the controller and the card answer, `sd_spin_init_mem_card` gives no command out of order
at any moment, and its result says which stage the card has come to: it is 0 or 1 for a card that has
told that it is ready, been given an address and been selected by it. -/
theorem card_identified (hq : q.sent = none) {es : List (Turn Empty)} {d' : Driver SdReg Int}
    (hrun : run cardWatch.step (sdSpinInitMemCard polls, q) es = some (d', q')) :
    q'.wrong = q.wrong ∧ ∀ ret, d' = .done ret → q'.sent = none ∧ Reached q.stage ret q'.stage := by
  obtain ⟨hclean, hdone⟩ := (sdSpinInitMemCard_holds ⟨hq, rfl, rfl⟩).run hrun
  refine ⟨hclean, fun ret hret => ?_⟩
  obtain ⟨stage, hat, hreached⟩ := hdone ret hret
  rw [hat.stage]
  exact ⟨hat.sent, hreached⟩

/-- The card is not ready at first. -/
theorem card_identified_sample : ∃ q' : CardWatch,
    run cardWatch.step (sdSpinInitMemCard 3, ⟨.unknown, 0, none, 0⟩) (List.map .access
      (SD_PSR_CARD_INSRT :: watchedCommand ++ watchedCommand ++ SD_CMD8_VOL_PATTERN :: watchedCommand ++
        watchedCommand ++ 0 :: watchedCommand ++ watchedCommand ++ SD_RESP_READY :: watchedCommand ++
        watchedCommand ++ 0x10000 :: watchedCommand ++ watchedCommand)) = some (.done 0, q') ∧
    Reached .unknown 0 q'.stage := by
  obtain ⟨q', hrun⟩ := Driver.run_result cardWatch
    (sdSpinInitMemCard 3, ⟨.unknown, 0, none, 0⟩) (List.map .access
      (SD_PSR_CARD_INSRT :: watchedCommand ++ watchedCommand ++ SD_CMD8_VOL_PATTERN :: watchedCommand ++
        watchedCommand ++ 0 :: watchedCommand ++ watchedCommand ++ SD_RESP_READY :: watchedCommand ++
        watchedCommand ++ 0x10000 :: watchedCommand ++ watchedCommand)) (a := 0) (by decide +kernel)
  exact ⟨q', hrun, ((card_identified rfl hrun).2 0 rfl).2⟩

/-! ## The firmware -/

theorem card_done {α : Type} (a : α) : (Driver.done a : Driver SdReg α).Keeps cardWatch
    (CardWatch.Clean n) (CardWatch.At n stage) :=
  fun _ h => Driver.monitor_done h.wrong h

theorem card_input {r : SdReg} (hr : ∀ q : CardWatch, q.At n stage → ∀ v, q.read r v = q) :
    (Driver.input r).Keeps cardWatch (CardWatch.Clean n) (CardWatch.At n stage) := by
  refine fun q h => Driver.monitor_input (k := Driver.done) h.wrong fun v _ => card_done v _ ?_
  show CardWatch.At n stage (q.read r v)
  rw [hr q h]
  exact h

theorem card_setting {r : SdReg} {v : Nat} (hr : ∀ q : CardWatch, q.write r v = q) :
    (Driver.output r v).Keeps cardWatch (CardWatch.Clean n) (CardWatch.At n stage) :=
  fun q h => card_output (k := Driver.done) h.wrong (hr q) (card_done () q h)

theorem card_transferKeeps : TransferKeeps cardWatch (CardWatch.Clean n) (CardWatch.At n stage) where
  done := card_done
  waiting := fun _ h => Driver.monitor_waiting h.wrong
  input r hr := by
    simp only [List.mem_cons, List.not_mem_nil, or_false] at hr
    rcases hr with rfl | rfl | rfl
    · exact card_input fun _ _ _ => rfl
    · refine card_input fun q h v => ?_
      simp only [CardWatch.read, h.sent]
    · exact card_input fun _ _ _ => rfl
  output r hr v := by
    simp only [List.mem_cons, List.not_mem_nil, or_false] at hr
    rcases hr with rfl | rfl | rfl <;> exact card_setting fun _ => rfl

/-- A card that is selected takes transfers, and remains selected whether they succeed or fail. -/
theorem card_read {ocr rca pa : Nat} : (sdDmaSpinRead polls pa count 0).Keeps cardWatch
    (CardWatch.Clean n) (CardWatch.At n (.transfer ocr rca)) := by
  refine sdTransfer_keeps card_transferKeeps fun q h => ?_
  refine (cardCmd_holds h rfl).mono fun ret q' h' => ?_
  by_cases hret : ret = 0
  · rw [if_pos hret] at h'
    exact h'
  · rw [if_neg hret] at h'
    exact h'.elim id id

theorem card_init : (sdInit polls).Keeps cardWatch (CardWatch.Clean n) (CardWatch.At n stage) := by
  have hout : ∀ r ∈ SdReg.settings, ∀ v, (Driver.output r v).Keeps cardWatch (CardWatch.Clean n)
      (CardWatch.At n stage) := by
    intro r hr v
    simp only [SdReg.settings, List.mem_cons, List.not_mem_nil, or_false] at hr
    rcases hr with rfl | rfl | rfl | rfl | rfl | rfl | rfl | rfl | rfl | rfl | rfl | rfl | rfl <;>
      first
      | exact card_setting fun _ => rfl
      | exact fun q h => Driver.monitor_output (k := Driver.done) h.wrong
          (card_done () _ ⟨h.sent, h.stage, h.wrong⟩)
  exact (sdInitController_keeps card_done (card_input fun _ _ _ => rfl) (card_input fun _ _ _ => rfl)
    hout).bind fun _ => hout .blkSize (by decide) 512

theorem firmware_card_holds (h : q.At n stage) :
    (firmwareBootmain polls).Holds cardWatch (CardWatch.Clean n)
      (fun entered q' => entered = true → ∃ ocr rca, q'.At n (.transfer ocr rca) ∧
        ocr &&& SD_RESP_READY ≠ 0 ∧ rca ≠ 0) q := by
  refine Driver.holds_bind ((card_init q h).mono fun _ q₁ h₁ => ?_)
  refine Driver.holds_bind ((sdSpinInitMemCard_holds h₁).mono fun ret q₂ h₂ => ?_)
  obtain ⟨stage', hat, hreached⟩ := h₂
  by_cases hcard : ret = 0 ∨ ret = 1
  · rw [if_pos hcard]
    have hselected : ∃ ocr rca, stage' = .transfer ocr rca ∧ ocr &&& SD_RESP_READY ≠ 0 ∧ rca ≠ 0 := by
      cases hreached with
      | selected hready hrca => exact ⟨_, _, rfl, hready, hrca⟩
      | unanswered h =>
          simp [silentResults] at h
          omega
      | _ => simp at hcard
    obtain ⟨ocr, rca, rfl, hready, hrca⟩ := hselected
    have hdone : ∀ (q' : CardWatch) (b : Bool), q'.At n (.transfer ocr rca) →
        (Driver.done b).Holds cardWatch (CardWatch.Clean n)
          (fun entered q' => entered = true → ∃ ocr rca, q'.At n (.transfer ocr rca) ∧
            ocr &&& SD_RESP_READY ≠ 0 ∧ rca ≠ 0) q' :=
      fun q' b h' => Driver.monitor_done h'.wrong fun _ => ⟨ocr, rca, h', hready, hrca⟩
    refine Driver.holds_bind ((card_read q₂ hat).mono fun ret q₃ h₃ => ?_)
    by_cases hret : ret = 0
    · rw [if_pos hret]
      refine Driver.monitor_input h₃.wrong fun b _ => ?_
      have hread : cardWatch.read q₃ (.memory (0x100000 + 510)) b = q₃ := rfl
      rw [hread]
      by_cases hb : b = 0x55
      · rw [if_pos hb]
        exact Driver.monitor_input h₃.wrong fun b _ => hdone _ _ h₃
      · rw [if_neg hb]
        exact hdone _ _ h₃
    · rw [if_neg hret]
      exact hdone _ _ h₃
  · rw [if_neg hcard]
    exact Driver.monitor_done hat.wrong fun h => absurd h (by decide)

/-- In no run of the firmware a command is out of order, and the boot record is entered only from a
card that has been identified and selected. -/
theorem firmware_card_selected (hq : q.sent = none) {es : List (Turn Empty)} {d' : Driver SdReg Bool}
    (hrun : run cardWatch.step (firmwareBootmain polls, q) es = some (d', q')) :
    q'.wrong = q.wrong ∧ (d' = .done true → ∃ ocr rca, q'.stage = .transfer ocr rca ∧
      ocr &&& SD_RESP_READY ≠ 0 ∧ rca ≠ 0) := by
  obtain ⟨hclean, hdone⟩ := (firmware_card_holds ⟨hq, rfl, rfl⟩).run hrun
  refine ⟨hclean, fun hentered => ?_⟩
  obtain ⟨ocr, rca, hat, hready, hrca⟩ := hdone true hentered rfl
  exact ⟨ocr, rca, hat.stage, hready, hrca⟩

theorem firmware_card_selected_sample : ∃ (vs : List Nat) (q' : CardWatch),
    run cardWatch.step (firmwareBootmain 3, ⟨.unknown, 0, none, 0⟩) (vs.map .access) =
      some (.done true, q') ∧ q'.wrong = 0 := by
  obtain ⟨q', hrun⟩ := Driver.run_result cardWatch
    (firmwareBootmain 3, ⟨.unknown, 0, none, 0⟩) (List.map .access
      ([0, 0, 0, SD_CC_INT_CLK_STABLE] ++ List.replicate 9 0 ++ SD_PSR_CARD_INSRT :: watchedCommand ++
        watchedCommand ++ SD_CMD8_VOL_PATTERN :: watchedCommand ++ watchedCommand ++
        SD_RESP_READY :: watchedCommand ++ watchedCommand ++ 0x10000 :: watchedCommand ++
        watchedCommand ++ SD_PSR_CARD_INSRT :: 0 :: watchedCommand ++ [SD_INTR_TC, 0, 0x55, 0xAA]))
    (a := true) (by decide +kernel)
  exact ⟨_, q', hrun, (firmware_card_selected rfl hrun).1⟩

end Aimv6.Drivers
