import Aimv6.Support.Driver

/-! # The SD controller's driver

`drivers/sd/sd-zynq7000.c` by the accesses to the registers of the controller:
its initialisation, a command, the identification of a memory card, and the two
transfers. `sd_dma_spin_load` and `firmware_bootmain` are their callers that wait
for the controller or go by what they return. Loops give up after `polls` passes.
-/

namespace Aimv6.Drivers

open Support

/-- The registers at the offsets `SD_..._OFFSET`. -/
inductive SdReg where
  | sdmaSysAddr
  | blkSize
  | blkCnt
  | argmt
  | xferMode
  | cmd
  | resp0
  | presState
  | hostCtrl1
  | powerCtrl
  | clkCtrl
  | timeoutCtrl
  | swRst
  | normIntrSts
  | errIntrSts
  | normIntrStsEn
  | errIntrStsEn
  | normIntrSigEn
  | errIntrSigEn
  /-- no register: the byte of memory at an address -/
  | memory (addr : Nat)
deriving DecidableEq, Repr

/-! ## Bits -/

def SD_TM_MUL_SIN_BLK_SEL : Nat := 0x20
def SD_TM_DAT_DIR_SEL : Nat := 0x10
def SD_TM_AUTO_CMD12_EN : Nat := 0x04
def SD_TM_BLK_CNT_EN : Nat := 0x02
def SD_TM_DMA_EN : Nat := 0x01
def SD_PSR_CARD_INSRT : Nat := 0x00010000
def SD_PSR_INHIBIT_DAT : Nat := 0x00000002
def SD_PSR_INHIBIT_CMD : Nat := 0x00000001
def SD_HC_DMA_SDMA : Nat := 0x00
def SD_PC_BUS_VSEL_3V3 : Nat := 0x0E
def SD_PC_BUS_PWR : Nat := 0x01
def SD_CC_SDCLK_FREQ_D128 : Nat := 0x4000
def SD_CC_SD_CLK_EN : Nat := 0x0004
def SD_CC_INT_CLK_STABLE : Nat := 0x0002
def SD_CC_INT_CLK_EN : Nat := 0x0001
def SD_SWRST_ALL_MASK : Nat := 0x00000001
def SD_NORM_INTR_ALL : Nat := 0xFFFF
def SD_INTR_ERR : Nat := 0x8000
def SD_INTR_CARD : Nat := 0x0100
def SD_INTR_DMA : Nat := 0x0008
def SD_INTR_TC : Nat := 0x0002
def SD_INTR_CC : Nat := 0x0001
def SD_ERR_INTR_ALL : Nat := 0xF3FF

/-! ## Commands and responses -/

def SD_DAT_PRESENT : Nat := 0x20
def SD_CMD_INX_CHK_EN : Nat := 0x10
def SD_CMD_CRC_CHK_EN : Nat := 0x08
def SD_CMD_RESP_L48_BSY_CHK : Nat := 0x03
def SD_CMD_RESP_L48 : Nat := 0x02
def SD_CMD_RESP_L136 : Nat := 0x01
def SD_CMD_RESP_NONE : Nat := 0x00
def SD_CMD0 : Nat := 0x0000
def SD_CMD1 : Nat := 0x0100
def SD_CMD2 : Nat := 0x0200
def SD_CMD3 : Nat := 0x0300
def SD_CMD4 : Nat := 0x0400
def SD_CMD5 : Nat := 0x0500
def SD_CMD6 : Nat := 0x0600
def SD_CMD7 : Nat := 0x0700
def SD_CMD8 : Nat := 0x0800
def SD_CMD9 : Nat := 0x0900
def SD_CMD10 : Nat := 0x0A00
def SD_CMD12 : Nat := 0x0C00
def SD_CMD16 : Nat := 0x1000
def SD_CMD17 : Nat := 0x1100
def SD_CMD18 : Nat := 0x1200
def SD_CMD23 : Nat := 0x1700
def SD_CMD24 : Nat := 0x1800
def SD_CMD25 : Nat := 0x1900
def SD_CMD52 : Nat := 0x3400
def SD_CMD55 : Nat := 0x3700
def SD_ACMD6 : Nat := 0x8600
def SD_ACMD13 : Nat := 0x8D00
def SD_ACMD23 : Nat := 0x9700
def SD_ACMD41 : Nat := 0xA900
def SD_ACMD42 : Nat := 0xAA00
def SD_ACMD51 : Nat := 0xB300
def SD_RESP_NONE : Nat := SD_CMD_RESP_NONE
def SD_RESP_R1 : Nat := SD_CMD_RESP_L48 ||| SD_CMD_CRC_CHK_EN ||| SD_CMD_INX_CHK_EN
def SD_RESP_R1B : Nat := SD_CMD_RESP_L48_BSY_CHK ||| SD_CMD_CRC_CHK_EN ||| SD_CMD_INX_CHK_EN
def SD_RESP_R2 : Nat := SD_CMD_RESP_L136 ||| SD_CMD_CRC_CHK_EN
def SD_RESP_R3 : Nat := SD_CMD_RESP_L48
def SD_RESP_R6 : Nat := SD_CMD_RESP_L48_BSY_CHK ||| SD_CMD_CRC_CHK_EN ||| SD_CMD_INX_CHK_EN
def SD_CMD8_VOL_PATTERN : Nat := 0x01AA
def SD_RESP_READY : Nat := 0x80000000
def SD_ACMD41_HCS : Nat := 0x40000000
def SD_ACMD41_3V3 : Nat := 0x00300000

/-- The cases of the switch in `sd_frame_cmd`. -/
def frames : List (List Nat × Nat) :=
  [([SD_CMD0, SD_CMD4], SD_RESP_NONE),
    ([SD_ACMD6, SD_CMD7, SD_CMD10, SD_CMD12, SD_ACMD13, SD_CMD16, SD_ACMD42, SD_CMD52, SD_CMD55],
      SD_RESP_R1),
    ([SD_CMD17, SD_CMD18, SD_CMD23, SD_ACMD23, SD_CMD24, SD_CMD25, SD_ACMD51],
      SD_RESP_R1 ||| SD_DAT_PRESENT),
    ([SD_CMD5], SD_RESP_R1B),
    ([SD_CMD2, SD_CMD9], SD_RESP_R2),
    ([SD_CMD1, SD_ACMD41], SD_RESP_R3),
    ([SD_CMD3], SD_RESP_R6),
    ([SD_CMD6], SD_RESP_R1 ||| SD_DAT_PRESENT),
    ([SD_CMD8], SD_RESP_R1)]

def sdFrameCmd (cmd : Nat) : Nat :=
  let cmd := match frames.find? fun r => r.1.contains cmd with
    | some r => cmd ||| r.2
    | none => cmd
  cmd &&& 0x3FFF

/-! ## The functions -/

/-- The transfer mode for `mode`. -/
def transferMode (mode : Nat) : Nat :=
  match mode with
  | 1 => SD_TM_MUL_SIN_BLK_SEL ||| SD_TM_DAT_DIR_SEL ||| SD_TM_AUTO_CMD12_EN ||| SD_TM_BLK_CNT_EN |||
      SD_TM_DMA_EN
  | 2 => SD_TM_MUL_SIN_BLK_SEL ||| SD_TM_AUTO_CMD12_EN ||| SD_TM_BLK_CNT_EN ||| SD_TM_DMA_EN
  | _ => SD_TM_DMA_EN

/-- The loop of `sd_spin_send_cmd`. -/
def commandResult : Driver SdReg (Option Int) := do
  let result ← Driver.input .normIntrSts
  pure (if result &&& SD_INTR_ERR ≠ 0 then some (-3)
    else if result &&& SD_INTR_CC ≠ 0 then some 0
    else none)

def sdSpinSendCmd (polls cmd count arg mode : Nat) : Driver SdReg Int := do
  let cmd := sdFrameCmd cmd
  let state ← Driver.input .presState
  if state &&& SD_PSR_INHIBIT_CMD ≠ 0 then pure (-1)
  else if state &&& SD_PSR_INHIBIT_DAT ≠ 0 ∧ cmd &&& SD_DAT_PRESENT ≠ 0 then pure (-2)
  else do
    Driver.output .blkCnt count
    Driver.output .timeoutCtrl 0xE
    Driver.output .argmt arg
    Driver.output .normIntrSts SD_NORM_INTR_ALL
    Driver.output .errIntrSts SD_ERR_INTR_ALL
    Driver.output .xferMode (transferMode mode)
    Driver.output .cmd cmd
    let result ← Driver.poll commandResult polls
    if result = 0 then do
      Driver.output .normIntrSts SD_INTR_CC
      pure 0
    else pure result

/-- A command, and the error that its failure is for the caller. -/
def sdCommand (polls cmd arg : Nat) (error : Int) (rest : Driver SdReg Int) : Driver SdReg Int := do
  let ret ← sdSpinSendCmd polls cmd 0 arg 0
  if ret ≠ 0 then pure error else rest

/-- A pass of the loop on `ACMD41`: an error, or the response when the card is ready. -/
def opCond (polls : Nat) : Driver SdReg (Option (Option Nat)) := do
  let ret ← sdSpinSendCmd polls SD_CMD55 0 0 0
  if ret ≠ 0 then pure (some none)
  else do
    let ret ← sdSpinSendCmd polls SD_ACMD41 0 (SD_ACMD41_HCS ||| SD_ACMD41_3V3) 0
    if ret ≠ 0 then pure (some none)
    else do
      let resp ← Driver.input .resp0
      pure (if resp &&& SD_RESP_READY ≠ 0 then some (some resp) else none)

/-- A pass of the loop on `CMD3`: an error, or the address of the card. -/
def relativeAddress (polls : Nat) : Driver SdReg (Option (Option Nat)) := do
  let ret ← sdSpinSendCmd polls SD_CMD3 0 0 0
  if ret ≠ 0 then pure (some none)
  else do
    let resp ← Driver.input .resp0
    let resp := resp &&& 0xFFFF0000
    pure (if resp = 0 then none else some (some resp))

def sdSpinInitMemCard (polls : Nat) : Driver SdReg Int := do
  let state ← Driver.input .presState
  if state &&& SD_PSR_CARD_INSRT = 0 then pure (-1)
  else
    sdCommand polls SD_CMD0 0 (-2) <|
    sdCommand polls SD_CMD8 SD_CMD8_VOL_PATTERN (-3) do
    let resp ← Driver.input .resp0
    if resp ≠ SD_CMD8_VOL_PATTERN then pure (-4)
    else do
      let ready ← Driver.poll (opCond polls) polls
      match ready with
      | none => pure (-5)
      | some resp =>
          let cardtype : Int := if resp &&& SD_ACMD41_HCS ≠ 0 then 1 else 0
          sdCommand polls SD_CMD2 0 (-6) do
          let address ← Driver.poll (relativeAddress polls) polls
          match address with
          | none => pure (-7)
          | some resp =>
              sdCommand polls SD_CMD9 resp (-8) <|
              sdCommand polls SD_CMD7 resp (-9) <|
              pure cardtype

/-- The branch on `SD_INTR_DMA`; `resume va next` gives the new `va` and the address to go on with. -/
def dmaBoundary (resume : Nat → Nat → Nat × Nat) (va state16 : Nat) : Driver SdReg Nat :=
  if state16 &&& SD_INTR_DMA ≠ 0 then do
    let nextPaddr ← Driver.input .sdmaSysAddr
    Driver.output .normIntrSts SD_INTR_DMA
    Driver.output .sdmaSysAddr (resume va nextPaddr).2
    pure (resume va nextPaddr).1
  else pure va

def transferPass (resume : Nat → Nat → Nat × Nat) (va : Nat) : Driver SdReg (Option Int × Nat) := do
  let state16 ← Driver.input .normIntrSts
  if state16 &&& SD_INTR_ERR ≠ 0 then do
    Driver.output .errIntrSts SD_ERR_INTR_ALL
    pure (some (-3), va)
  else do
    let va ← dmaBoundary resume va state16
    pure (if state16 &&& SD_INTR_TC ≠ 0 then some 0 else none, va)

def transferLoop (resume : Nat → Nat → Nat × Nat) : Nat → Nat → Driver SdReg Int
  | 0, _ => .waiting
  | n + 1, va => do
      let r ← transferPass resume va
      match r.1 with
      | some ret => pure ret
      | none => transferLoop resume n r.2

def sdTransfer (polls cmd mode pa count offset : Nat) (resume : Nat → Nat → Nat × Nat) (va : Nat) :
    Driver SdReg Int := do
  let state32 ← Driver.input .presState
  if state32 &&& SD_PSR_CARD_INSRT = 0 then pure (-1)
  else do
    Driver.output .sdmaSysAddr pa
    let ret ← sdSpinSendCmd polls cmd count offset mode
    if ret ≠ 0 then pure (-2)
    else do
      let ret ← transferLoop resume polls va
      if ret = 0 then do
        Driver.output .normIntrSts SD_INTR_TC
        pure 0
      else pure ret

def sdDmaSpinRead (polls pa count offset : Nat) : Driver SdReg Int :=
  sdTransfer polls SD_CMD18 1 pa count offset (fun va next => (va, next)) 0

def sdDmaSpinWrite (polls pa count offset : Nat) : Driver SdReg Int :=
  sdTransfer polls SD_CMD25 2 pa count offset (fun va next => (va, next)) 0

/-- `sd_dma_spin_load(va, count, offset, page_table)`; `walk va` is what `walk_v2p` finds. -/
def sdDmaSpinLoad (polls : Nat) (walk : Nat → Nat) (va count offset : Nat) : Driver SdReg Int :=
  sdTransfer polls SD_CMD18 1 (walk va) count offset (fun va next =>
    if next % 4096 = 0 then (va + 0x1000, walk (va + 0x1000)) else (va, next)) va

/-- `sd_init()` up to the block size. -/
def sdInitController (polls : Nat) : Driver SdReg Unit := do
  Driver.output .swRst SD_SWRST_ALL_MASK
  Driver.poll (do
    let v ← Driver.input .swRst
    pure (if v &&& SD_SWRST_ALL_MASK ≠ 0 then none else some ())) polls
  Driver.output .clkCtrl (SD_CC_SDCLK_FREQ_D128 ||| SD_CC_INT_CLK_EN)
  Driver.poll (do
    let v ← Driver.input .clkCtrl
    pure (if v &&& SD_CC_INT_CLK_STABLE = 0 then none else some ())) polls
  let tmp16 ← Driver.input .clkCtrl
  Driver.output .clkCtrl (tmp16 ||| SD_CC_SD_CLK_EN)
  Driver.output .powerCtrl (SD_PC_BUS_VSEL_3V3 ||| SD_PC_BUS_PWR)
  Driver.output .hostCtrl1 SD_HC_DMA_SDMA
  Driver.output .normIntrStsEn (SD_NORM_INTR_ALL - SD_INTR_CARD)
  Driver.output .errIntrStsEn SD_ERR_INTR_ALL
  Driver.output .normIntrSigEn 0x0
  Driver.output .errIntrSigEn 0x0

def sdInit (polls : Nat) : Driver SdReg Unit := do
  sdInitController polls
  Driver.output .blkSize 512

/-- `firmware_bootmain()` from `sd_init` on, without what it prints: whether it enters the boot
record, which lies at `0x100000`. -/
def firmwareBootmain (polls : Nat) : Driver SdReg Bool := do
  let mbr := 0x100000
  sdInit polls
  let ret ← sdSpinInitMemCard polls
  if ret = 0 ∨ ret = 1 then do
    let ret ← sdDmaSpinRead polls mbr 1 0
    if ret = 0 then do
      let b ← Driver.input (.memory (mbr + 510))
      if b = 0x55 then do
        let b ← Driver.input (.memory (mbr + 511))
        pure (b = 0xAA)
      else pure false
    else pure false
  else pure false

/-! ## What the calls keep -/

section Keeps

variable {μ ε : Type} {D : Device SdReg μ ε} {I R : μ → Prop} {polls cmd arg : Nat} {error : Int}
  {rest : Driver SdReg Int}

/-- A condition that no command without data and no reading of the registers for it touches. -/
structure SdKeeps (D : Device SdReg μ ε) (I R : μ → Prop) (polls : Nat) : Prop where
  done : ∀ {α : Type} (a : α), (Driver.done a : Driver SdReg α).Keeps D I R
  presState : (Driver.input .presState).Keeps D I R
  resp0 : (Driver.input .resp0).Keeps D I R
  command : ∀ cmd arg, sdFrameCmd cmd &&& SD_DAT_PRESENT = 0 →
    (sdSpinSendCmd polls cmd 0 arg 0).Keeps D I R

theorem sdCommand_keeps (h : SdKeeps D I R polls) (hcmd : sdFrameCmd cmd &&& SD_DAT_PRESENT = 0)
    (hrest : rest.Keeps D I R) : (sdCommand polls cmd arg error rest).Keeps D I R :=
  (h.command cmd arg hcmd).bind fun _ => .ite (h.done _) hrest

theorem opCond_keeps (h : SdKeeps D I R polls) : (opCond polls).Keeps D I R :=
  (h.command SD_CMD55 0 (by decide)).bind fun _ => .ite (h.done _) <|
    (h.command SD_ACMD41 _ (by decide)).bind fun _ => .ite (h.done _) <|
      h.resp0.bind fun _ => h.done _

theorem relativeAddress_keeps (h : SdKeeps D I R polls) : (relativeAddress polls).Keeps D I R :=
  (h.command SD_CMD3 0 (by decide)).bind fun _ => .ite (h.done _) <| h.resp0.bind fun _ => h.done _

theorem sdSpinInitMemCard_keeps (h : SdKeeps D I R polls) : (sdSpinInitMemCard polls).Keeps D I R := by
  refine h.presState.bind fun state => .ite (h.done _) ?_
  refine sdCommand_keeps h (by decide) (sdCommand_keeps h (by decide) ?_)
  refine h.resp0.bind fun resp => .ite (h.done _) (((opCond_keeps h).poll polls).bind fun ready => ?_)
  cases ready with
  | none => exact h.done _
  | some resp =>
      refine sdCommand_keeps h (by decide) (((relativeAddress_keeps h).poll polls).bind fun address => ?_)
      cases address with
      | none => exact h.done _
      | some resp => exact sdCommand_keeps h (by decide) (sdCommand_keeps h (by decide) (h.done _))

variable {resume : Nat → Nat → Nat × Nat} {va pa count offset mode : Nat}

/-- A condition that no access on the way of a transfer touches. -/
structure TransferKeeps (D : Device SdReg μ ε) (I R : μ → Prop) : Prop where
  done : ∀ {α : Type} (a : α), (Driver.done a : Driver SdReg α).Keeps D I R
  waiting : ∀ {α : Type}, (Driver.waiting : Driver SdReg α).Keeps D I R
  input : ∀ r ∈ [SdReg.presState, .normIntrSts, .sdmaSysAddr], (Driver.input r).Keeps D I R
  output : ∀ r ∈ [SdReg.sdmaSysAddr, .normIntrSts, .errIntrSts], ∀ v, (Driver.output r v).Keeps D I R

theorem transferPass_keeps (h : TransferKeeps D I R) : (transferPass resume va).Keeps D I R := by
  refine (h.input .normIntrSts (by decide)).bind fun state => .ite ?_ ?_
  · exact (h.output .errIntrSts (by decide) _).bind fun _ => h.done _
  · refine Driver.Keeps.bind (.ite ?_ (h.done _)) fun _ => h.done _
    refine (h.input .sdmaSysAddr (by decide)).bind fun next => ?_
    refine (h.output .normIntrSts (by decide) _).bind fun _ => ?_
    exact (h.output .sdmaSysAddr (by decide) _).bind fun _ => h.done _

theorem transferLoop_keeps (h : TransferKeeps D I R) (passes : Nat) :
    (transferLoop resume passes va).Keeps D I R := by
  induction passes generalizing va with
  | zero => exact h.waiting
  | succ passes ih =>
      refine (transferPass_keeps h).bind fun r => ?_
      cases r.1 with
      | none => exact ih
      | some ret => exact h.done _

theorem sdTransfer_keeps (h : TransferKeeps D I R)
    (hcmd : (sdSpinSendCmd polls cmd count offset mode).Keeps D I R) :
    (sdTransfer polls cmd mode pa count offset resume va).Keeps D I R := by
  refine (h.input .presState (by decide)).bind fun state => .ite (h.done _) ?_
  refine (h.output .sdmaSysAddr (by decide) _).bind fun _ => hcmd.bind fun ret => .ite (h.done _) ?_
  refine (transferLoop_keeps h polls).bind fun ret => .ite ?_ (h.done _)
  exact (h.output .normIntrSts (by decide) _).bind fun _ => h.done _

def SdReg.settings : List SdReg :=
  [.blkSize, .blkCnt, .argmt, .xferMode, .hostCtrl1, .powerCtrl, .clkCtrl, .timeoutCtrl, .swRst,
    .normIntrStsEn, .errIntrStsEn, .normIntrSigEn, .errIntrSigEn]

theorem sdInitController_keeps (hdone : ∀ {α : Type} (a : α), (Driver.done a : Driver SdReg α).Keeps D I R)
    (hrst : (Driver.input .swRst).Keeps D I R) (hclk : (Driver.input .clkCtrl).Keeps D I R)
    (hout : ∀ r ∈ SdReg.settings, ∀ v, (Driver.output r v).Keeps D I R) :
    (sdInitController polls).Keeps D I R := by
  refine (hout .swRst (by decide) _).bind fun _ => ?_
  refine (Driver.Keeps.poll (hrst.bind fun _ => hdone _) polls).bind fun _ => ?_
  refine (hout .clkCtrl (by decide) _).bind fun _ => ?_
  refine (Driver.Keeps.poll (hclk.bind fun _ => hdone _) polls).bind fun _ => ?_
  refine hclk.bind fun _ => ?_
  refine (hout .clkCtrl (by decide) _).bind fun _ => ?_
  refine (hout .powerCtrl (by decide) _).bind fun _ => ?_
  refine (hout .hostCtrl1 (by decide) _).bind fun _ => ?_
  refine (hout .normIntrStsEn (by decide) _).bind fun _ => ?_
  refine (hout .errIntrStsEn (by decide) _).bind fun _ => ?_
  refine (hout .normIntrSigEn (by decide) _).bind fun _ => ?_
  exact hout .errIntrSigEn (by decide) _

end Keeps

end Aimv6.Drivers
