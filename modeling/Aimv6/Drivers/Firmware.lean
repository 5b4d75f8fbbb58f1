import Aimv6.Drivers.SdStore

/-! # The firmware

`firmware_bootmain` with the controller: what it leaves in memory, and when it
enters the boot record.
-/

namespace Aimv6.Drivers

open Support

variable {s : Memory × Memory} {q q' : SdController} {I : SdController → Prop} {u polls : Nat}

def Untouched (s : Memory × Memory) (u : Nat) (q : SdController) : Prop := q.Ready u ∧ q.image = s

theorem untouched_done {α : Type} (hI : ∀ q, q.image = s → I q) (a : α) :
    (Driver.done a : Driver SdReg α).Keeps sdController I (Untouched s u) :=
  fun q hq => Driver.still_done (fun _ => SdController.own_idle hq.1.idle) (hI q hq.2) hq

theorem untouched_input (hI : ∀ q, q.image = s → I q) (r : SdReg) :
    (Driver.input r).Keeps sdController I (Untouched s u) :=
  fun q hq => Driver.still_input (fun _ => SdController.own_idle hq.1.idle) (hI q hq.2) fun _ _ =>
    untouched_done hI _ q hq

theorem untouched_command (hI : ∀ q, q.image = s → I q) {cmd arg : Nat}
    (hplain : sdFrameCmd cmd &&& SD_DAT_PRESENT = 0) :
    (sdSpinSendCmd polls cmd 0 arg 0).Keeps sdController I (Untouched s u) := by
  intro q hq
  obtain ⟨j, hj⟩ : ∃ j : SdJob, j = ⟨false, arg * u, 0, q.sysAddr, 0, fun va a => (va, a)⟩ := ⟨_, rfl⟩
  have htotal : j.total = 0 := by rw [hj]
  have himage : ∀ {q' : SdController}, j.Holding s u q' → q'.image = s := by
    intro q' h
    obtain ⟨n, hn, hmoved⟩ := h.partway
    rw [htotal, Nat.le_zero] at hn
    rw [hmoved, hn]
    rfl
  have hbegins : j.Begins u cmd 0 0 arg := by
    rw [hj]
    exact ⟨Or.inr rfl, rfl, rfl, rfl⟩
  have hrest : ∀ {q' : SdController}, q'.phase = .idle → j.Holding s u q' → Untouched s u q' :=
    fun hidle h => ⟨⟨hidle, h.blkSize, h.unit⟩, himage h⟩
  refine (sendCmd_runs hbegins ⟨hq.1.idle, hq.1.blkSize, hq.1.unit, 0, Nat.zero_le _, hq.2⟩ hq.2
    (by rw [hj])).weaken (fun q' h => hI q' (himage h)) fun ret q' h => ?_
  by_cases hret : ret = 0
  · rw [if_pos hret] at h
    exact hrest (h.2 hplain) (SdJob.holding_runs h.1)
  · rw [if_neg hret] at h
    exact hrest h.idle h.holding

theorem untouched_keeps (hI : ∀ q, q.image = s → I q) :
    SdKeeps sdController I (Untouched s u) polls where
  done := untouched_done hI
  presState := untouched_input hI .presState
  resp0 := untouched_input hI .resp0
  command _ _ hplain := untouched_command hI hplain

theorem write_settings (hidle : q.phase = .idle) {r : SdReg} (hr : r ∈ SdReg.settings) (v : Nat) :
    (q.write r v).phase = .idle ∧ (q.write r v).unit = q.unit ∧ (q.write r v).image = q.image := by
  have hreset : (q.write .swRst v).phase = .idle ∧ (q.write .swRst v).unit = q.unit ∧
      (q.write .swRst v).image = q.image := by
    simp only [SdController.write]
    split
    · exact ⟨rfl, rfl, rfl⟩
    · exact ⟨hidle, rfl, rfl⟩
  simp only [SdReg.settings, List.mem_cons, List.not_mem_nil, or_false] at hr
  rcases hr with rfl | rfl | rfl | rfl | rfl | rfl | rfl | rfl | rfl | rfl | rfl | rfl | rfl <;>
    first
    | exact ⟨hidle, rfl, rfl⟩
    | exact hreset

theorem sdInit_untouched (hI : ∀ q, q.image = s → I q) (hidle : q.phase = .idle) (hunit : q.unit = u)
    (himage : q.image = s) :
    (sdInit polls).Holds sdController I (fun _ => Untouched s u) q := by
  have hdone : ∀ {α : Type} (a : α), (Driver.done a : Driver SdReg α).Keeps sdController I
      (fun q => q.phase = .idle ∧ q.unit = u ∧ q.image = s) := fun a q hq =>
    Driver.still_done (fun _ => SdController.own_idle hq.1) (hI q hq.2.2) hq
  have hin : ∀ r, (Driver.input r).Keeps sdController I
      (fun q => q.phase = .idle ∧ q.unit = u ∧ q.image = s) := fun r q hq =>
    Driver.still_input (fun _ => SdController.own_idle hq.1) (hI q hq.2.2) fun v _ => hdone v q hq
  have hout : ∀ r ∈ SdReg.settings, ∀ v, (Driver.output r v).Keeps sdController I
      (fun q => q.phase = .idle ∧ q.unit = u ∧ q.image = s) := by
    intro r hr v q hq
    refine Driver.still_output (k := Driver.done) (fun _ => SdController.own_idle hq.1) (hI q hq.2.2)
      (hdone () _ ?_)
    obtain ⟨hphase, hunit, himage⟩ := write_settings hq.1 hr v
    exact ⟨hphase, hunit.trans hq.2.1, himage.trans hq.2.2⟩
  refine Driver.holds_bind ((sdInitController_keeps hdone (hin _) (hin _) hout q
    ⟨hidle, hunit, himage⟩).mono fun _ q₁ h₁ => ?_)
  refine Driver.still_output (k := Driver.done) (fun _ => SdController.own_idle h₁.1) (hI q₁ h₁.2.2) ?_
  exact untouched_done hI () _ ⟨⟨h₁.1, rfl, h₁.2.1⟩, h₁.2.2⟩

/-- So many bytes of the first block are at the place of the boot record. -/
def BootRecord (s : Memory × Memory) (n : Nat) (q : SdController) : Prop :=
  q.mem = storeBytes 0x100000 n s.2 s.1 ∧ q.card = s.2

theorem bootRecord_zero (h : q.image = s) : BootRecord s 0 q := by
  refine ⟨(congrArg Prod.fst h).trans (funext fun b => ?_), congrArg Prod.snd h⟩
  exact (storeBytes_out (by omega)).symm

theorem bootRecord_moves {n : Nat} (hn : n ≤ 512)
    (h : q.image = ((SdTransfer.read 0x100000 1 0).job u).moves s n) : BootRecord s n q := by
  have hflat : ∀ i < n, (((SdTransfer.read 0x100000 1 0).job u).route i).2 = 0x100000 + i :=
    fun i hi => congrArg Prod.snd (route_flat rfl (show 0x100000 + i < 4294967296 by omega))
  have hstart : ((SdTransfer.read 0x100000 1 0).job u).start = 0 := Nat.zero_mul u
  rw [moves_read rfl hflat, hstart] at h
  simp only [Nat.zero_add] at h
  exact ⟨congrArg Prod.fst h, congrArg Prod.snd h⟩

theorem firmware_holds (hidle : q.phase = .idle) :
    (firmwareBootmain polls).Holds sdController (fun q' => ∃ n ≤ 512, BootRecord q.image n q')
      (fun entered q' => entered = true → q'.Ready q.unit ∧
        BootRecord q.image 512 q' ∧ q.card 510 = 0x55 ∧ q.card 511 = 0xAA) q := by
  have hI : ∀ q', q'.image = q.image → ∃ n ≤ 512, BootRecord q.image n q' :=
    fun q' h => ⟨0, Nat.zero_le _, bootRecord_zero h⟩
  have hstop : ∀ {q' : SdController}, q'.phase = .idle → (∃ n ≤ 512, BootRecord q.image n q') →
      (Driver.done false).Holds sdController (fun q' => ∃ n ≤ 512, BootRecord q.image n q')
        (fun entered q' => entered = true → q'.Ready q.unit ∧
          BootRecord q.image 512 q' ∧ q.card 510 = 0x55 ∧ q.card 511 = 0xAA) q' :=
    fun hidle h => Driver.still_done (fun _ => SdController.own_idle hidle) h (fun h => absurd h (by decide))
  refine Driver.holds_bind ((sdInit_untouched hI hidle rfl rfl).mono fun _ q₁ h₁ => ?_)
  refine Driver.holds_bind ((sdSpinInitMemCard_keeps (untouched_keeps hI) q₁ h₁).mono
    fun ret q₂ h₂ => ?_)
  have hread := @SdTransfer.holds _ polls _ (.read 0x100000 1 0) h₂.1
  rw [h₂.2] at hread
  by_cases hcard : ret = 0 ∨ ret = 1
  · rw [if_pos hcard]
    refine Driver.holds_bind ((hread.weaken (fun q₃ h₃ => ?_) fun ret q₃ h₃ => h₃).mono
      fun ret q₃ h₃ => ?_)
    · obtain ⟨n, hn, hmoved⟩ := h₃.partway
      exact ⟨n, hn, bootRecord_moves hn hmoved⟩
    · by_cases hret : ret = 0
      · rw [if_pos hret]
        have hall : BootRecord q.image 512 q₃ := bootRecord_moves le_rfl (h₃.all hret)
        have hbyte : ∀ i < 512, q₃.mem (0x100000 + i) = q.card i := by
          intro i hi
          rw [hall.1, storeBytes_in (by omega) (by omega), Nat.add_sub_cancel_left]
          rfl
        refine Driver.still_input (fun _ => SdController.own_idle h₃.idle) ⟨512, le_rfl, hall⟩
          fun b hb => ?_
        have hb : b = (q.card 510).toNat := (of_decide_eq_true hb).trans
          (congrArg UInt8.toNat (hbyte 510 (by decide)))
        by_cases hfirst : b = 0x55
        · rw [if_pos hfirst]
          refine Driver.still_input (fun _ => SdController.own_idle h₃.idle) ⟨512, le_rfl, hall⟩
            fun b' hb' => ?_
          have hb' : b' = (q.card 511).toNat := (of_decide_eq_true hb').trans
            (congrArg UInt8.toNat (hbyte 511 (by decide)))
          refine Driver.still_done (fun _ => SdController.own_idle h₃.idle) ⟨512, le_rfl, hall⟩
            fun hsecond => ⟨⟨h₃.idle, h₃.holding.blkSize, h₃.holding.unit⟩, hall,
              UInt8.toNat_inj.1 ?_, UInt8.toNat_inj.1 ?_⟩
          · rw [← hb, hfirst]
            rfl
          · rw [← hb', of_decide_eq_true hsecond]
            rfl
        · rw [if_neg hfirst]
          exact hstop h₃.idle ⟨512, le_rfl, hall⟩
      · rw [if_neg hret]
        obtain ⟨n, hn, hmoved⟩ := h₃.holding.partway
        exact hstop h₃.idle ⟨n, hn, bootRecord_moves hn hmoved⟩
  · rw [if_neg hcard]
    exact hstop h₂.1.idle (hI q₂ h₂.2)

/-- Whatever the controller does, the firmware changes no memory but the place of the boot record,
which holds a part of the card's first block, and nothing on the card; and it enters the boot record
only when it holds the whole block and the block ends in `0x55 0xAA`. -/
theorem firmware_boots (hidle : q.phase = .idle) {es : List (Turn SdMove)} {d' : Driver SdReg Bool}
    (hrun : run sdController.step (firmwareBootmain polls, q) es = some (d', q')) :
    (∃ n ≤ 512, q'.mem = storeBytes 0x100000 n q.card q.mem ∧ q'.card = q.card) ∧
      (d' = .done true → q'.mem = storeBytes 0x100000 512 q.card q.mem ∧
        q.card 510 = 0x55 ∧ q.card 511 = 0xAA) := by
  obtain ⟨hpart, hdone⟩ := (firmware_holds hidle).run hrun
  refine ⟨hpart, fun hentered => ?_⟩
  obtain ⟨-, ⟨hmem, -⟩, hbytes⟩ := hdone true hentered rfl
  exact ⟨hmem, hbytes⟩

/-- From reset to the boot record. -/
theorem firmware_boots_sample : ∃ (es : List (Turn SdMove)) (q' : SdController),
    run sdController.step (firmwareBootmain 2, SdController.fresh (fun _ => 0)
      fun a => if a = 510 then 0x55 else if a = 511 then 0xAA else 0) es = some (.done true, q') ∧
    q'.mem = storeBytes 0x100000 512
      (fun a => if a = 510 then 0x55 else if a = 511 then 0xAA else 0) fun _ => 0 := by
  obtain ⟨q', hrun⟩ := Driver.run_result sdController
    (firmwareBootmain 2, SdController.fresh (fun _ => 0)
      fun a => if a = 510 then 0x55 else if a = 511 then 0xAA else 0)
    (List.replicate 3 (.access 0) ++ .access SD_CC_INT_CLK_STABLE :: List.replicate 9 (.access 0) ++
      .access SD_PSR_CARD_INSRT :: SdController.answered ++ SdController.answered ++
      .access SD_CMD8_VOL_PATTERN :: SdController.answered ++ SdController.answered ++
      .access SD_RESP_READY :: SdController.answered ++ SdController.answered ++
      .access 0x10000 :: SdController.answered ++ SdController.answered ++ SdController.turns 512 ++
      [.own .complete, .access SD_INTR_TC, .access 0, .access 0x55, .access 0xAA]) (a := true)
    (by decide +kernel)
  exact ⟨_, q', hrun, ((firmware_boots rfl hrun).2 rfl).1⟩

end Aimv6.Drivers
