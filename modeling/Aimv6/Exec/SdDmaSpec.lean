import Aimv6.Exec.SdDma
import Aimv6.Mm.MmapSpec

/-! # Transfers into an address space

The frames of consecutive pages lie anywhere. `sd_dma_spin_load` re-targets the
controller at each boundary by the walk that the memory management unit makes,
so that the bytes arrive where the process sees them.
-/

namespace Aimv6.Exec

open Support Mm

variable {sd : SdCard} {s s' s₁ : State} {M : Space} {pt va v k f offset total count : Nat}

/-! ## The walk of the driver -/

theorem frameMask {w : Nat} (hw : w < 4294967296) : w &&& 0xFFFFF000 = w / 4096 * 4096 := by
  have hshift : w / 4096 * 4096 = w >>> 12 <<< 12 := by
    rw [Nat.shiftRight_eq_div_pow, Nat.shiftLeft_eq]
  have hmask : 0xFFFFF000 = (2 ^ 20 - 1) <<< 12 := by decide
  rw [hshift, hmask]
  apply Nat.eq_of_testBit_eq
  intro i
  rw [Nat.testBit_and, Nat.testBit_shiftLeft, Nat.testBit_shiftLeft, Nat.testBit_two_pow_sub_one,
    Nat.testBit_shiftRight]
  by_cases hlow : 12 ≤ i
  · rw [show 12 + (i - 12) = i by omega]
    by_cases hhigh : i < 32
    · simp [hlow, show i - 12 < 20 by omega]
    · have hbit : w.testBit i = false :=
        Nat.testBit_lt_two_pow (Nat.lt_of_lt_of_le (m := 2 ^ 32) hw
          (Nat.pow_le_pow_right (by decide) (by omega)))
      simp [hbit]
  · simp [hlow]

theorem walkV2p_eq (h : Maps s pt M) (hva : va < 2147483648) (hf : M.frame (va / 4096) = some f) :
    walkV2p s va pt = f := by
  have hpt := h.pt_hi
  have hi : va / 1048576 < 2048 := by omega
  have hj : va % 1048576 / 4096 < 256 := by omega
  have hv : 256 * (va / 1048576) + va % 1048576 / 4096 = va / 4096 := by omega
  unfold PTE_L1SIZE at hpt
  unfold walkV2p PAGE_L1SIZE PAGE_L2SIZE
  dsimp only
  rw [add32_of_lt (a := pt) (by omega), h.slot _ hi]
  cases ht : M.table (va / 1048576) with
  | none =>
      have hbare := h.bare _ hi ht _ hj
      rw [hv, hf] at hbare
      simp at hbare
  | some t =>
      have hok := h.table_ok _ t ht
      have hal := hok.aligned
      have hhi := hok.hi
      have hbase : tableEntry (some t) >>> 10 <<< 10 = t := by
        rw [Nat.shiftRight_eq_div_pow, Nat.shiftLeft_eq]
        show (t + 481) / 1024 * 1024 = t
        omega
      have hword := h.page _ hi t ht _ hj
      rw [hv, hf] at hword
      have hfok := h.frame_ok _ f hf
      have hfal := hfok.aligned
      have hfhi := hfok.hi
      have hP2V := hok.P2V_eq (by decide)
      rw [hbase, add32_of_lt (by rw [hP2V]; omega), hword]
      show (f + 1058) &&& 0xFFFFF000 = f
      rw [frameMask (by omega)]
      omega

/-! ## Frames that a transfer goes through -/

theorem frame_byte_inj {u x y g : Nat} (h : Maps s pt M) (hf : M.frame u = some f)
    (hg : M.frame v = some g) (hx : x < 4096) (hy : y < 4096) (heq : P2V f + x = P2V g + y) :
    u = v ∧ x = y := by
  have hfok := h.frame_ok u f hf
  have hgok := h.frame_ok v g hg
  have hfal := hfok.aligned
  have hgal := hgok.aligned
  rw [hfok.P2V_eq (by decide), hgok.P2V_eq (by decide)] at heq
  have hfg : f = g := by omega
  rw [← hfg] at hg
  exact ⟨h.frame_once u v f hf hg, by omega⟩

theorem Maps.transfer {n : Nat} {c : Nat → UInt8} (h : Maps s pt M) (hf : M.frame v = some f)
    (hn : n ≤ 4096) : Maps (transfer s (P2V f) n c) pt M := by
  apply h.congr
  intro b hb
  rw [transfer_mem]
  apply storeBytes_out
  by_contra hc
  exact h.frame_not_table hf (b := b) (by omega) (by omega) hb

/-- The bytes of the card from `done` on are where the pages from `v` on have their frames, and
nothing else changed. -/
structure Landed (sd : SdCard) (offset total : Nat) (M : Space) (v done : Nat) (s s' : State) :
    Prop where
  placed : ∀ j, done ≤ j → j < total → ∀ f, M.frame (v + j / 4096) = some f →
    s'.mem (P2V f + j % 4096) = sd.byte offset j
  kept : ∀ b, (∀ j, done ≤ j → j < total → ∀ f, M.frame (v + j / 4096) = some f →
    b ≠ P2V f + j % 4096) → s'.mem b = s.mem b

theorem Landed.chunk {last : Nat} (hf : M.frame (v + k) = some f)
    (hk : 4096 * k ≤ last) (hlast : last ≤ 4096 * k + 4096) :
    Landed sd offset last M v (4096 * k) s
      (transfer s (P2V f) (last - 4096 * k) fun i => sd.byte offset (4096 * k + i)) := by
  refine ⟨fun j h₁ h₂ g hg => ?_, fun b hb => ?_⟩
  · have hpage : j / 4096 = k := by omega
    have hbyte : j % 4096 = j - 4096 * k := by omega
    rw [hpage, hf] at hg
    rw [← Option.some.inj hg, transfer_mem, hbyte, storeBytes_in (Nat.le_add_right _ _) (by omega),
      Nat.add_sub_cancel_left]
    exact congrArg (sd.byte offset) (by omega)
  · rw [transfer_mem]
    apply storeBytes_out
    by_contra hc
    push Not at hc
    obtain ⟨x, hx⟩ := Nat.exists_eq_add_of_le hc.1
    have hpage : (4096 * k + x) / 4096 = k := by omega
    have hbyte : (4096 * k + x) % 4096 = x := by omega
    apply hb (4096 * k + x) (by omega) (by omega) f
    · rw [hpage]
      exact hf
    · rw [hbyte]
      exact hx

theorem Landed.trans {mid done : Nat} (h : Maps s pt M) (hmid : mid % 4096 = 0) (hdone : done ≤ mid)
    (hle : mid ≤ total) (h₁ : Landed sd offset mid M v done s s₁)
    (h₂ : Landed sd offset total M v mid s₁ s') : Landed sd offset total M v done s s' := by
  refine ⟨fun j hj₁ hj₂ g hg => ?_, fun b hb => ?_⟩
  · by_cases hlate : mid ≤ j
    · exact h₂.placed j hlate hj₂ g hg
    · rw [h₂.kept, h₁.placed j hj₁ (by omega) g hg]
      intro i hi₁ hi₂ g' hg' heq
      obtain ⟨hpage, -⟩ := frame_byte_inj h hg hg' (Nat.mod_lt _ (by decide))
        (Nat.mod_lt _ (by decide)) heq
      omega
  · rw [h₂.kept b fun j hj₁ hj₂ => hb j (by omega) hj₂]
    exact h₁.kept b fun j hj₁ hj₂ => hb j hj₁ (by omega)

theorem spinLoad_spec {fuel reg done : Nat} (h : Maps s pt M) (hle : 4096 * v + total ≤ 2147483648)
    (hmapped : ∀ j < total, M.frame (v + j / 4096) ≠ none) (hdone : done = 4096 * k)
    (hlt : done < total) (hva : va / 4096 = v + k) (hreg : M.frame (v + k) = some reg)
    (hrun : spin sd offset total (nextPage pt) fuel done va reg s = .ok (0, s')) :
    Maps s' pt M ∧ Landed sd offset total M v done s s' := by
  induction fuel generalizing k va reg done s with
  | zero => simp [spin] at hrun
  | succ fuel ih =>
      have hreg_al := (h.frame_ok _ reg hreg).aligned
      rw [spin] at hrun
      dsimp only at hrun
      rw [show reg % FRAME_SIZE = 0 from hreg_al, show FRAME_SIZE - 0 = 4096 from rfl] at hrun
      generalize hlast : min total (done + 4096) = last at hrun
      split at hrun
      · simp at hrun
      · next hreach =>
          have hfull : sd.reach last = last := by
            have : sd.reach last ≤ last := Nat.min_le_left ..
            omega
          rw [hfull] at hrun
          have hmaps := Maps.transfer (n := last - done) (c := fun i => sd.byte offset (done + i)) h
            hreg (by omega)
          have hchunk : Landed sd offset last M v (4096 * k) s (transfer s _ _ _) :=
            Landed.chunk hreg (by omega) (by omega)
          rw [← hdone] at hchunk
          split at hrun
          · next hcomplete =>
              rw [← (Prod.mk.inj (Except.ok.inj hrun)).2]
              rw [hcomplete] at hchunk hmaps ⊢
              exact ⟨hmaps, hchunk⟩
          · -- the next page of the transfer
            have hmid : last = 4096 * (k + 1) := by omega
            have hnext := hmapped last (by omega)
            rw [hmid, Nat.mul_div_cancel_left _ (by decide)] at hnext
            obtain ⟨g, hg⟩ := Option.ne_none_iff_exists'.1 hnext
            have hva' : (va + 4096) / 4096 = v + (k + 1) := by omega
            have hbound : (reg + (last - done)) % FRAME_SIZE = 0 := by
              unfold FRAME_SIZE PAGE_L2SIZE
              omega
            have hwalk : walkV2p _ (va + 4096) pt = g :=
              walkV2p_eq hmaps (by omega) (by rw [hva']; exact hg)
            rw [nextPage, if_pos hbound] at hrun
            dsimp only at hrun
            rw [add32_of_lt (by omega), hwalk] at hrun
            obtain ⟨hmaps', hrest⟩ := ih hmaps hmid (by omega) hva' hg hrun
            exact ⟨hmaps', Landed.trans h (by omega) (by omega) (by omega) hchunk hrest⟩

theorem sdDmaSpinLoad_zero (hrun : sdDmaSpinLoad s sd va 0 offset pt = .ok (0, s')) : s' = s := by
  have hnone : ∀ a n f, n = 0 → transfer s a n f = s := by
    intro a n f hn
    have hmem : storeBytes a n f s.mem = s.mem := funext fun b => storeBytes_out (by omega)
    rw [transfer, hmem]
  have hreach : sd.reach 0 = 0 := Nat.le_zero.1 (Nat.min_le_left ..)
  unfold sdDmaSpinLoad command at hrun
  split at hrun
  · simp at hrun
  · split at hrun
    · simp at hrun
    · rw [Nat.mul_zero, spin, Nat.zero_min, hreach, if_neg (Nat.lt_irrefl 0), if_pos rfl] at hrun
      rw [← (Prod.mk.inj (Except.ok.inj hrun)).2]
      exact hnone _ _ _ rfl

/-- `sd_dma_spin_load` that returns 0, by the frames of the pages from that of `va` on. -/
theorem sdDmaSpinLoad_spec (h : Maps s pt M) (hv : va / 4096 = v)
    (hle : 4096 * v + 512 * count ≤ 2147483648)
    (hmapped : ∀ j < 512 * count, M.frame (v + j / 4096) ≠ none)
    (hrun : sdDmaSpinLoad s sd va count offset pt = .ok (0, s')) :
    Maps s' pt M ∧ Landed sd offset (512 * count) M v 0 s s' := by
  by_cases hcount : count = 0
  · subst hcount
    rw [sdDmaSpinLoad_zero hrun]
    exact ⟨h, fun j _ hj => absurd hj (Nat.not_lt_zero j), fun _ _ => rfl⟩
  · obtain ⟨f, hf⟩ := Option.ne_none_iff_exists'.1 (hmapped 0 (by omega))
    rw [Nat.zero_div, Nat.add_zero] at hf
    unfold sdDmaSpinLoad command at hrun
    rw [show BLOCK_SIZE = 512 from rfl] at hrun
    split at hrun
    · simp at hrun
    · split at hrun
      · simp at hrun
      · rw [walkV2p_eq h (by omega) (by rw [hv]; exact hf)] at hrun
        exact spinLoad_spec (k := 0) h hle hmapped rfl (by omega) hv hf hrun

/-- The transfer and the address translation agree, whatever frames the pages have. -/
theorem sdDmaSpinLoad_translated (h : Maps s pt M) (hva : va % 4096 = 0)
    (hle : va + 512 * count ≤ KERNEL_BASE) (hmapped : ∀ j < 512 * count, s.walk pt (va + j) ≠ none)
    (hrun : sdDmaSpinLoad s sd va count offset pt = .ok (0, s')) :
    (∀ j < 512 * count, ∃ a, s.walk pt (va + j) = some a ∧ s'.walk pt (va + j) = some a ∧
      s'.mem (P2V a) = sd.byte offset j) ∧
    ∀ b, (∀ j < 512 * count, ∀ a, s.walk pt (va + j) = some a → b ≠ P2V a) →
      s'.mem b = s.mem b := by
  unfold KERNEL_BASE at hle
  have hpage : ∀ j, (va + j) / 4096 = va / 4096 + j / 4096 := fun j => by omega
  have hbyte : ∀ j, (va + j) % 4096 = j % 4096 := fun j => by omega
  have hphys : ∀ j < 512 * count, s.walk pt (va + j) =
      (M.frame (va / 4096 + j / 4096)).map fun f => f + j % 4096 := by
    intro j hj
    rw [h.walk_eq (by omega), Space.phys, hpage, hbyte]
  obtain ⟨hmaps, hland⟩ := sdDmaSpinLoad_spec h rfl (by omega) (fun j hj hnone => by
    apply hmapped j hj
    rw [hphys j hj, hnone]
    rfl) hrun
  have hP2V : ∀ u f j, M.frame u = some f → P2V (f + j % 4096) = P2V f + j % 4096 := by
    intro u f j hf
    have hok := h.frame_ok u f hf
    have hhi := hok.hi
    rw [hok.P2V_eq (by decide), P2V_of_lt (by omega)]
    omega
  constructor
  · intro j hj
    obtain ⟨a, ha⟩ := Option.ne_none_iff_exists'.1 (hmapped j hj)
    have hwalk := ha
    rw [hphys j hj] at hwalk
    obtain ⟨f, hf, hfa⟩ := Option.map_eq_some_iff.1 hwalk
    refine ⟨a, ha, ?_, ?_⟩
    · rw [hmaps.walk_eq (by omega), ← h.walk_eq (by omega)]
      exact ha
    · rw [← hfa, hP2V _ f j hf]
      exact hland.placed j (Nat.zero_le j) hj f hf
  · intro b hb
    refine hland.kept b fun j _ hj f hf heq => ?_
    apply hb j hj (f + j % 4096)
    · rw [hphys j hj, hf]
      rfl
    · rw [hP2V _ f j hf]
      exact heq

theorem command_works {resume : State → Nat → Nat → Nat × Nat} {pa : Nat} (h : sd.Works) :
    ∃ s', command s sd pa count offset resume va = .ok (0, s') := by
  obtain ⟨⟨ret, s'⟩, hrun⟩ := @command_total sd s offset count pa resume va
  have hret : ret = 0 := h.command hrun
  rw [hret] at hrun
  exact ⟨s', hrun⟩

/-! ## Two pages -/

/-- Beside page 0, page 1 is mapped, to a frame that does not follow that of page 0. -/
def Space.twoPages : Space := Space.onePage.addFrame (256 * 0 + 1) 0x900000

def State.twoPages : State := State.onePage.setWord (P2V 0x800000 + 4 * 1) (0x900000 + 1058)

theorem maps_twoPages : Maps State.twoPages 0x80104000 Space.twoPages := by
  have hfree : ∀ b ∈ Space.onePage.bytes 0x80104000, b < 0x80900000 := by
    have hbase : P2V 0x800000 = 0x80800000 := by decide
    have hframe : P2V 0x801000 = 0x80801000 := by decide
    rintro b (((⟨-, hb⟩ | ⟨i, t, ht, -, hb⟩) | ⟨v, f, hf, -, hb⟩) | ⟨-, hb⟩)
    · omega
    · rw [(Space.onePage_table ht).2, hbase] at hb
      omega
    · rw [(Space.onePage_frame hf).2, hframe] at hb
      omega
    · unfold PTE_L1SIZE at hb
      omega
  have hnew : P2V 0x900000 = 0x80900000 := by decide
  refine @Maps.addFrame (fun _ _ => True) State.onePage State.twoPages
    (Space.onePage.bytes 0x80104000) Space.onePage 0x80104000 0 0x800000 0x900000 1 maps_onePage
    Set.Subset.rfl (by decide) rfl ⟨rfl, by decide, by decide⟩ ⟨?_, trivial, ?_, ?_, ?_⟩
  · rw [Set.disjoint_left, hnew]
    rintro b hb ⟨hlow, -⟩
    have hlt := hfree b hb
    omega
  · exact load32_store32_of_lt _ (by decide)
  · rw [hnew]
    intro b h₁ h₂
    have hentry : P2V 0x800000 = 0x80800000 := by decide
    refine (store32_apply_of_outside (by omega)).trans ?_
    refine (store32_apply_of_outside (by omega)).trans ?_
    exact store32_apply_of_outside (by omega)
  · intro b _ hb
    exact store32_apply_of_outside hb

/-- A card whose bytes count up in every sector, from its number on. -/
def SdCard.counting : SdCard := ⟨true, fun _ _ => true, fun n i => UInt8.ofNat (n + i.val), none⟩

theorem SdCard.counting_works : SdCard.counting.Works := ⟨rfl, fun _ _ => rfl, rfl⟩

/-- Nine blocks, of which the last one goes to the second page. -/
theorem sdDmaSpinLoad_translated_sample : ∃ s',
    sdDmaSpinLoad State.twoPages SdCard.counting 0 9 3 0x80104000 = .ok (0, s') ∧
    (∀ j < 512 * 9, ∃ a, State.twoPages.walk 0x80104000 (0 + j) = some a ∧
      s'.walk 0x80104000 (0 + j) = some a ∧ s'.mem (P2V a) = SdCard.counting.byte 3 j) ∧
    ∀ b, (∀ j < 512 * 9, ∀ a, State.twoPages.walk 0x80104000 (0 + j) = some a → b ≠ P2V a) →
      s'.mem b = State.twoPages.mem b := by
  obtain ⟨s', hrun⟩ := @command_works SdCard.counting State.twoPages 0 3 9
    (nextPage 0x80104000) (walkV2p State.twoPages 0 0x80104000) SdCard.counting_works
  refine ⟨s', hrun, sdDmaSpinLoad_translated maps_twoPages rfl (by decide)
    (fun j hj hnone => ?_) hrun⟩
  have hpage : Space.twoPages.frame ((0 + j) / 4096) ≠ none := by
    by_cases hfirst : j < 4096
    · have hzero : (0 + j) / 4096 = 0 := by omega
      rw [hzero]
      decide
    · have hone : (0 + j) / 4096 = 1 := by omega
      rw [hone]
      decide
  rw [maps_twoPages.walk_eq (by omega), Space.phys] at hnone
  exact hpage (Option.map_eq_none_iff.1 hnone)

end Aimv6.Exec
