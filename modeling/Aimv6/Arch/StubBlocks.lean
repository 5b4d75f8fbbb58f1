import Aimv6.Arch.InterruptVector

/-! # The blocks of a stub

What the blocks hand to one another is that the context object holds the
interrupted program's registers and that nothing but user registers has changed
since. The first block establishes it, the blocks in between leave it alone, and
the last one loads the registers back.
-/

namespace Aimv6.Arch

open Support

/-- The object lies in the address space, apart from the variable that points to it. -/
structure Placed (context : Word) (s : Cpu) : Prop where
  top : contextAt context s + CONTEXT_SIZE ≤ 4294967296
  apart : context.toNat + 4 ≤ contextAt context s ∨
    contextAt context s + CONTEXT_SIZE ≤ context.toNat

/-- The pointer variable and the bytes of the object from `first` on and before `last`. -/
def contextArea (context : Word) (obj first last : Nat) : Set Nat :=
  {b | context.toNat ≤ b ∧ b < context.toNat + 4 ∨ obj + first ≤ b ∧ b < obj + last}

/-- A handler that modifies neither the context object nor the variable that points to it. -/
def SparesContext (context : Word) (obj : Nat) (body : Cpu → Frame) : Prop :=
  ∀ s, AgreeOn (contextArea context obj 0 CONTEXT_SIZE) s.mem (body s).mem

/-- Between the dump of the registers of `s₀` and the return, the exception taken to bank `b`. -/
structure Dumped (b : Bank) (context : Word) (ret : Word) (s₀ s : Cpu) : Prop where
  pointer : contextAt context s = contextAt context s₀
  general : ∀ n : Fin 13, s.word (contextAt context s₀ + 4 * n.val) = s₀.reg (.r n)
  pc : s.word (contextAt context s₀ + PC_OFFSET) = ret
  cpsr : s.word (contextAt context s₀ + CPSR_OFFSET) = s₀.spsr b
  sp : s.cell b .sp = BitVec.ofNat 32 (contextAt context s₀ + SPSR_OFFSET)
  cell : ∀ c x, c ≠ .usr → (c = b → x ≠ .sp) → s.cell c x = s₀.cell c x
  spsr : s.spsr b = s₀.spsr b

variable {sym : Symbols} {b : Bank} {context ret mode : Word} {s₀ s s' : Cpu}

/-- What code in the user bank may not touch while the registers are in the object. -/
theorem Dumped.undisturbed (h : Dumped b context ret s₀ s) (hb : b ≠ .usr)
    (hs : Cpu.Undisturbed (contextArea context (contextAt context s₀) 0 SPSR_OFFSET) s s') :
    Dumped b context ret s₀ s' := by
  have hword : ∀ off, off + 4 ≤ SPSR_OFFSET →
      s'.word (contextAt context s₀ + off) = s.word (contextAt context s₀ + off) := by
    intro off hoff
    apply Cpu.word_congr hs.mem
    exact fun a ha ha' => Or.inr ⟨by omega, by omega⟩
  have hpointer : s'.word context.toNat = s.word context.toNat :=
    Cpu.word_congr hs.mem fun a ha ha' => Or.inl ⟨ha, ha'⟩
  constructor
  case pointer => exact (congrArg BitVec.toNat hpointer).trans h.pointer
  case general =>
    intro n
    rw [hword _ (by have := n.isLt; unfold SPSR_OFFSET; omega)]
    exact h.general n
  case pc =>
    rw [hword _ (by decide)]
    exact h.pc
  case cpsr =>
    rw [hword _ (by decide)]
    exact h.cpsr
  case sp => rw [hs.cell b .sp hb, h.sp]
  case cell => exact fun c x hc hx => (hs.cell c x hc).trans (h.cell c x hc hx)
  case spsr => rw [hs.spsr b hb, h.spsr]

/-! ## The register list -/

theorem mem_r0r12 {x : Reg} : x ∈ r0r12 ↔ ∃ n, x = .r n := by
  unfold r0r12
  simp [eq_comm]

theorem idxOf_r0r12 (n : Fin 13) : r0r12.idxOf (.r n) = n.val := by
  revert n
  decide

theorem idxOf_dump (n : Fin 13) : (r0r12 ++ [Reg.lr]).idxOf (.r n) = n.val := by
  revert n
  decide

theorem idxOf_dump_lr : (r0r12 ++ [Reg.lr]).idxOf .lr = 13 := by decide

/-! ## Blocks -/

theorem home_low (c : Bank) (n : Fin 13) (hn : n.val < 8) : c.home (.r n) = .usr :=
  Bank.home_general (Or.inr hn)

theorem changeMode_spec (mode : Word) (s : Cpu) :
    (s.run (changeMode mode)).bank = Bank.ofMode (modeBits mode) ∧
      Cpu.Undisturbed Set.univ s (s.run (changeMode mode)) ∧
      ∀ c x, x ≠ .r 0 → (s.run (changeMode mode)).cell c x = s.cell c x := by
  let v := (s.cpsr &&& 0xFFFFFFE0) ||| mode
  have hrun : s.run (changeMode mode) =
      { s.setReg (.r 0) v with cpsr := psrFc s.cpsr v, pc := s.pc + 4 + 4 + 4 + 4 } := by
    unfold changeMode
    simp only [Cpu.run_cons, Cpu.run_nil, Cpu.exec, Cpu.setReg_next, Cpu.setReg_setReg,
      Cpu.reg_next, Cpu.reg_setReg_same]
    rfl
  have hset := (Cpu.Undisturbed.refl Set.univ s).setReg (home_low s.bank 0 (by decide)) v
  rw [hrun]
  refine ⟨?_, ⟨hset.mem, hset.cell, hset.spsr⟩, fun c x hx => Cpu.cell_setReg_of_ne hx⟩
  show Bank.ofMode (modeBits (psrFc s.cpsr v)) = Bank.ofMode (modeBits mode)
  rw [modeBits_psrFc, modeBits_set]

theorem sysStack_spec (sym : Symbols) (hs : s.bank = .usr) :
    (s.run (sysStack sym)).bank = .usr ∧
      Cpu.Undisturbed Set.univ s (s.run (sysStack sym)) ∧
      (s.run (sysStack sym)).reg (.r 0) = s.cell .usr .sp ∧
      (s.run (sysStack sym)).reg (.r 1) = s.cell .usr .lr := by
  have hhome : ∀ x, s.bank.home x = .usr := by
    rw [hs]
    exact Bank.home_usr
  unfold sysStack
  simp only [Cpu.run_cons, Cpu.run_nil, Cpu.exec, Cpu.setReg_next, Cpu.setReg_setReg,
    Cpu.reg_next, Cpu.reg_setReg_same, Cpu.word_next, Cpu.word_setReg]
  refine ⟨hs, ?_, ?_, ?_⟩
  · exact ((((Cpu.Undisturbed.refl Set.univ s).setReg (hhome _) _).setReg (hhome _) _).setReg
      (hhome _) _).next.next.next.next
  · rw [Cpu.reg_setReg_of_ne (by decide),
      Cpu.reg_setReg_of_ne (by decide), Cpu.reg_setReg_same, Cpu.reg, hhome]
  · rw [Cpu.reg_setReg_of_ne (by decide),
      Cpu.reg_setReg_same, Cpu.reg_setReg_of_ne (by decide), Cpu.reg, hhome]

/-- Only sp of the bank in use moves when registers are stored through it. -/
theorem cell_push {list : List Reg} {c : Bank} {x : Reg} (h : c = s.bank → x ≠ .sp) :
    (s.exec (.stmia list)).cell c x = s.cell c x := by
  by_cases hx : x = .sp
  · exact Cpu.cell_stmia_of_bank fun hc => h hc hx
  · exact Cpu.cell_stmia_of_ne hx

theorem toNat_ofNat_of_lt {a : Nat} (h : a < 4294967296) : (BitVec.ofNat 32 a).toNat = a := by
  rw [BitVec.toNat_ofNat]
  exact Nat.mod_eq_of_lt h

theorem word_context (context : Word) (s : Cpu) :
    s.word context.toNat = BitVec.ofNat 32 (contextAt context s) := by
  rw [contextAt, BitVec.ofNat_toNat, BitVec.setWidth_eq]

/-- The first three instructions: sp points to the object, and r0 to r12 and lr go there. -/
theorem dumpRegs_spec (hs : s₀.run [.ldrConst .sp context, .ldr .sp .sp, .stmia (r0r12 ++ [.lr])] = s)
    (hplaced : Placed context s₀) :
    s.bank = s₀.bank ∧ s.spsr = s₀.spsr ∧
      s.reg .sp = BitVec.ofNat 32 (contextAt context s₀ + CPSR_OFFSET) ∧
      (∀ x ∈ r0r12 ++ [Reg.lr],
        s.word (contextAt context s₀ + 4 * (r0r12 ++ [Reg.lr]).idxOf x) = s₀.reg x) ∧
      s.word context.toNat = s₀.word context.toNat ∧
      ∀ c x, (c = s₀.bank → x ≠ .sp) → s.cell c x = s₀.cell c x := by
  obtain ⟨obj, hobj⟩ : ∃ obj, contextAt context s₀ = obj := ⟨_, rfl⟩
  have htop := hplaced.top
  have hapart := hplaced.apart
  unfold CONTEXT_SIZE at htop hapart
  rw [hobj] at htop hapart ⊢
  have hlength : (r0r12 ++ [Reg.lr]).length = 14 := rfl
  obtain ⟨s₂, hs₂⟩ : ∃ s₂, s₂ = (s₀.exec (.ldrConst .sp context)).exec (.ldr .sp .sp) := ⟨_, rfl⟩
  have hset : s₂ = (s₀.setReg .sp (BitVec.ofNat 32 obj)).next.next := by
    rw [hs₂, ← hobj, ← word_context]
    simp only [Cpu.exec, Cpu.setReg_next, Cpu.setReg_setReg, Cpu.reg_next, Cpu.reg_setReg_same,
      Cpu.word_next, Cpu.word_setReg]
  have hsp : (s₂.reg .sp).toNat = obj := by
    rw [hset, Cpu.reg_next, Cpu.reg_next, Cpu.reg_setReg_same, toNat_ofNat_of_lt (by omega)]
  have hpush : s = s₂.exec (.stmia (r0r12 ++ [.lr])) := by
    rw [← hs, hs₂]
    rfl
  have hbank : s₂.bank = s₀.bank := by
    rw [hset]
    rfl
  have hspsr : s₂.spsr = s₀.spsr := by
    rw [hset]
    rfl
  rw [hpush]
  refine ⟨hbank, hspsr, ?_, ?_, ?_, ?_⟩
  · rw [Cpu.reg_sp_stmia, hset, Cpu.reg_next, Cpu.reg_next, Cpu.reg_setReg_same, hlength,
      BitVec.ofNat_add]
    rfl
  · intro x hx
    rw [Cpu.word_stmia hsp hx, hset, Cpu.reg_next, Cpu.reg_next, Cpu.reg_setReg_of_ne]
    rintro rfl
    exact absurd hx (by decide)
  · rw [Cpu.word_stmia_of_apart hsp (by omega), hset]
    rfl
  · intro c x hx
    rw [cell_push (by rw [hbank]; exact hx), hset, Cpu.cell_next, Cpu.cell_next]
    by_cases hxsp : x = .sp
    · subst hxsp
      exact Cpu.cell_setReg_of_bank fun hc => hx hc rfl
    · exact Cpu.cell_setReg_of_ne hxsp

theorem dumpSpsr_spec {a : Nat} (hs : s₀.run [.mrsSpsr (.r 0), .stmia [.r 0]] = s)
    (hsp : s₀.reg .sp = BitVec.ofNat 32 a) (ha : a < 4294967296) :
    s.bank = s₀.bank ∧ s.spsr = s₀.spsr ∧ s.reg .sp = BitVec.ofNat 32 (a + 4) ∧
      s.word a = s₀.spsr s₀.bank ∧
      (∀ c, c + 4 ≤ a ∨ a + 4 ≤ c → s.word c = s₀.word c) ∧
      ∀ c x, (c = .usr → x ≠ .r 0) → (c = s₀.bank → x ≠ .sp) → s.cell c x = s₀.cell c x := by
  obtain ⟨s₂, hs₂⟩ : ∃ s₂, s₂ = s₀.exec (.mrsSpsr (.r 0)) := ⟨_, rfl⟩
  have hset : s₂ = (s₀.setReg (.r 0) (s₀.spsr s₀.bank)).next := hs₂
  have hsp₂ : s₂.reg .sp = BitVec.ofNat 32 a := by
    rw [hset, Cpu.reg_next, Cpu.reg_setReg_of_ne (by decide), hsp]
  have hspNat : (s₂.reg .sp).toNat = a := by
    rw [hsp₂, toNat_ofNat_of_lt ha]
  have hpush : s = s₂.exec (.stmia [.r 0]) := by
    rw [← hs, hs₂]
    rfl
  rw [hpush]
  refine ⟨?_, ?_, ?_, ?_, ?_, ?_⟩
  · rw [hset]
    rfl
  · rw [hset]
    rfl
  · rw [Cpu.reg_sp_stmia, hsp₂, BitVec.ofNat_add]
    rfl
  · have hword := Cpu.word_stmia hspNat (List.mem_singleton.mpr (rfl : Reg.r 0 = Reg.r 0))
    rw [List.idxOf_cons_self, Nat.mul_zero, Nat.add_zero] at hword
    rw [hword, hset, Cpu.reg_next, Cpu.reg_setReg_same]
  · intro c hc
    rw [Cpu.word_stmia_of_apart hspNat (by rw [List.length_singleton]; omega), hset]
    rfl
  · intro c x hlow hx
    rw [cell_push (by rw [hset]; exact hx), hset, Cpu.cell_next]
    by_cases hc : c = .usr
    · exact Cpu.cell_setReg_of_ne (hlow hc)
    · apply Cpu.cell_setReg_of_bank
      rw [home_low _ _ (by decide)]
      exact hc

theorem dumpContext_spec (hs : s₀.bank = b) (hb : b ≠ .usr) (hplaced : Placed context s₀) :
    (s₀.run (dumpContext context)).bank = b ∧
      Dumped b context (s₀.reg .lr) s₀ (s₀.run (dumpContext context)) ∧
      (s₀.run (dumpContext context)).cell .usr .sp = s₀.cell .usr .sp ∧
      (s₀.run (dumpContext context)).cell .usr .lr = s₀.cell .usr .lr := by
  have htop := hplaced.top
  have hapart := hplaced.apart
  unfold CONTEXT_SIZE at htop hapart
  obtain ⟨s₁, hs₁⟩ : ∃ s₁,
    s₀.run [.ldrConst .sp context, .ldr .sp .sp, .stmia (r0r12 ++ [.lr])] = s₁ := ⟨_, rfl⟩
  obtain ⟨s₂, hs₂⟩ : ∃ s₂, s₁.run [.mrsSpsr (.r 0), .stmia [.r 0]] = s₂ := ⟨_, rfl⟩
  obtain ⟨hbank₁, hspsr₁, hsp₁, hdump, hvar₁, hcell₁⟩ := dumpRegs_spec hs₁ hplaced
  obtain ⟨hbank₂, hspsr₂, hsp₂, hstatus, hword, hcell₂⟩ :=
    dumpSpsr_spec hs₂ hsp₁ (by unfold CPSR_OFFSET; omega)
  have hrun : s₀.run (dumpContext context) = s₂ := by
    rw [← hs₂, ← hs₁]
    rfl
  have hbank : s₂.bank = b := hbank₂.trans (hbank₁.trans hs)
  have hcell : ∀ c x, (c = .usr → x ≠ .r 0) → (c = b → x ≠ .sp) → s₂.cell c x = s₀.cell c x := by
    intro c x hlow hx
    rw [hcell₂ c x hlow (by rw [hbank₁, hs]; exact hx), hcell₁ c x (by rw [hs]; exact hx)]
  rw [hrun]
  refine ⟨hbank, ?_, hcell _ _ (fun _ => by decide) fun hc => absurd hc.symm hb,
    hcell _ _ (fun _ => by decide) fun _ => by decide⟩
  constructor
  case pointer =>
    rw [contextAt, hword _ (by unfold CPSR_OFFSET; omega), hvar₁]
    rfl
  case general =>
    intro n
    have hn := n.isLt
    rw [hword _ (by unfold CPSR_OFFSET; omega),
      ← hdump (.r n) (List.mem_append_left _ (mem_r0r12.mpr ⟨n, rfl⟩)), idxOf_dump]
  case pc =>
    rw [hword _ (by unfold PC_OFFSET CPSR_OFFSET; omega), ← hdump .lr (by decide), idxOf_dump_lr]
    rfl
  case cpsr => rw [hstatus, hspsr₁, hbank₁, hs]
  case sp =>
    rw [← hbank]
    exact hsp₂
  case cell => exact fun c x hc hx => hcell c x (fun h => absurd h hc) hx
  case spsr => rw [hspsr₂, hspsr₁]

/-! ## The return -/

/-- The saved status comes first, and is stored where it has been all along. -/
theorem loadSpsr_spec {a : Nat} (hs : s₀.run [.ldmdb [.r 0], .msrSpsr (.r 0)] = s)
    (hsp : s₀.reg .sp = BitVec.ofNat 32 (a + 4)) (ha : a < 4294967296)
    (hword : s₀.word a = s₀.spsr s₀.bank) :
    s.bank = s₀.bank ∧ s.reg .sp = BitVec.ofNat 32 a ∧ s.spsr s.bank = s₀.spsr s₀.bank ∧
      (∀ c, s.word c = s₀.word c) ∧
      ∀ c x, (c = .usr → x ≠ .r 0) → (c = s₀.bank → x ≠ .sp) → s.cell c x = s₀.cell c x := by
  obtain ⟨s₁, hs₁⟩ : ∃ s₁, s₁ = (s₀.popRegs (BitVec.ofNat 32 a) [.r 0]).next := ⟨_, rfl⟩
  have hsp₁ : s₁.reg .sp = BitVec.ofNat 32 a := by
    have hout : Reg.sp ∉ [Reg.r 0] := by decide
    rw [hs₁]
    exact Cpu.cell_popRegs_sp (s := s₀) hout
  have hr0 : s₁.reg (.r 0) = s₀.spsr s₀.bank := by
    rw [hs₁, Cpu.reg_next]
    refine (Cpu.cell_popRegs_of_mem (List.mem_singleton.mpr rfl)).trans ?_
    rw [toNat_ofNat_of_lt ha, List.idxOf_cons_self]
    exact hword
  have hspsr₁ : s₁.spsr s₁.bank = s₀.spsr s₀.bank := by
    rw [hs₁]
    rfl
  have hset : s = (s₁.setSpsr (s₀.spsr s₀.bank)).next := by
    rw [← hs, Cpu.run_cons, Cpu.exec_ldmdb hsp, ← hs₁, Cpu.run_cons, Cpu.exec, hr0, hspsr₁, psrFc_self]
    rfl
  rw [hset]
  refine ⟨?_, hsp₁, if_pos rfl, ?_, ?_⟩
  · rw [hs₁]
    rfl
  · intro c
    rw [hs₁]
    rfl
  · intro c x hlow hx
    have hcell : s₁.cell c x = s₀.cell c x := by
      rw [hs₁]
      apply Cpu.cell_popRegs
      intro hc
      constructor
      · intro hmem
        rw [List.mem_singleton.mp hmem, home_low _ _ (by decide)] at hc
        exact hlow hc (List.mem_singleton.mp hmem)
      · rintro rfl
        exact hx hc rfl
    exact hcell

/-- Back from the exception that `s₀` has taken to bank `b`; the stub's last look at the user's sp
and lr is `s`. The sp of the exception's own bank is left pointing to the object. -/
structure Returned (b : Bank) (context ret : Word) (s₀ s s' : Cpu) : Prop where
  pc : s'.pc = ret
  cpsr : s'.cpsr = s₀.spsr b
  general : ∀ n, s'.cell (b.home (.r n)) (.r n) = s₀.reg (.r n)
  sp : s'.cell b .sp = BitVec.ofNat 32 (contextAt context s₀)
  usr_sp : s'.cell .usr .sp = s.cell .usr .sp
  usr_lr : s'.cell .usr .lr = s.cell .usr .lr
  other : ∀ c x, c ≠ .usr → (c = b → x = .lr) → s'.cell c x = s₀.cell c x

theorem return_spec (hplaced : Placed context s₀) (hb : b ≠ .usr) (h : Dumped b context ret s₀ s)
    (hs : s.bank = b) (hs' : s.run returnFromInterrupt = s') :
    Returned b context ret s₀ s s' := by
  have htop := hplaced.top
  unfold CONTEXT_SIZE at htop
  obtain ⟨s₂, hs₂⟩ : ∃ s₂, s.run [.ldmdb [.r 0], .msrSpsr (.r 0)] = s₂ := ⟨_, rfl⟩
  have hsp : s.reg .sp = BitVec.ofNat 32 (contextAt context s₀ + CPSR_OFFSET + 4) := by
    rw [Cpu.reg, hs]
    exact h.sp
  have hspsr : s.word (contextAt context s₀ + CPSR_OFFSET) = s.spsr s.bank := by
    rw [h.cpsr, hs, h.spsr]
  obtain ⟨hbank₂, hsp₂, hspsr₂, hword₂, hcell₂⟩ :=
    loadSpsr_spec hs₂ hsp (by unfold CPSR_OFFSET; omega) hspsr
  rw [hs] at hbank₂ hcell₂
  rw [hs, h.spsr] at hspsr₂
  have hexec : s' = { s₂.popRegs (BitVec.ofNat 32 (contextAt context s₀)) r0r12 with
      cpsr := s₀.spsr b, pc := ret } := by
    have hrun : s' = s₂.exec (.ldmdbRet r0r12) := by
      rw [← hs', ← hs₂]
      rfl
    rw [hrun, Cpu.exec_ldmdbRet hsp₂ (by omega), hspsr₂, hword₂, ← h.pc]
    rfl
  have hother : ∀ c x, (c = .usr → x ≠ .r 0) → (c = b → x ≠ .sp) →
      (c = b.home x → x ∉ r0r12 ∧ x ≠ .sp) → s'.cell c x = s.cell c x := by
    intro c x hlow hx hhome
    rw [← hcell₂ c x hlow hx, hexec]
    exact Cpu.cell_popRegs (by rw [hbank₂]; exact hhome)
  refine ⟨by rw [hexec], by rw [hexec], ?_, ?_, ?_, ?_, ?_⟩
  · intro n
    rw [hexec, ← hbank₂]
    refine (Cpu.cell_popRegs_of_mem (mem_r0r12.mpr ⟨n, rfl⟩)).trans ?_
    rw [toNat_ofNat_of_lt (by omega), idxOf_r0r12, hword₂, h.general]
  · rw [hexec, ← hbank₂]
    exact Cpu.cell_popRegs_sp (by decide)
  · exact hother .usr .sp (fun _ => by decide) (fun hc => absurd hc.symm hb)
      fun hc => absurd hc.symm hb
  · exact hother .usr .lr (fun _ => by decide) (fun _ => by decide) fun _ => by decide
  · intro c x hc hx
    rw [hother c x (fun h => absurd h hc), h.cell c x hc]
    · intro hcb
      rw [hx hcb]
      decide
    · intro hcb
      rw [hx hcb]
      decide
    · intro hhome
      cases Bank.home_cases b x with
      | inl husr => exact absurd (hhome.trans husr) hc
      | inr hown =>
          rw [hx (hhome.trans hown)]
          decide

end Aimv6.Arch
