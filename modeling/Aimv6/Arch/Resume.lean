import Aimv6.Arch.StubBlocks

/-! # The interrupted program resumes

A C entry keeps the user sp and lr in the context object while the handler runs,
and a stub that moves them back resumes the program. The one stub that is no copy
of the others never resumes it where the exception found it.
-/

namespace Aimv6.Arch

open Support

def suspended (s : Cpu) : Cpu := { s with cpsr := s.spsr s.bank }

/-- Where the interrupted program goes on, by the banked lr. -/
def ExceptionKind.resumeAt : ExceptionKind → Word → Word
  | .SVC, lr => lr
  | .IRQ, lr => lr - 4
  | .FIQ, lr => lr - 4

/-- The interrupted program goes on in `s'` as if the exception taken in `s` had not been. -/
structure Resumes (kind : ExceptionKind) (s s' : Cpu) : Prop where
  pc : s'.pc = kind.resumeAt (s.reg .lr)
  cpsr : s'.cpsr = (suspended s).cpsr
  reg : ∀ x, s'.reg x = (suspended s).reg x

variable {sym : Symbols} {b : Bank} {context ret mode : Word} {s₀ s s' : Cpu}

/-! ## C entries -/

section CEntry

variable {obj : Nat}

theorem contextAt_setWord (hobj : contextAt context s = obj)
    (hapart : context.toNat + 4 ≤ obj ∨ obj + CONTEXT_SIZE ≤ context.toNat) {a : Nat} (ha : obj ≤ a)
    (ha' : a + 4 ≤ obj + CONTEXT_SIZE) (v : Word) : contextAt context (s.setWord a v) = obj := by
  rw [← hobj]
  exact congrArg BitVec.toNat (Cpu.word_setWord_of_apart (by omega))

theorem takeBank_eq (hobj : contextAt context s = obj)
    (hapart : context.toNat + 4 ≤ obj ∨ obj + CONTEXT_SIZE ≤ context.toNat) :
    takeBank context s =
      ((s.setWord (obj + SP_OFFSET) (s.reg (.r 0))).setWord (obj + LR_OFFSET) (s.reg (.r 1))).setWord
        (obj + SPSR_OFFSET) (s.spsr s.bank) := by
  obtain ⟨s₁, hs₁⟩ : ∃ s₁, s₁ = s.setWord (obj + SP_OFFSET) (s.reg (.r 0)) := ⟨_, rfl⟩
  have hsp : contextAt context s₁ = obj := by
    rw [hs₁]
    apply contextAt_setWord hobj hapart <;> unfold SP_OFFSET
    · omega
    · unfold CONTEXT_SIZE
      omega
  have hlr : contextAt context (s₁.setWord (obj + LR_OFFSET) (s.reg (.r 1))) = obj := by
    apply contextAt_setWord hsp hapart <;> unfold LR_OFFSET
    · omega
    · unfold CONTEXT_SIZE
      omega
  have hr1 : s₁.reg (.r 1) = s.reg (.r 1) := by
    rw [hs₁]
    rfl
  have hspsr : (s₁.setWord (obj + LR_OFFSET) (s.reg (.r 1))).spsr s.bank = s.spsr s.bank := by
    rw [hs₁]
    rfl
  unfold takeBank
  dsimp only
  rw [hobj, ← hs₁, hsp, hr1, hlr, ← hspsr, hs₁]
  rfl

theorem takeBank_spec (hs : s.bank = .usr) (hobj : contextAt context s = obj)
    (hapart : context.toNat + 4 ≤ obj ∨ obj + CONTEXT_SIZE ≤ context.toNat) :
    (takeBank context s).bank = .usr ∧
      Cpu.Undisturbed (contextArea context obj 0 SPSR_OFFSET) s (takeBank context s) ∧
      (takeBank context s).word (obj + SP_OFFSET) = s.reg (.r 0) ∧
      (takeBank context s).word (obj + LR_OFFSET) = s.reg (.r 1) := by
  have hout : ∀ off, SPSR_OFFSET ≤ off → off + 4 ≤ CONTEXT_SIZE →
      ∀ b ∈ contextArea context obj 0 SPSR_OFFSET, b < obj + off ∨ obj + off + 4 ≤ b := by
    intro off hoff hoff' b hb
    cases hb with
    | inl hvar => omega
    | inr hin => omega
  rw [takeBank_eq hobj hapart]
  refine ⟨hs, ?_, ?_, ?_⟩
  · exact (((Cpu.Undisturbed.refl _ s).setWord (hout SP_OFFSET (by decide) (by decide)) _).setWord
      (hout LR_OFFSET (by decide) (by decide)) _).setWord (hout SPSR_OFFSET (by decide) (by decide)) _
  · rw [Cpu.word_setWord_of_apart (by unfold SPSR_OFFSET SP_OFFSET; omega),
      Cpu.word_setWord_of_apart (by unfold LR_OFFSET SP_OFFSET; omega), Cpu.word_setWord_same]
  · rw [Cpu.word_setWord_of_apart (by unfold SPSR_OFFSET LR_OFFSET; omega), Cpu.word_setWord_same]

theorem giveBank_spec (context : Word) (hs : s.bank = .usr) :
    (giveBank context s).bank = .usr ∧ Cpu.Undisturbed Set.univ s (giveBank context s) ∧
      (giveBank context s).reg (.r 0) = s.word (contextAt context s + SP_OFFSET) ∧
      (giveBank context s).reg (.r 1) = s.word (contextAt context s + LR_OFFSET) := by
  have hhome : ∀ x, s.bank.home x = .usr := by
    rw [hs]
    exact Bank.home_usr
  refine ⟨hs, ?_, ?_, ?_⟩
  · exact (((Cpu.Undisturbed.refl Set.univ s).setSpsr hs _).setReg (hhome _) _).setReg (hhome _) _
  · exact Cpu.reg_setReg_same
  · exact (Cpu.reg_setReg_of_ne (by decide)).trans Cpu.reg_setReg_same


end CEntry

/-- What a C entry does between the saving and the restoring of the user's sp and lr, when it is
reached with the registers of `s₀` dumped. -/
structure Between (b : Bank) (context ret ret' : Word) (s₀ : Cpu) (middle : Cpu → Cpu) : Prop where
  bank : ∀ s, s.bank = .usr → (middle s).bank = .usr
  dumped : ∀ s, s.bank = .usr → Dumped b context ret s₀ s → Dumped b context ret' s₀ (middle s)
  kept : ∀ s, s.bank = .usr → Dumped b context ret s₀ s →
    AgreeOn (contextArea context (contextAt context s₀) SP_OFFSET CONTEXT_SIZE) s.mem (middle s).mem

variable {ret' : Word} {middle : Cpu → Cpu}

/-- What a stub relies on of its C entry. -/
def ServesStub (b : Bank) (context ret ret' : Word) (s₀ : Cpu) (entry : Cpu → Cpu) : Prop :=
  ∀ s, Dumped b context ret s₀ s → s.bank = .usr →
    (entry s).bank = .usr ∧ Dumped b context ret' s₀ (entry s) ∧
      (entry s).reg (.r 0) = s.reg (.r 0) ∧ (entry s).reg (.r 1) = s.reg (.r 1)

theorem servesStub_of_between (hplaced : Placed context s₀) (hb : b ≠ .usr)
    (hmiddle : Between b context ret ret' s₀ middle) :
    ServesStub b context ret ret' s₀ (fun s => giveBank context (middle (takeBank context s))) := by
  intro s h hs
  dsimp only
  obtain ⟨hbank₁, hund₁, hsp₁, hlr₁⟩ := takeBank_spec hs h.pointer hplaced.apart
  have h₁ := h.undisturbed hb hund₁
  obtain ⟨s₂, hs₂⟩ : ∃ s₂, s₂ = middle (takeBank context s) := ⟨_, rfl⟩
  have hbank₂ : s₂.bank = .usr := by
    rw [hs₂]
    exact hmiddle.bank _ hbank₁
  have h₂ : Dumped b context ret' s₀ s₂ := by
    rw [hs₂]
    exact hmiddle.dumped _ hbank₁ h₁
  have hkept : ∀ off, SP_OFFSET ≤ off → off + 4 ≤ CONTEXT_SIZE →
      s₂.word (contextAt context s₀ + off) =
        (takeBank context s).word (contextAt context s₀ + off) := by
    intro off hoff hoff'
    rw [hs₂]
    apply Cpu.word_congr (hmiddle.kept _ hbank₁ h₁)
    exact fun a ha ha' => Or.inr ⟨by omega, by omega⟩
  rw [← hs₂]
  obtain ⟨hbank₃, hund₃, hr0, hr1⟩ := giveBank_spec context hbank₂
  rw [h₂.pointer] at hr0 hr1
  refine ⟨hbank₃, h₂.undisturbed hb (hund₃.mono (Set.subset_univ _)), ?_, ?_⟩
  · rw [hr0, hkept _ (by decide) (by decide), hsp₁]
  · rw [hr1, hkept _ (by decide) (by decide), hlr₁]

theorem between_call {body : Cpu → Frame} (hb : b ≠ .usr)
    (hbody : SparesContext context (contextAt context s₀) body) :
    Between b context ret ret s₀ (fun s => s.call body) where
  bank s hs := (Cpu.bank_call s body).trans hs
  dumped s hs h := by
    apply h.undisturbed hb
    apply (Cpu.Undisturbed.refl _ s).call hs
    apply (hbody s).mono
    intro a ha
    cases ha with
    | inl hvar => exact Or.inl hvar
    | inr hin => exact Or.inr ⟨hin.1, hin.2.trans (by unfold SPSR_OFFSET CONTEXT_SIZE; omega)⟩
  kept s _ _ := by
    apply (hbody s).mono
    intro a ha
    cases ha with
    | inl hvar => exact Or.inl hvar
    | inr hin => exact Or.inr ⟨by omega, hin.2⟩

theorem Between.comp {ret'' : Word} {later : Cpu → Cpu} (h : Between b context ret ret' s₀ middle)
    (hlater : Between b context ret' ret'' s₀ later) :
    Between b context ret ret'' s₀ (fun s => later (middle s)) where
  bank s hs := hlater.bank _ (h.bank s hs)
  dumped s hs hd := hlater.dumped _ (h.bank s hs) (h.dumped s hs hd)
  kept s hs hd := (h.kept s hs hd).trans (hlater.kept _ (h.bank s hs) (h.dumped s hs hd))

theorem between_pc (hplaced : Placed context s₀) :
    Between b context ret (ret - 4) s₀ (fun s => s.setWord (contextAt context s + PC_OFFSET)
      (s.word (contextAt context s + PC_OFFSET) - 4)) where
  bank s hs := hs
  dumped s hs h := by
    have hapart := hplaced.apart
    unfold CONTEXT_SIZE at hapart
    rw [h.pointer]
    have hword : ∀ a, a + 4 ≤ contextAt context s₀ + 52 ∨ contextAt context s₀ + 56 ≤ a →
        (s.setWord (contextAt context s₀ + PC_OFFSET)
          (s.word (contextAt context s₀ + PC_OFFSET) - 4)).word a = s.word a := by
      intro a ha
      apply Cpu.word_setWord_of_apart
      unfold PC_OFFSET
      omega
    constructor
    case pointer => exact (congrArg BitVec.toNat (hword _ (by omega))).trans h.pointer
    case general =>
      intro n
      have hn := n.isLt
      rw [hword _ (by omega), h.general]
    case pc => rw [Cpu.word_setWord_same, h.pc]
    case cpsr => rw [hword _ (by unfold CPSR_OFFSET; omega), h.cpsr]
    case sp => exact h.sp
    case cell => exact h.cell
    case spsr => exact h.spsr
  kept s hs h := by
    have hapart := hplaced.apart
    rw [h.pointer]
    apply store32_agreeOn
    intro a ha
    unfold PC_OFFSET
    cases ha with
    | inl hvar => unfold CONTEXT_SIZE at hapart; omega
    | inr hin => unfold SP_OFFSET at hin; omega

theorem intEntSvc_spec {body : Cpu → Frame} (hplaced : Placed sym.contextSvc s₀)
    (hbody : SparesContext sym.contextSvc (contextAt sym.contextSvc s₀) body) :
    ServesStub .svc sym.contextSvc ret ret s₀ (intEntSvc sym body) := by
  have hserves : ServesStub .svc sym.contextSvc ret ret s₀ _ :=
    servesStub_of_between hplaced (by decide) (between_call (by decide) hbody)
  exact hserves

theorem intEntFiq_spec {body : Cpu → Frame} (hplaced : Placed sym.contextFiq s₀)
    (hbody : SparesContext sym.contextFiq (contextAt sym.contextFiq s₀) body) :
    ServesStub .fiq sym.contextFiq ret ret s₀ (intEntFiq sym body) := by
  have hserves : ServesStub .fiq sym.contextFiq ret ret s₀ _ :=
    servesStub_of_between hplaced (by decide) (between_call (by decide) hbody)
  exact hserves

theorem intEntIrq_spec {before body : Cpu → Frame} (hplaced : Placed sym.contextIrq s₀)
    (hbefore : SparesContext sym.contextIrq (contextAt sym.contextIrq s₀) before)
    (hbody : SparesContext sym.contextIrq (contextAt sym.contextIrq s₀) body) :
    ServesStub .irq sym.contextIrq ret (ret - 4) s₀ (intEntIrq sym before body) := by
  have hpc : Between .irq sym.contextIrq ret (ret - 4) s₀ _ := between_pc hplaced
  have hmiddle := ((between_call (by decide) hbefore).comp hpc).comp (between_call (by decide) hbody)
  have hserves := servesStub_of_between hplaced (by decide) hmiddle
  exact hserves

/-! ## Whole stubs -/

theorem enter_spec {entry : Cpu → Cpu} (hs : s₀.bank = b) (hb : b ≠ .usr)
    (hplaced : Placed context s₀)
    (hentry : ServesStub b context (s₀.reg .lr) ret s₀ entry)
    (hrun : s₀.run (dumpContext context ++ changeMode 0b11111 ++ sysStack sym ++ [.bl entry]) = s) :
    s.bank = .usr ∧ Dumped b context ret s₀ s ∧ s.reg (.r 0) = s₀.cell .usr .sp ∧
      s.reg (.r 1) = s₀.cell .usr .lr := by
  obtain ⟨s₁, hs₁⟩ : ∃ s₁, s₁ = s₀.run (dumpContext context) := ⟨_, rfl⟩
  obtain ⟨s₂, hs₂⟩ : ∃ s₂, s₂ = s₁.run (changeMode 0b11111) := ⟨_, rfl⟩
  obtain ⟨s₃, hs₃⟩ : ∃ s₃, s₃ = s₂.run (sysStack sym) := ⟨_, rfl⟩
  have hcall : s = { entry (s₃.setReg .lr (s₃.pc + 4)) with pc := s₃.pc + 4 } := by
    rw [← hrun, Cpu.run_append, Cpu.run_append, Cpu.run_append, ← hs₁, ← hs₂, ← hs₃]
    rfl
  obtain ⟨-, hdumped₁, hsp₁, hlr₁⟩ := dumpContext_spec hs hb hplaced
  rw [← hs₁] at hdumped₁ hsp₁ hlr₁
  obtain ⟨hbank₂, hund₂, hcell₂⟩ := changeMode_spec 0b11111 s₁
  rw [← hs₂] at hbank₂ hund₂ hcell₂
  obtain ⟨hbank₃, hund₃, hr0₃, hr1₃⟩ := sysStack_spec sym hbank₂
  rw [← hs₃] at hbank₃ hund₃ hr0₃ hr1₃
  have hund : Cpu.Undisturbed Set.univ s₁ (s₃.setReg .lr (s₃.pc + 4)) :=
    (hund₂.trans hund₃).setReg (by rw [hbank₃]; rfl) _
  obtain ⟨hbank, hdumped, hr0, hr1⟩ :=
    hentry _ (hdumped₁.undisturbed hb (hund.mono (Set.subset_univ _))) hbank₃
  rw [hcall]
  refine ⟨hbank, hdumped.undisturbed hb ⟨fun _ _ => rfl, fun _ _ _ => rfl, fun _ _ => rfl⟩, ?_, ?_⟩
  · refine hr0.trans ?_
    rw [Cpu.reg_setReg_of_ne (by decide), hr0₃, hcell₂ _ _ (by decide), hsp₁]
  · refine hr1.trans ?_
    rw [Cpu.reg_setReg_of_ne (by decide), hr1₃, hcell₂ _ _ (by decide), hlr₁]

theorem leave_spec (hplaced : Placed context s₀) (hb : b ≠ .usr) (h : Dumped b context ret s₀ s)
    (hmode : Bank.ofMode (modeBits mode) = b)
    (hrun : s.run (changeMode mode ++ returnFromInterrupt) = s') :
    Returned b context ret s₀ s s' := by
  obtain ⟨hbank₁, hund₁, hcell₁⟩ := changeMode_spec mode s
  have h₁ := return_spec hplaced hb (h.undisturbed hb (hund₁.mono (Set.subset_univ _)))
    (hbank₁.trans hmode) ((Cpu.run_append s _ _).symm.trans hrun)
  exact { h₁ with
    usr_sp := h₁.usr_sp.trans (hcell₁ _ _ (by decide))
    usr_lr := h₁.usr_lr.trans (hcell₁ _ _ (by decide)) }

/-- The two instructions behind the call that give the user sp and lr back. -/
theorem moveBack_spec (hs : s.bank = .usr) :
    (s.run [.mov .lr (.r 1), .mov .sp (.r 0)]).bank = .usr ∧
      Cpu.Undisturbed Set.univ s (s.run [.mov .lr (.r 1), .mov .sp (.r 0)]) ∧
      (s.run [.mov .lr (.r 1), .mov .sp (.r 0)]).cell .usr .sp = s.reg (.r 0) ∧
      (s.run [.mov .lr (.r 1), .mov .sp (.r 0)]).cell .usr .lr = s.reg (.r 1) := by
  have hhome : ∀ x, s.bank.home x = .usr := by
    rw [hs]
    exact Bank.home_usr
  simp only [Cpu.run_cons, Cpu.run_nil, Cpu.exec, Cpu.setReg_next, Cpu.reg_next, Cpu.cell_next]
  refine ⟨hs, ?_, ?_, ?_⟩
  · exact (((Cpu.Undisturbed.refl Set.univ s).setReg (hhome _) _).setReg (hhome _) _).next.next
  · rw [← hs]
    exact Cpu.reg_setReg_same.trans (Cpu.reg_setReg_of_ne (by decide))
  · rw [Cpu.cell_setReg_of_ne (by decide), ← hs]
    exact Cpu.reg_setReg_same

theorem intPre_spec {entry : Cpu → Cpu} (hs : s₀.bank = b) (hb : b ≠ .usr)
    (hplaced : Placed context s₀) (hmode : Bank.ofMode (modeBits mode) = b)
    (hentry : ServesStub b context (s₀.reg .lr) ret s₀ entry) :
    Returned b context ret s₀ s₀ (s₀.run (intPre sym context mode entry)) := by
  obtain ⟨s₁, hs₁⟩ : ∃ s₁, s₀.run
    (dumpContext context ++ changeMode 0b11111 ++ sysStack sym ++ [.bl entry]) = s₁ := ⟨_, rfl⟩
  obtain ⟨hbank₁, hdumped₁, hr0, hr1⟩ := enter_spec hs hb hplaced hentry hs₁
  obtain ⟨hbank₂, hund₂, hsp₂, hlr₂⟩ := moveBack_spec hbank₁
  have hrun : s₀.run (intPre sym context mode entry) =
      (s₁.run [.mov .lr (.r 1), .mov .sp (.r 0)]).run (changeMode mode ++ returnFromInterrupt) := by
    rw [← hs₁, ← Cpu.run_append, ← Cpu.run_append, intPre]
    simp only [List.append_assoc]
  have h := leave_spec hplaced hb (hdumped₁.undisturbed hb (hund₂.mono (Set.subset_univ _))) hmode
    hrun.symm
  exact { h with
    usr_sp := h.usr_sp.trans (hsp₂.trans hr0)
    usr_lr := h.usr_lr.trans (hlr₂.trans hr1) }

/-! ## Resumption -/

theorem reg_suspended (hs : s₀.bank = b) (x : Reg) : (suspended s₀).reg x =
    s₀.cell ((Bank.ofMode (modeBits (s₀.spsr b))).home x) x := by
  rw [← hs]
  rfl

theorem Returned.reg (h : Returned b context ret s₀ s s') (x : Reg) : s'.reg x =
    s'.cell ((Bank.ofMode (modeBits (s₀.spsr b))).home x) x := by
  rw [← h.cpsr]
  rfl

theorem Returned.reg_suspended (h : Returned b context ret s₀ s₀ s') (hs : s₀.bank = b)
    (hb : b ≠ .fiq) (hsp : Bank.ofMode (modeBits (s₀.spsr b)) = b → s₀.reg .sp = s'.cell b .sp)
    (x : Reg) : s'.reg x = (suspended s₀).reg x := by
  rw [h.reg, Arch.reg_suspended hs]
  obtain ⟨c, hc⟩ : ∃ c, c = Bank.ofMode (modeBits (s₀.spsr b)) := ⟨_, rfl⟩
  rw [← hc] at hsp ⊢
  have husr : s'.cell .usr x = s₀.cell .usr x := by
    cases x with
    | r n =>
        have hgeneral := h.general n
        rwa [Cpu.reg, hs, Bank.home_general (Or.inl hb)] at hgeneral
    | sp => exact h.usr_sp
    | lr => exact h.usr_lr
  by_cases hhome : c.home x = .usr
  · rw [hhome, husr]
  · have hown : c.home x = c := (Bank.home_cases c x).resolve_left hhome
    rw [hown] at hhome ⊢
    by_cases hcb : c = b
    · cases x with
      | r n =>
          rw [hcb, Bank.home_general (Or.inl hb)] at hown
          exact absurd (hcb.trans hown.symm) hhome
      | sp =>
          rw [hcb, ← hsp hcb, Cpu.reg, hs]
          rfl
      | lr => exact h.other c .lr hhome fun _ => rfl
    · exact h.other c x hhome fun h => absurd h hcb

theorem ne_sub_four (lr : Word) : lr ≠ lr - 4 := by
  bv_omega

variable {kind : ExceptionKind} {before body : Cpu → Frame}

/-- What the code of an exception hands to the program: the pc is the banked lr, four less only
behind `int_ent_irq`. -/
theorem exceptionCode_copy (hkind : kind ≠ .FIQ) (hs : s.bank = kind.bank)
    (hplaced : Placed (sym.context kind) s)
    (hbefore : SparesContext (sym.context kind) (contextAt (sym.context kind) s) before)
    (hbody : SparesContext (sym.context kind) (contextAt (sym.context kind) s) body) :
    Returned kind.bank (sym.context kind) (kind.resumeAt (s.reg .lr)) s s
      (s.run (exceptionCode sym before body kind)) := by
  cases kind with
  | SVC => exact intPre_spec hs (by decide) hplaced (by decide) (intEntSvc_spec hplaced hbody)
  | IRQ => exact intPre_spec hs (by decide) hplaced (by decide) (intEntIrq_spec hplaced hbefore hbody)
  | FIQ => exact absurd rfl hkind

theorem exceptionCode_fiq_pc (hs : s.bank = .fiq) (hplaced : Placed sym.contextFiq s)
    (hbody : SparesContext sym.contextFiq (contextAt sym.contextFiq s) body) :
    (s.run (exceptionCode sym before body .FIQ)).pc = s.reg .lr := by
  obtain ⟨s₁, hs₁⟩ : ∃ s₁, s.run (dumpContext sym.contextFiq ++ changeMode 0b11111 ++ sysStack sym ++
    [.bl (intEntFiq sym body)]) = s₁ := ⟨_, rfl⟩
  obtain ⟨hbank₁, hdumped₁, -, -⟩ :=
    enter_spec hs (by decide) hplaced (intEntFiq_spec hplaced hbody) hs₁
  have hhome : ∀ x, s₁.bank.home x = .usr := by
    rw [hbank₁]
    exact Bank.home_usr
  have hund : Cpu.Undisturbed Set.univ s₁ (s₁.run [.mov (.r 1) .lr, .mov .sp (.r 0)]) :=
    (((Cpu.Undisturbed.refl Set.univ s₁).setReg (hhome _) _).next.setReg (hhome _) _).next
  have hrun : s.run (exceptionCode sym before body .FIQ) =
      (s₁.run [.mov (.r 1) .lr, .mov .sp (.r 0)]).run (changeMode 0b10001 ++ returnFromInterrupt) := by
    rw [← hs₁, ← Cpu.run_append, ← Cpu.run_append, exceptionCode, intPreFIQ]
    simp only [List.append_assoc]
  exact (leave_spec hplaced (by decide) (hdumped₁.undisturbed (by decide)
    (hund.mono (Set.subset_univ _))) (by decide) hrun.symm).pc

/-- The program is as it was before SVC and IRQ, unless it was in the exception's own mode, whose sp
the stub has used up. It is never so before FIQ. -/
theorem exception_resumes_iff (hs : s.bank = kind.bank) (hplaced : Placed (sym.context kind) s)
    (hbefore : SparesContext (sym.context kind) (contextAt (sym.context kind) s) before)
    (hbody : SparesContext (sym.context kind) (contextAt (sym.context kind) s) body) :
    Resumes kind s (s.run (exceptionCode sym before body kind)) ↔
      kind ≠ .FIQ ∧ (Bank.ofMode (modeBits (s.spsr kind.bank)) = kind.bank →
        s.reg .sp = BitVec.ofNat 32 (contextAt (sym.context kind) s)) := by
  by_cases hkind : kind = .FIQ
  · subst hkind
    constructor
    · intro h
      have hpc := h.pc
      rw [exceptionCode_fiq_pc hs hplaced hbody] at hpc
      exact absurd hpc (ne_sub_four _)
    · exact fun h => absurd rfl h.1
  · have h := exceptionCode_copy hkind hs hplaced hbefore hbody
    constructor
    · intro hres
      refine ⟨hkind, fun hown => ?_⟩
      have hsp := hres.reg .sp
      rw [h.reg, reg_suspended hs, hown] at hsp
      rw [Cpu.reg, hs]
      exact hsp.symm.trans h.sp
    · intro hcond
      refine ⟨h.pc, ?_, ?_⟩
      · rw [h.cpsr, ← hs]
        rfl
      · apply h.reg_suspended hs
        · cases kind with
          | SVC => decide
          | IRQ => decide
          | FIQ => exact absurd rfl hkind
        · exact fun hown => (hcond.2 hown).trans h.sp.symm

/-! ## A user program -/

def someSymbols : Symbols := ⟨0x1000, 0x1004, 0x1008, 0x100C⟩

/-- The exception has just been taken from USR mode, with a value of its own in every register; the
objects lie at 0x2000, 0x2100 and 0x2200. -/
def fromUser (kind : ExceptionKind) : Cpu where
  cell b x := match x with
    | .r n => BitVec.ofNat 32 (0x1111 * (n.val + 1))
    | .sp => if b = .usr then 0x7FF0 else 0x6000
    | .lr => if b = .usr then 0x80F4 else 0x8004
  spsr _ := 0x20000010
  cpsr := match kind with
    | .SVC => 0x13
    | .IRQ => 0x12
    | .FIQ => 0x11
  pc := 0
  mem a := if a = 0x1001 then 0x20 else if a = 0x1005 then 0x21 else if a = 0x1009 then 0x22 else 0

/-- A handler that leaves none of the registers, and nothing of memory above the objects. -/
def clobber (s : Cpu) : Frame where
  reg _ := 0xDEADBEEF
  flags := 0xF80F0000
  mem a := if a < 0x3000 then s.mem a else 0xFF

theorem fromUser_bank (kind : ExceptionKind) : (fromUser kind).bank = kind.bank := by
  cases kind <;> decide

theorem fromUser_placed (kind : ExceptionKind) :
    Placed (someSymbols.context kind) (fromUser kind) := by
  cases kind <;> exact ⟨by decide, by decide⟩

theorem clobber_spares (kind : ExceptionKind) : SparesContext (someSymbols.context kind)
    (contextAt (someSymbols.context kind) (fromUser kind)) clobber := by
  have hlow : (someSymbols.context kind).toNat + 4 ≤ 0x3000 ∧
      contextAt (someSymbols.context kind) (fromUser kind) + CONTEXT_SIZE ≤ 0x3000 := by
    cases kind <;> decide
  intro s b hb
  apply if_pos
  cases hb with
  | inl hvar => omega
  | inr hobj => omega

theorem svc_from_user_resumes : Resumes .SVC (fromUser .SVC)
    ((fromUser .SVC).run (exceptionCode someSymbols clobber clobber .SVC)) :=
  (exception_resumes_iff (fromUser_bank .SVC) (fromUser_placed .SVC) (clobber_spares .SVC)
    (clobber_spares .SVC)).mpr ⟨by decide, fun h => absurd h (by decide)⟩

/-- Behind a fast interrupt the program misses an instruction. -/
theorem fiq_from_user_skips : Placed someSymbols.contextFiq (fromUser .FIQ) ∧
    SparesContext someSymbols.contextFiq (contextAt someSymbols.contextFiq (fromUser .FIQ)) clobber ∧
    ¬ Resumes .FIQ (fromUser .FIQ)
      ((fromUser .FIQ).run (exceptionCode someSymbols clobber clobber .FIQ)) := by
  refine ⟨fromUser_placed .FIQ, clobber_spares .FIQ, ?_⟩
  intro h
  have hpc := h.pc
  rw [exceptionCode_fiq_pc (fromUser_bank .FIQ) (fromUser_placed .FIQ) (clobber_spares .FIQ)] at hpc
  exact absurd hpc (ne_sub_four _)

end Aimv6.Arch
