import Aimv6.Support.ByteMemory
import Mathlib.Data.List.FinRange
import Mathlib.Data.List.GetD

/-! # A processor with banked registers

A register name denotes one cell for each mode that has its own: every mode but
the two that share the user bank has its own sp, lr and saved status, and FIQ
mode its own r8 to r12. An instruction reads and writes the cells of the mode it
is executed in. Code between two entries of the kernel is a list of instructions;
a call is an instruction that applies the callee.
-/

namespace Support

abbrev Word := BitVec 32

/-- The modes with registers of their own; user mode and system mode share theirs. -/
inductive Bank where
  | usr | fiq | irq | svc | abt | und | mon
deriving DecidableEq, Repr

/-- The bank in use in the mode that a status register's low five bits name. -/
def Bank.ofMode (mode : BitVec 5) : Bank :=
  if mode = 0b10001 then .fiq
  else if mode = 0b10010 then .irq
  else if mode = 0b10011 then .svc
  else if mode = 0b10111 then .abt
  else if mode = 0b11011 then .und
  else if mode = 0b10110 then .mon
  else .usr

/-- The mode field of a status word. -/
def modeBits (psr : Word) : BitVec 5 := psr.setWidth 5

instance generalRegs_neZero : @NeZero Nat Zero.ofOfNat0 13 := ⟨by decide⟩

inductive Reg where
  | r (n : Fin 13)
  | sp
  | lr
deriving DecidableEq, Repr

/-- Where a register's cell is, seen from a mode of bank `b`. -/
def Bank.home (b : Bank) : Reg → Bank
  | .r n => if b = .fiq ∧ 8 ≤ n.val then .fiq else .usr
  | .sp => b
  | .lr => b

/-- In a mode with an sp of its own, nothing but FIQ mode's r8 to r12 is hidden. -/
theorem Bank.home_general {b : Bank} {n : Fin 13} (h : b ≠ .fiq ∨ n.val < 8) :
    b.home (.r n) = .usr := by
  apply if_neg
  intro hfiq
  cases h with
  | inl hb => exact hb hfiq.1
  | inr hn => omega

theorem Bank.home_cases (b : Bank) (x : Reg) : b.home x = .usr ∨ b.home x = b := by
  cases x with
  | r n =>
      by_cases h : b = .fiq ∧ 8 ≤ n.val
      · exact Or.inr ((if_pos h).trans h.1.symm)
      · exact Or.inl (if_neg h)
  | sp => exact Or.inr rfl
  | lr => exact Or.inr rfl

theorem Bank.home_usr (x : Reg) : Bank.usr.home x = .usr := by
  cases x <;> simp [Bank.home]

structure Cpu where
  cell : Bank → Reg → Word
  /-- The spsr of each mode. User and system mode have none: what they write is seen by nobody. -/
  spsr : Bank → Word
  cpsr : Word
  pc : Word
  mem : Memory

namespace Cpu

def bank (s : Cpu) : Bank := Bank.ofMode (modeBits s.cpsr)

def reg (s : Cpu) (x : Reg) : Word := s.cell (s.bank.home x) x

def setReg (s : Cpu) (x : Reg) (v : Word) : Cpu :=
  { s with cell := fun b y => if b = s.bank.home x ∧ y = x then v else s.cell b y }

def setSpsr (s : Cpu) (v : Word) : Cpu :=
  { s with spsr := fun b => if b = s.bank then v else s.spsr b }

/-- The word at address `a`. -/
def word (s : Cpu) (a : Nat) : Word := BitVec.ofNat 32 (load32 s.mem a)

def setWord (s : Cpu) (a : Nat) (v : Word) : Cpu := { s with mem := store32 s.mem a v.toNat }

/-- Store `list`, lowest register at the lowest address, from address `a` on. -/
def storeRegs (s : Cpu) (a : Nat) (list : List Reg) : Cpu :=
  { s with mem := fillWords a (fun i => (s.reg (list.getD i .lr)).toNat) list.length s.mem }

/-- Load `list` from `base` on, and leave `base` in sp. -/
def popRegs (s : Cpu) (base : Word) (list : List Reg) : Cpu :=
  let s' := s.setReg .sp base
  { s' with cell := fun b x =>
      if b = s.bank.home x ∧ x ∈ list then s.word (base.toNat + 4 * list.idxOf x)
      else s'.cell b x }

end Cpu

/-- What an `msr` without a field suffix writes: the flag byte and the control byte. -/
def psrFc (old new : Word) : Word := (old &&& 0x00FFFF00) ||| (new &&& 0xFF0000FF)

/-- What code in any mode may write of a status word: the flags N, Z, C, V, Q and GE. -/
def psrFlags (old new : Word) : Word := (old &&& 0x07F0FFFF) ||| (new &&& 0xF80F0000)

/-- What a compiled function leaves behind in the mode it runs in. -/
structure Frame where
  reg : Reg → Word
  flags : Word
  mem : Memory

/-- A compiled function: it may read the whole processor, and returns to its caller. -/
def Cpu.call (s : Cpu) (f : Cpu → Frame) : Cpu :=
  { s with
    cell := fun b x => if b = s.bank.home x then (f s).reg x else s.cell b x
    cpsr := psrFlags s.cpsr (f s).flags
    mem := (f s).mem }

inductive Instr where
  /-- `ldr d, =c` -/
  | ldrConst (d : Reg) (c : Word)
  /-- `ldr d, [n]` -/
  | ldr (d n : Reg)
  /-- `stmia sp!, {list}` -/
  | stmia (list : List Reg)
  /-- `ldmdb sp!, {list}` -/
  | ldmdb (list : List Reg)
  /-- `ldmdb sp!, {list, pc}^`: the status word comes back with the pc. -/
  | ldmdbRet (list : List Reg)
  | mov (d n : Reg)
  | mrsCpsr (d : Reg)
  | mrsSpsr (d : Reg)
  | msrCpsr (n : Reg)
  | msrSpsr (n : Reg)
  | andImm (d n : Reg) (c : Word)
  | orrImm (d n : Reg) (c : Word)
  /-- `bl f`, where `f` is what the callee does to the processor. -/
  | bl (f : Cpu → Cpu)

namespace Cpu

def next (s : Cpu) : Cpu := { s with pc := s.pc + 4 }

def exec (s : Cpu) : Instr → Cpu
  | .ldrConst d c => (s.setReg d c).next
  | .ldr d n => (s.setReg d (s.word (s.reg n).toNat)).next
  | .stmia list =>
      ((s.storeRegs (s.reg .sp).toNat list).setReg .sp
        (s.reg .sp + BitVec.ofNat 32 (4 * list.length))).next
  | .ldmdb list => (s.popRegs (s.reg .sp - BitVec.ofNat 32 (4 * list.length)) list).next
  | .ldmdbRet list =>
      let base := s.reg .sp - BitVec.ofNat 32 (4 * (list.length + 1))
      { s.popRegs base list with
        cpsr := s.spsr s.bank
        pc := s.word (base.toNat + 4 * list.length) }
  | .mov d n => (s.setReg d (s.reg n)).next
  | .mrsCpsr d => (s.setReg d s.cpsr).next
  | .mrsSpsr d => (s.setReg d (s.spsr s.bank)).next
  | .msrCpsr n => { s with cpsr := psrFc s.cpsr (s.reg n) }.next
  | .msrSpsr n => (s.setSpsr (psrFc (s.spsr s.bank) (s.reg n))).next
  | .andImm d n c => (s.setReg d (s.reg n &&& c)).next
  | .orrImm d n c => (s.setReg d (s.reg n ||| c)).next
  | .bl f => { f (s.setReg .lr (s.pc + 4)) with pc := s.pc + 4 }

def run (s : Cpu) (code : List Instr) : Cpu := code.foldl exec s

@[simp] theorem run_nil (s : Cpu) : s.run [] = s := rfl

@[simp] theorem run_cons (s : Cpu) (i : Instr) (code : List Instr) :
    s.run (i :: code) = (s.exec i).run code := rfl

theorem run_append (s : Cpu) (code rest : List Instr) :
    s.run (code ++ rest) = (s.run code).run rest := List.foldl_append

/-! ## Registers -/

variable {s : Cpu} {x y : Reg} {v w : Word}

@[simp] theorem bank_setReg : (s.setReg x v).bank = s.bank := rfl

@[simp] theorem bank_next : s.next.bank = s.bank := rfl

@[simp] theorem reg_next : s.next.reg x = s.reg x := rfl

@[simp] theorem cell_next : s.next.cell = s.cell := rfl

@[simp] theorem mem_next : s.next.mem = s.mem := rfl

@[simp] theorem spsr_next : s.next.spsr = s.spsr := rfl

@[simp] theorem spsr_setReg : (s.setReg x v).spsr = s.spsr := rfl

@[simp] theorem word_next (a : Nat) : s.next.word a = s.word a := rfl

@[simp] theorem word_setReg (a : Nat) : (s.setReg x v).word a = s.word a := rfl

@[simp] theorem setReg_next : s.next.setReg x v = (s.setReg x v).next := rfl

@[simp] theorem setReg_setReg : (s.setReg x v).setReg x w = s.setReg x w := by
  have hcell : ((s.setReg x v).setReg x w).cell = (s.setReg x w).cell := by
    funext b y
    by_cases h : b = s.bank.home x ∧ y = x
    · exact (if_pos h).trans (if_pos h).symm
    · exact (if_neg h).trans ((if_neg h).trans (if_neg h).symm)
  show { s with cell := ((s.setReg x v).setReg x w).cell } = s.setReg x w
  rw [hcell]
  rfl

@[simp] theorem reg_setReg_same : (s.setReg x v).reg x = v := if_pos ⟨rfl, rfl⟩

theorem reg_setReg_of_ne (h : y ≠ x) : (s.setReg x v).reg y = s.reg y := if_neg fun hy => h hy.2

theorem cell_setReg_of_ne {b : Bank} (h : y ≠ x) : (s.setReg x v).cell b y = s.cell b y :=
  if_neg fun hy => h hy.2

theorem cell_setReg_of_bank {b : Bank} (h : b ≠ s.bank.home x) :
    (s.setReg x v).cell b y = s.cell b y := if_neg fun hb => h hb.1

/-! ## Block transfers -/

theorem word_congr {s s' : Cpu} {area : Set Nat} (h : AgreeOn area s.mem s'.mem) {a : Nat}
    (ha : ∀ b, a ≤ b → b < a + 4 → b ∈ area) : s'.word a = s.word a :=
  congrArg (BitVec.ofNat 32) (load32_congr h ha)

theorem word_setWord_same (a : Nat) : (s.setWord a v).word a = v := by
  unfold word setWord
  dsimp only
  rw [load32_store32_of_lt _ v.isLt, BitVec.ofNat_toNat, BitVec.setWidth_eq]

theorem word_setWord_of_apart {a b : Nat} (h : a + 4 ≤ b ∨ b + 4 ≤ a) :
    (s.setWord a v).word b = s.word b :=
  congrArg (BitVec.ofNat 32) (load32_store32_ne s.mem h)

/-- What is stored of a register is the register. -/
theorem word_storeRegs {list : List Reg} (a : Nat) (hx : x ∈ list) :
    (s.storeRegs a list).word (a + 4 * list.idxOf x) = s.reg x := by
  have hi : list.idxOf x < list.length := List.idxOf_lt_length_of_mem hx
  unfold word storeRegs
  dsimp only
  rw [load32_fillWords hi, List.getD_eq_getElem _ _ hi, List.getElem_idxOf hi,
    Nat.mod_eq_of_lt (s.reg x).isLt, BitVec.ofNat_toNat, BitVec.setWidth_eq]

theorem word_storeRegs_of_apart {list : List Reg} {a b : Nat}
    (h : a + 4 * list.length ≤ b ∨ b + 4 ≤ a) : (s.storeRegs a list).word b = s.word b := by
  have hagree : AgreeOn (Set.Ico b (b + 4)) s.mem (s.storeRegs a list).mem := by
    intro c hc
    apply fillWords_outside
    rw [Set.mem_Ico] at hc
    omega
  exact word_congr hagree fun c hc hc' => ⟨hc, hc'⟩

section Stmia

variable {list : List Reg} {a : Nat}

@[simp] theorem bank_stmia : (s.exec (.stmia list)).bank = s.bank := rfl

@[simp] theorem spsr_stmia : (s.exec (.stmia list)).spsr = s.spsr := rfl

theorem reg_sp_stmia :
    (s.exec (.stmia list)).reg .sp = s.reg .sp + BitVec.ofNat 32 (4 * list.length) := by
  show ((s.storeRegs (s.reg .sp).toNat list).setReg .sp _).reg .sp = _
  exact reg_setReg_same

theorem cell_stmia_of_ne {b : Bank} (h : x ≠ .sp) :
    (s.exec (.stmia list)).cell b x = s.cell b x := by
  show ((s.storeRegs (s.reg .sp).toNat list).setReg .sp _).cell b x = _
  exact cell_setReg_of_ne h

theorem cell_stmia_of_bank {b : Bank} (h : b ≠ s.bank) :
    (s.exec (.stmia list)).cell b x = s.cell b x := by
  show ((s.storeRegs (s.reg .sp).toNat list).setReg .sp _).cell b x = _
  exact cell_setReg_of_bank h

theorem word_stmia (ha : (s.reg .sp).toNat = a) (hx : x ∈ list) :
    (s.exec (.stmia list)).word (a + 4 * list.idxOf x) = s.reg x := by
  subst ha
  exact word_storeRegs _ hx

theorem word_stmia_of_apart {b : Nat} (ha : (s.reg .sp).toNat = a)
    (h : a + 4 * list.length ≤ b ∨ b + 4 ≤ a) : (s.exec (.stmia list)).word b = s.word b := by
  subst ha
  exact word_storeRegs_of_apart h

end Stmia

section Pop

variable {list : List Reg} {a : Nat} {b : Bank}

@[simp] theorem bank_popRegs : (s.popRegs v list).bank = s.bank := rfl

@[simp] theorem spsr_popRegs : (s.popRegs v list).spsr = s.spsr := rfl

@[simp] theorem word_popRegs : (s.popRegs v list).word a = s.word a := rfl

theorem cell_popRegs_of_mem (hx : x ∈ list) :
    (s.popRegs v list).cell (s.bank.home x) x = s.word (v.toNat + 4 * list.idxOf x) :=
  if_pos ⟨rfl, hx⟩

theorem cell_popRegs_sp (h : .sp ∉ list) : (s.popRegs v list).cell s.bank .sp = v :=
  (if_neg fun hsp => h hsp.2).trans reg_setReg_same

theorem cell_popRegs (h : b = s.bank.home x → x ∉ list ∧ x ≠ .sp) :
    (s.popRegs v list).cell b x = s.cell b x := by
  show (if b = s.bank.home x ∧ x ∈ list then _ else (s.setReg .sp v).cell b x) = _
  rw [if_neg fun hx => (h hx.1).1 hx.2]
  apply if_neg
  rintro ⟨hb, rfl⟩
  exact (h hb).2 rfl

theorem exec_ldmdb (hsp : s.reg .sp = BitVec.ofNat 32 (a + 4 * list.length)) :
    s.exec (.ldmdb list) = (s.popRegs (BitVec.ofNat 32 a) list).next := by
  rw [exec, hsp, BitVec.ofNat_add, BitVec.add_sub_cancel]

theorem exec_ldmdbRet (hsp : s.reg .sp = BitVec.ofNat 32 (a + 4 * (list.length + 1)))
    (ha : a < 4294967296) :
    s.exec (.ldmdbRet list) = { s.popRegs (BitVec.ofNat 32 a) list with
      cpsr := s.spsr s.bank, pc := s.word (a + 4 * list.length) } := by
  have hbase : s.reg .sp - BitVec.ofNat 32 (4 * (list.length + 1)) = BitVec.ofNat 32 a := by
    rw [hsp, BitVec.ofNat_add, BitVec.add_sub_cancel]
  have hnat : (BitVec.ofNat 32 a).toNat = a := by
    rw [BitVec.toNat_ofNat]
    exact Nat.mod_eq_of_lt ha
  rw [exec, hbase]
  dsimp only
  rw [hnat]

end Pop

/-! ## What code in the user bank leaves alone -/

/-- At most user registers and memory outside `area` have changed. -/
structure Undisturbed (area : Set Nat) (s s' : Cpu) : Prop where
  mem : AgreeOn area s.mem s'.mem
  cell : ∀ b x, b ≠ .usr → s'.cell b x = s.cell b x
  spsr : ∀ b, b ≠ .usr → s'.spsr b = s.spsr b

variable {area : Set Nat} {s₁ s₂ s₃ : Cpu}

theorem Undisturbed.refl (area : Set Nat) (s : Cpu) : Undisturbed area s s :=
  ⟨AgreeOn.refl _ _, fun _ _ _ => rfl, fun _ _ => rfl⟩

theorem Undisturbed.trans (h₁ : Undisturbed area s₁ s₂) (h₂ : Undisturbed area s₂ s₃) :
    Undisturbed area s₁ s₃ where
  mem := h₁.mem.trans h₂.mem
  cell b x hb := (h₂.cell b x hb).trans (h₁.cell b x hb)
  spsr b hb := (h₂.spsr b hb).trans (h₁.spsr b hb)

theorem Undisturbed.mono {wide : Set Nat} (h : Undisturbed wide s₁ s₂) (hsub : area ⊆ wide) :
    Undisturbed area s₁ s₂ := ⟨h.mem.mono hsub, h.cell, h.spsr⟩

theorem Undisturbed.next (h : Undisturbed area s₁ s₂) : Undisturbed area s₁ s₂.next :=
  ⟨h.mem, h.cell, h.spsr⟩

theorem Undisturbed.setReg (h : Undisturbed area s₁ s₂) (hx : s₂.bank.home x = .usr) (v : Word) :
    Undisturbed area s₁ (s₂.setReg x v) where
  mem := h.mem
  cell b y hb := by
    rw [cell_setReg_of_bank (by rw [hx]; exact hb)]
    exact h.cell b y hb
  spsr := h.spsr

theorem Undisturbed.setWord (h : Undisturbed area s₁ s₂) {a : Nat}
    (ha : ∀ b ∈ area, b < a ∨ a + 4 ≤ b) (v : Word) : Undisturbed area s₁ (s₂.setWord a v) where
  mem := h.mem.trans (store32_agreeOn ha)
  cell := h.cell
  spsr := h.spsr

theorem Undisturbed.setSpsr (h : Undisturbed area s₁ s₂) (hs : s₂.bank = .usr) (v : Word) :
    Undisturbed area s₁ (s₂.setSpsr v) where
  mem := h.mem
  cell := h.cell
  spsr b hb := by
    rw [← h.spsr b hb]
    exact if_neg (by rw [hs]; exact hb)

theorem Undisturbed.call (h : Undisturbed area s₁ s₂) (hs : s₂.bank = .usr) {f : Cpu → Frame}
    (hf : AgreeOn area s₂.mem (f s₂).mem) : Undisturbed area s₁ (s₂.call f) where
  mem := h.mem.trans hf
  cell b x hb := by
    rw [← h.cell b x hb]
    apply if_neg
    rw [hs]
    intro hhome
    exact hb (hhome.trans (Bank.home_usr x))
  spsr := h.spsr

end Cpu

/-! ## Status words -/

theorem psrFc_self (psr : Word) : psrFc psr psr = psr := by
  unfold psrFc
  rw [← BitVec.and_or_distrib_left]
  exact BitVec.and_allOnes

/-- A mask is seen by the mode field through its own five bits. -/
theorem modeBits_and (psr mask : Word) : modeBits (psr &&& mask) = modeBits psr &&& modeBits mask :=
  BitVec.setWidth_and

theorem modeBits_or (psr mask : Word) : modeBits (psr ||| mask) = modeBits psr ||| modeBits mask :=
  BitVec.setWidth_or

theorem modeBits_psrFc (old new : Word) : modeBits (psrFc old new) = modeBits new := by
  have hkept : modeBits 0x00FFFF00 = 0 := by decide
  have hwritten : modeBits 0xFF0000FF = BitVec.allOnes 5 := by decide
  unfold psrFc
  rw [modeBits_or, modeBits_and, modeBits_and, hkept, hwritten, BitVec.and_allOnes]
  exact (congrArg (· ||| _) BitVec.and_zero).trans BitVec.zero_or

theorem modeBits_psrFlags (old new : Word) : modeBits (psrFlags old new) = modeBits old := by
  have hkept : modeBits 0x07F0FFFF = BitVec.allOnes 5 := by decide
  have hwritten : modeBits 0xF80F0000 = 0 := by decide
  unfold psrFlags
  rw [modeBits_or, modeBits_and, modeBits_and, hkept, hwritten, BitVec.and_allOnes]
  exact (congrArg (_ ||| ·) BitVec.and_zero).trans BitVec.or_zero

/-- A mode field that is cleared and set again. -/
theorem modeBits_set (psr mode : Word) :
    modeBits ((psr &&& 0xFFFFFFE0) ||| mode) = modeBits mode := by
  have hcleared : modeBits 0xFFFFFFE0 = 0 := by decide
  rw [modeBits_or, modeBits_and, hcleared]
  exact (congrArg (· ||| _) BitVec.and_zero).trans BitVec.zero_or

@[simp] theorem Cpu.bank_call (s : Cpu) (f : Cpu → Frame) : (s.call f).bank = s.bank :=
  congrArg Bank.ofMode (modeBits_psrFlags _ _)

end Support
