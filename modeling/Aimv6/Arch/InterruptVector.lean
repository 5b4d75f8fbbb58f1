import Aimv6.Support.BankedCpu

/-! # Exception stubs

`interrupt_vector.S` and the C entries of `interrupt.c`, for the exceptions that
return. A stub dumps the interrupted registers into its context object, changes to
SYS mode and calls the C entry, which puts the user sp and lr into the object and
takes them out again. The object is reached through a pointer variable, read anew
at each use.
-/

namespace Aimv6.Arch

open Support

inductive ExceptionKind where
  | SVC | IRQ | FIQ
deriving DecidableEq, Repr

def ExceptionKind.bank : ExceptionKind → Bank
  | .SVC => .svc
  | .IRQ => .irq
  | .FIQ => .fiq

/-- Addresses of the variables that the code names. -/
structure Symbols where
  contextSvc : Word
  contextIrq : Word
  contextFiq : Word
  vSysStack : Word

def Symbols.context (sym : Symbols) : ExceptionKind → Word
  | .SVC => sym.contextSvc
  | .IRQ => sym.contextIrq
  | .FIQ => sym.contextFiq

/-- `context_cpu_t`: the byte offsets of what follows r0 to r12. -/
def PC_OFFSET : Nat := 52

def CPSR_OFFSET : Nat := 56

def SPSR_OFFSET : Nat := 60

def SP_OFFSET : Nat := 64

def LR_OFFSET : Nat := 68

def CONTEXT_SIZE : Nat := 72

/-- The object that the pointer variable at `context` points to. -/
def contextAt (context : Word) (s : Cpu) : Nat := (s.word context.toNat).toNat

/-! ## C entries -/

/-- `context->sp = r0`, `context->lr = r1` and `context->spsr = spsr`. -/
def takeBank (context : Word) (s : Cpu) : Cpu :=
  let s := s.setWord (contextAt context s + SP_OFFSET) (s.reg (.r 0))
  let s := s.setWord (contextAt context s + LR_OFFSET) (s.reg (.r 1))
  s.setWord (contextAt context s + SPSR_OFFSET) (s.spsr s.bank)

/-- `msr spsr`, and `context->lr` and `context->sp` into r1 and r0; the value returned is
`context->sp` as well. -/
def giveBank (context : Word) (s : Cpu) : Cpu :=
  let spsr := s.word (contextAt context s + SPSR_OFFSET)
  let s := s.setSpsr (psrFc (s.spsr s.bank) spsr)
  let s := s.setReg (.r 1) (s.word (contextAt context s + LR_OFFSET))
  s.setReg (.r 0) (s.word (contextAt context s + SP_OFFSET))

/-- `int_ent_svc`; `body` is everything between the saving and the restoring of the bank. -/
def intEntSvc (sym : Symbols) (body : Cpu → Frame) (s : Cpu) : Cpu :=
  giveBank sym.contextSvc ((takeBank sym.contextSvc s).call body)

/-- `int_ent_irq`: the handler stands around `context_irq->pc -= 4`. -/
def intEntIrq (sym : Symbols) (before body : Cpu → Frame) (s : Cpu) : Cpu :=
  let s := (takeBank sym.contextIrq s).call before
  let pc := contextAt sym.contextIrq s + PC_OFFSET
  let s := s.setWord pc (s.word pc - 4)
  giveBank sym.contextIrq (s.call body)

def intEntFiq (sym : Symbols) (body : Cpu → Frame) (s : Cpu) : Cpu :=
  giveBank sym.contextFiq ((takeBank sym.contextFiq s).call body)

/-! ## Stubs -/

def r0r12 : List Reg := (List.finRange 13).map Reg.r

def dumpContext (context : Word) : List Instr :=
  [.ldrConst .sp context, .ldr .sp .sp, .stmia (r0r12 ++ [.lr]), .mrsSpsr (.r 0), .stmia [.r 0]]

def changeMode (mode : Word) : List Instr :=
  [.mrsCpsr (.r 0), .andImm (.r 0) (.r 0) 0xFFFFFFE0, .orrImm (.r 0) (.r 0) mode, .msrCpsr (.r 0)]

/-- The user sp and lr into r0 and r1, and the new stack for SYS mode. -/
def sysStack (sym : Symbols) : List Instr :=
  [.mov (.r 0) .sp, .mov (.r 1) .lr, .ldrConst .sp sym.vSysStack, .ldr .sp .sp]

def returnFromInterrupt : List Instr :=
  [.ldmdb [.r 0], .msrSpsr (.r 0), .ldmdbRet r0r12]

/-- The stubs that are copies of `int_pre_SVC`, each with its pointer, its mode and its C entry. -/
def intPre (sym : Symbols) (context mode : Word) (entry : Cpu → Cpu) : List Instr :=
  dumpContext context ++ changeMode 0b11111 ++ sysStack sym ++ [.bl entry] ++
    [.mov .lr (.r 1), .mov .sp (.r 0)] ++ changeMode mode ++ returnFromInterrupt

def intPreSVC (sym : Symbols) (entry : Cpu → Cpu) : List Instr :=
  intPre sym sym.contextSvc 0b10011 entry

def intPreIRQ (sym : Symbols) (entry : Cpu → Cpu) : List Instr :=
  intPre sym sym.contextIrq 0b10010 entry

/-- Behind the call, this one moves lr to r1 where the others move r1 to lr. -/
def intPreFIQ (sym : Symbols) (entry : Cpu → Cpu) : List Instr :=
  dumpContext sym.contextFiq ++ changeMode 0b11111 ++ sysStack sym ++ [.bl entry] ++
    [.mov (.r 1) .lr, .mov .sp (.r 0)] ++ changeMode 0b10001 ++ returnFromInterrupt

/-- The code of an exception: its stub with its C entry. `before` is used by `int_ent_irq` only. -/
def exceptionCode (sym : Symbols) (before body : Cpu → Frame) : ExceptionKind → List Instr
  | .SVC => intPreSVC sym (intEntSvc sym body)
  | .IRQ => intPreIRQ sym (intEntIrq sym before body)
  | .FIQ => intPreFIQ sym (intEntFiq sym body)

end Aimv6.Arch
