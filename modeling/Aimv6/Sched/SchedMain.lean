import Aimv6.Sched.PolicyRr

/-! # Processes and the context switch

`sched_main.c`, the process calls of `syscall.c`, the two entries of
`interrupt.c` that return, and `init_sched`. The entry stubs have filled
`context_irq` or `context_svc` with the registers of the interrupted program when
these functions start, and load the registers from there when they return.
-/

namespace Aimv6.Sched

open Support

def MAX_PCB : Nat := 4096

/-- `sizeof(pcb_t)` -/
def SIZEOF_PCB : Nat := 116

def PTE_L1SIZE : Nat := 16384

def PT_OFFSET : Nat := 0x00100000

/-- The globals of the kernel; `ttbr0` is the table base register. -/
structure Kernel (A : SlabObjects) where
  s : SchedState A
  cntPcb : Nat
  pcbList : Nat → Nat
  contextIrq : ContextCpu
  contextSvc : ContextCpu
  ttbr0 : Nat

variable {A : SlabObjects}

def Kernel.pcb (k : Kernel A) : Nat → Pcb := k.s.pcb

def Kernel.setPcb (k : Kernel A) (task : Nat) (v : Pcb) : Kernel A :=
  { k with s := k.s.setPcb task v }

def Kernel.setCpu (k : Kernel A) (task : Nat) (v : ContextCpu) : Kernel A :=
  k.setPcb task { k.pcb task with cpu := v }

def Kernel.setSched (k : Kernel A) (s : SchedState A) : Kernel A := { k with s := s }

def Kernel.setHeap (k : Kernel A) (heap : A.State) : Kernel A :=
  k.setSched { k.s with heap := heap }

def Kernel.setContextSvc (k : Kernel A) (v : ContextCpu) : Kernel A := { k with contextSvc := v }

def Kernel.setContextIrq (k : Kernel A) (v : ContextCpu) : Kernel A := { k with contextIrq := v }

def ContextCpu.setR0 (c : ContextCpu) (v : Nat) : ContextCpu := { c with r0 := v }

def ContextCpu.setPc (c : ContextCpu) (v : Nat) : ContextCpu := { c with pc := v }

def Kernel.setPid (k : Kernel A) (task v : Nat) : Kernel A :=
  k.setPcb task { k.pcb task with pid := v }

def Kernel.setPpid (k : Kernel A) (task v : Nat) : Kernel A :=
  k.setPcb task { k.pcb task with ppid := v }

def Kernel.setStatus (k : Kernel A) (task : Nat) (v : ProcStatus) : Kernel A :=
  k.setPcb task { k.pcb task with status := v }

def Kernel.setPageTable (k : Kernel A) (task v : Nat) : Kernel A :=
  k.setPcb task { k.pcb task with pageTable := v }

/-- `memset(.., 0, ..)` -/
def ContextCpu.zero : ContextCpu := ⟨0, 0, 0, 0, 0, 0, 0, 0, 0, 0, 0, 0, 0, 0, 0, 0, 0, 0⟩

def Pcb.zero : Pcb := ⟨0, 0, .NEW, 0, .zero⟩

def switchMm (k : Kernel A) (_ptFrom ptTo : Nat) : Kernel A := { k with ttbr0 := V2P ptTo }

/-- `switch_to()`; the result is what is left in `*on_return`. -/
def switchTo (k : Kernel A) (taskFrom taskTo : Nat) (onReturn : ContextCpu) :
    ContextCpu × Kernel A :=
  let k := k.setCpu taskFrom onReturn
  ((k.pcb taskTo).cpu, k)

def contextSwitch (k : Kernel A) (taskFrom taskTo : Nat) (onReturn : ContextCpu) :
    ContextCpu × Kernel A :=
  let k := switchMm k (k.pcb taskFrom).pageTable (k.pcb taskTo).pageTable
  switchTo k taskFrom taskTo onReturn

def newPcb (k : Kernel A) : Res (Nat × Kernel A) := do
  let (pcb, heap) ← A.slbAlloc k.s.heap SIZEOF_PCB
  -- a full table is reported and then written to all the same
  if MAX_PCB ≤ k.cntPcb then .error .outOfBounds
  else
    let k := { k.setHeap heap with pcbList := Function.update k.pcbList k.cntPcb pcb }
    let k := k.setPcb pcb { Pcb.zero with pid := k.cntPcb }
    let s ← schedNew k.s pcb
    .ok (pcb, { k.setSched s with cntPcb := k.cntPcb + 1 })

def schedMain (k : Kernel A) : Res (Kernel A) := do
  let nowPcb ← schedGetRunning k.s
  let s ← schedPreempt k.s nowPcb
  let newPcb ← schedPick s
  let s ← schedAllow s newPcb
  let (contextIrq, k) := contextSwitch (k.setSched s) nowPcb newPcb k.contextIrq
  .ok (k.setContextIrq contextIrq)

/-! ## System calls -/

/-- `_fork()`. What `copy_mem_img` does to the tables and the frames is not part of this state. -/
def fork (k : Kernel A) : Res (Kernel A) := do
  let (cPcb, k) ← newPcb k
  let cpid := (k.pcb cPcb).pid
  let fPcb ← schedGetRunning k.s
  let k := k.setPcb cPcb (k.pcb fPcb)
  let (pageTable, heap) ← A.slbAlloc k.s.heap PTE_L1SIZE
  let k := (k.setHeap heap).setPageTable cPcb pageTable
  let k := k.setPid cPcb cpid
  let running ← schedGetRunning k.s
  let k := k.setPpid cPcb (k.pcb running).pid
  let s ← schedMature k.s cPcb
  let k := k.setSched s
  let k := k.setContextSvc (k.contextSvc.setR0 (k.pcb cPcb).pid)
  let k := k.setCpu fPcb ((k.pcb fPcb).cpu.setR0 (k.pcb cPcb).pid)
  .ok (k.setCpu cPcb ((k.pcb cPcb).cpu.setR0 0))

/-- The loop of `_wait()`. -/
def waitLoop (pcb : Nat) : Nat → Kernel A → Res (Kernel A)
  | 0, _ => .error .diverge
  | fuel + 1, k => do
      let cPcb ← schedGetZombieChild k.s (k.pcb pcb).pid
      match cPcb with
      | some cPcb =>
          let s ← schedFree k.s cPcb
          let k := k.setSched s
          .ok (k.setContextSvc (k.contextSvc.setR0 (k.pcb cPcb).ppid))
      | none =>
          let s ← schedBlock k.s pcb
          waitLoop pcb fuel (k.setSched s)

def wait (k : Kernel A) : Res (Kernel A) := do
  let pcb ← schedGetRunning k.s
  waitLoop pcb walkFuel k

def exit (k : Kernel A) : Res (Kernel A) := do
  let pcb ← schedGetRunning k.s
  let s ← schedFinish k.s pcb
  let fPcb ← schedGetBypid s (s.pcb pcb).ppid
  let fPcb ← deref fPcb
  if (s.pcb fPcb).status = .WAIT then
    let s ← schedWake s fPcb
    .ok (k.setSched s)
  else
    .ok (k.setSched s)

def getpid (k : Kernel A) : Res (Kernel A) := do
  let pcb ← schedGetRunning k.s
  .ok (k.setContextSvc (k.contextSvc.setR0 (k.pcb pcb).pid))

def getppid (k : Kernel A) : Res (Kernel A) := do
  let pcb ← schedGetRunning k.s
  .ok (k.setContextSvc (k.contextSvc.setR0 (k.pcb pcb).ppid))

/-- The process calls among the system calls. -/
inductive Svc where
  | fork
  | wait
  | getpid
  | getppid
  | exit
deriving DecidableEq, Repr

def syscall (k : Kernel A) : Svc → Res (Kernel A)
  | .fork => fork k
  | .wait => wait k
  | .getpid => getpid k
  | .getppid => getppid k
  | .exit => exit k

/-! ## Kernel entries -/

def intEntSvc (k : Kernel A) (svcId : Svc) : Res (Kernel A) := do
  let nPcb ← schedGetRunning k.s
  syscall (k.setCpu nPcb k.contextSvc) svcId

def IRQ_TIMER : Nat := 29

def intEntIrq (k : Kernel A) (irqId : Nat) : Res (Kernel A) := do
  let nPcb ← schedGetRunning k.s
  let k := k.setCpu nPcb k.contextIrq
  let k := k.setContextIrq (k.contextIrq.setPc (sub32 k.contextIrq.pc 4))
  if irqId = IRQ_TIMER then schedMain k else .ok k

/-- `init_sched()` up to its first `SVC`. -/
def initSched (k : Kernel A) : Res (Kernel A) := do
  let k := { k with pcbList := fun _ => 0 }
  let (pcbNow, k) ← newPcb k
  let k := k.setPpid pcbNow (k.pcb pcbNow).pid
  let k := k.setStatus pcbNow .RUNNING
  let k := k.setPageTable pcbNow (KERNEL_BASE + PT_OFFSET)
  let s ← schedMature k.s pcbNow
  let s ← schedAllow s pcbNow
  let (_pcbMirror, k) ← newPcb (k.setSched s)
  .ok k

end Aimv6.Sched
