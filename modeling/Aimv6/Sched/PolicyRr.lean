import Aimv6.Base

/-! # The round-robin policy

`policy_rr.c`: the six queues of processes, their linked elements, the nine
operations that move a process through its life cycle, and the searches. The
elements come from `slb_alloc`, of which only what it promises is used.
-/

namespace Aimv6.Sched

open Support

/-- `proc_status_t` -/
inductive ProcStatus where
  | NEW
  | READY
  | RUNNING
  | WAIT
  | ZOMBIE
  | ABORT
deriving DecidableEq, Repr

/-- `context_cpu_t` -/
structure ContextCpu where
  r0 : Nat
  r1 : Nat
  r2 : Nat
  r3 : Nat
  r4 : Nat
  r5 : Nat
  r6 : Nat
  r7 : Nat
  r8 : Nat
  r9 : Nat
  r10 : Nat
  r11 : Nat
  r12 : Nat
  pc : Nat
  cpsr : Nat
  spsr : Nat
  sp : Nat
  lr : Nat
deriving DecidableEq, Repr

/-- `pcb_t`: what the kernel reads of it. -/
structure Pcb where
  pid : Nat
  ppid : Nat
  status : ProcStatus
  pageTable : Nat
  cpu : ContextCpu
deriving DecidableEq, Repr

/-- `queue_element_t` -/
structure QueueElement where
  pcb : Nat
  next : Option Nat
deriving DecidableEq, Repr

/-- `queue_t` -/
structure Queue where
  head : Option Nat
  tail : Option Nat
deriving DecidableEq, Repr

/-- `slb_alloc` and `slb_free`, as their callers rely on them: an object handed out is a word
address that is not in use, and what is in use stays so until it is freed. -/
structure SlabObjects where
  State : Type
  live : State → Set Nat
  slbAlloc : State → Nat → Res (Nat × State)
  slbFree : State → Nat → Nat → State
  alloc_addr : ∀ m n p m', slbAlloc m n = .ok (p, m') → 0 < p ∧ p < 4294967296
  alloc_fresh : ∀ m n p m', slbAlloc m n = .ok (p, m') → p ∉ live m
  alloc_live : ∀ m n p m', slbAlloc m n = .ok (p, m') → insert p (live m) ⊆ live m'
  free_live : ∀ m p n, live m \ {p} ⊆ live (slbFree m p n)

/-- An allocator that hands out one address after the other and takes nothing back. -/
def bumpObjects : SlabObjects where
  State := Nat
  live m := {p | p < m}
  slbAlloc m n := if 0 < m ∧ m < 4294967296 then .ok (m, m + max n 1) else .error .spin
  slbFree m _ _ := m
  alloc_addr := by
    intro m n p m' h
    split at h
    case isTrue hm =>
      obtain ⟨rfl, -⟩ := Prod.mk.inj (Except.ok.inj h)
      exact hm
    case isFalse => exact absurd h (by simp)
  alloc_fresh := by
    intro m n p m' h
    split at h
    case isTrue =>
      obtain ⟨rfl, -⟩ := Prod.mk.inj (Except.ok.inj h)
      exact Nat.lt_irrefl m
    case isFalse => exact absurd h (by simp)
  alloc_live := by
    intro m n p m' h
    split at h
    case isTrue =>
      obtain ⟨rfl, rfl⟩ := Prod.mk.inj (Except.ok.inj h)
      intro x hx
      show x < m + max n 1
      rcases hx with rfl | hx
      · omega
      · have hlt : x < m := hx
        omega
    case isFalse => exact absurd h (by simp)
  free_live := fun _ _ _ _ hx => hx.1

/-- The memory the scheduler works on. `queue` is `queue_new`, `queue_ready`, `queue_running`,
`queue_wait`, `queue_zombie` and `queue_abort`. -/
structure SchedState (A : SlabObjects) where
  heap : A.State
  element : Nat → QueueElement
  queue : ProcStatus → Queue
  pcb : Nat → Pcb

/-- `sizeof(queue_element_t)` -/
def SIZEOF_QUEUE_ELEMENT : Nat := 8

def deref {α : Type} : Option α → Res α
  | some a => .ok a
  | none => .error .nullDeref

@[simp] theorem deref_some {α : Type} (a : α) : deref (some a) = .ok a := rfl

variable {A : SlabObjects}

namespace SchedState

def next (s : SchedState A) (p : Nat) : Option Nat := (s.element p).next

def setElement (s : SchedState A) (p : Nat) (e : QueueElement) : SchedState A :=
  { s with element := Function.update s.element p e }

def setNext (s : SchedState A) (p : Nat) (q : Option Nat) : SchedState A :=
  s.setElement p { s.element p with next := q }

def setQueue (s : SchedState A) (q : ProcStatus) (v : Queue) : SchedState A :=
  { s with queue := Function.update s.queue q v }

def setPcb (s : SchedState A) (task : Nat) (v : Pcb) : SchedState A :=
  { s with pcb := Function.update s.pcb task v }

def setStatus (s : SchedState A) (task : Nat) (v : ProcStatus) : SchedState A :=
  s.setPcb task { s.pcb task with status := v }

end SchedState

def initRr (s : SchedState A) : SchedState A := { s with queue := fun _ => ⟨none, none⟩ }

def queuePush (s : SchedState A) (q : ProcStatus) (task : Nat) : Res (SchedState A) := do
  let (element, heap) ← A.slbAlloc s.heap SIZEOF_QUEUE_ELEMENT
  let s := { s with heap := heap }.setElement element ⟨task, none⟩
  if (s.queue q).head = none then
    .ok (s.setQueue q ⟨some element, some element⟩)
  else
    let tail ← deref (s.queue q).tail
    .ok ((s.setNext tail (some element)).setQueue q ⟨(s.queue q).head, some element⟩)

/-- The body of the `if` in `queue_pop`, at the element `p` behind `last`. -/
def queueUnlink (s : SchedState A) (q : ProcStatus) (task : Nat) (last : Option Nat) (p : Nat) :
    Res (SchedState A) := do
  let head ← deref (s.queue q).head
  let s := if (s.element head).pcb = task then s.setQueue q ⟨s.next p, (s.queue q).tail⟩ else s
  let tail ← deref (s.queue q).tail
  let s := if (s.element tail).pcb = task then s.setQueue q ⟨(s.queue q).head, last⟩ else s
  let s := match last with
    | some last => s.setNext last (s.next p)
    | none => s
  .ok { s with heap := A.slbFree s.heap p SIZEOF_QUEUE_ELEMENT }

def queuePop (s : SchedState A) (q : ProcStatus) (task : Nat) : Res (SchedState A) := do
  let found ← Res.ofFuel
    (scan s.next (fun p => (s.element p).pcb = task) walkFuel none (s.queue q).head)
  match found with
  | (_, none) => .ok s
  | (last, some p) => queueUnlink s q task last p

/-! ## The life cycle -/

/-- The operations that take a process from one queue to another. -/
def schedMove (src dst : ProcStatus) (s : SchedState A) (task : Nat) : Res (SchedState A) := do
  let s ← queuePop s src task
  let s ← queuePush s dst task
  .ok (s.setStatus task dst)

def schedNew (s : SchedState A) (task : Nat) : Res (SchedState A) := do
  let s ← queuePush s .NEW task
  .ok (s.setStatus task .NEW)

def schedMature (s : SchedState A) (task : Nat) : Res (SchedState A) :=
  schedMove .NEW .READY s task

def schedAllow (s : SchedState A) (task : Nat) : Res (SchedState A) :=
  schedMove .READY .RUNNING s task

def schedBlock (s : SchedState A) (task : Nat) : Res (SchedState A) :=
  schedMove .RUNNING .WAIT s task

def schedPreempt (s : SchedState A) (task : Nat) : Res (SchedState A) :=
  schedMove .RUNNING .READY s task

def schedWake (s : SchedState A) (task : Nat) : Res (SchedState A) :=
  schedMove .WAIT .READY s task

def schedFinish (s : SchedState A) (task : Nat) : Res (SchedState A) :=
  schedMove .RUNNING .ZOMBIE s task

def schedKill (s : SchedState A) (task : Nat) : Res (SchedState A) := do
  let s ← match (s.pcb task).status with
    | .NEW => queuePop s .NEW task
    | .READY => queuePop s .READY task
    | .RUNNING => queuePop s .RUNNING task
    | .WAIT => queuePop s .WAIT task
    | _ => .ok s
  let s ← queuePush s .ABORT task
  .ok (s.setStatus task .ABORT)

def schedFree (s : SchedState A) (task : Nat) : Res (SchedState A) :=
  queuePop s .ZOMBIE task

/-! ## The searches -/

/-- The first process of a queue that meets `stop`. -/
def schedFind (s : SchedState A) (q : ProcStatus) (stop : Pcb → Bool) : Res (Option Nat) := do
  let found ← Res.ofFuel
    (scan s.next (fun p => stop (s.pcb (s.element p).pcb)) walkFuel none (s.queue q).head)
  .ok (found.2.map fun p => (s.element p).pcb)

def schedGetBypidIn (s : SchedState A) (q : ProcStatus) (pid : Nat) : Res (Option Nat) :=
  schedFind s q fun p => p.pid = pid

def schedGetBypid (s : SchedState A) (pid : Nat) : Res (Option Nat) := do
  if let some pcb ← schedGetBypidIn s .NEW pid then return some pcb
  if let some pcb ← schedGetBypidIn s .READY pid then return some pcb
  if let some pcb ← schedGetBypidIn s .RUNNING pid then return some pcb
  if let some pcb ← schedGetBypidIn s .WAIT pid then return some pcb
  if let some pcb ← schedGetBypidIn s .ZOMBIE pid then return some pcb
  if let some pcb ← schedGetBypidIn s .ABORT pid then return some pcb
  return none

def schedGetZombieChild (s : SchedState A) (ppid : Nat) : Res (Option Nat) :=
  schedFind s .ZOMBIE fun p => p.ppid = ppid

def schedGetRunning (s : SchedState A) : Res Nat := do
  let head ← deref (s.queue .RUNNING).head
  .ok (s.element head).pcb

def schedPick (s : SchedState A) : Res Nat := do
  let head ← deref (s.queue .READY).head
  .ok (s.element head).pcb

end Aimv6.Sched
