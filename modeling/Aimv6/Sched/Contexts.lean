import Aimv6.Sched.NewProcess
import Aimv6.Support.Runs

/-! # The contexts of the processes

The registers of the running program change in any way until an interrupt or a
system call takes them into `context_irq` or `context_svc`. Beside the kernel the
system notes with which registers each process was last suspended; a process
that is resumed gets exactly these.
-/

namespace Aimv6.Sched

open Support

variable {A : SlabObjects} {L L' : Queues} {p : Nat}

inductive MachineEvent where
  /-- the running program changes its registers -/
  | user (regs : ContextCpu)
  /-- an interrupt, whose stub stores the banked `lr` as `pc` -/
  | irq (irqId : Nat)
  /-- `SVC 1` -/
  | fork

/-- The kernel, the registers of the running program, and the registers with which each process
was last suspended. -/
structure Machine (A : SlabObjects) where
  k : Kernel A
  regs : ContextCpu
  suspended : Nat → ContextCpu

namespace Machine

def irq (m : Machine A) (irqId : Nat) : Res (Machine A) := do
  let p ← schedGetRunning m.k.s
  let k ← intEntIrq (m.k.setContextIrq m.regs) irqId
  .ok ⟨k, k.contextIrq, Function.update m.suspended p (m.regs.setPc (sub32 m.regs.pc 4))⟩

/-- The parent is suspended with the pid of the child in `r0`, the child, which `new_pcb` has
listed, with 0. -/
def fork (m : Machine A) : Res (Machine A) := do
  let p ← schedGetRunning m.k.s
  let k ← intEntSvc (m.k.setContextSvc m.regs) .fork
  let c := k.pcbList m.k.cntPcb
  .ok ⟨k, k.contextSvc,
    Function.update (Function.update m.suspended p (m.regs.setR0 (k.pcb c).pid)) c
      (m.regs.setR0 0)⟩

def step (m : Machine A) : MachineEvent → Option (Machine A)
  | .user regs => some { m with regs := regs }
  | .irq irqId => (m.irq irqId).toOption
  | .fork => m.fork.toOption

/-- The process `p` runs on its own page table, and each ready process has its context saved. -/
structure Coherent (m : Machine A) (L : Queues) (p : Nat) : Prop where
  settled : Settled m.k.s L
  running : L .RUNNING = [p]
  table : m.k.ttbr0 = V2P (m.k.pcb p).pageTable
  saved : ∀ t ∈ L .READY, (m.k.pcb t).cpu = m.suspended t

/-- The running program continues with the registers with which its process was suspended. -/
def Resumed (m : Machine A) (p : Nat) : Prop := m.regs = m.suspended p

theorem Coherent.getRunning {m : Machine A} (h : m.Coherent L p) :
    schedGetRunning m.k.s = .ok p := by
  rw [h.settled.queues.getRunning, h.running]
  rfl

theorem Coherent.ne_of_ready {m : Machine A} (h : m.Coherent L p) {t : Nat} (ht : t ∈ L .READY) :
    t ≠ p := by
  rintro rfl
  exact h.settled.once.apart .READY .RUNNING (by decide) ht (Queues.mem_running h.running)

/-- The kernel behind the entry of an interrupt: the context is saved in `p` as the stub left it,
and `pc` is corrected in the return structure only. -/
theorem Coherent.enter_irq {m : Machine A} (h : m.Coherent L p) (v : ContextCpu) {k₂ : Kernel A}
    (hk₂ : k₂ = ((m.k.setContextIrq m.regs).setCpu p m.regs).setContextIrq v) :
    Settled k₂.s L ∧ k₂.contextIrq = v ∧ k₂.ttbr0 = m.k.ttbr0 ∧
      (∀ t, SameProcess (m.k.pcb t) (k₂.pcb t)) ∧
      ∀ t, (k₂.pcb t).cpu = if t = p then m.regs else (m.k.pcb t).cpu := by
  subst hk₂
  refine ⟨h.settled.setPcb p rfl, rfl, rfl, fun t => ?_, fun t => ?_⟩
  · exact sameProcess_setCpu (m.k.setContextIrq m.regs) p m.regs t
  · exact setCpu_cpu (m.k.setContextIrq m.regs) p m.regs t

theorem Coherent.irq {m m' : Machine A} {irqId : Nat} (h : m.Coherent L p)
    (hirq : m.irq irqId = .ok m') : ∃ L' p', m'.Coherent L' p' ∧ m'.Resumed p' := by
  obtain ⟨k₂, hk₂⟩ : ∃ k₂, k₂ = ((m.k.setContextIrq m.regs).setCpu p m.regs).setContextIrq
    (m.regs.setPc (sub32 m.regs.pc 4)) := ⟨_, rfl⟩
  obtain ⟨hset₂, hirq₂, htable₂, hsame₂, hcpu₂⟩ := h.enter_irq _ hk₂
  have henter : m.irq irqId = (if irqId = IRQ_TIMER then schedMain k₂ else .ok k₂) >>= fun k =>
      .ok ⟨k, k.contextIrq, Function.update m.suspended p k₂.contextIrq⟩ := by
    unfold Machine.irq intEntIrq
    rw [h.getRunning, Res.ok_bind, show schedGetRunning (m.k.setContextIrq m.regs).s = .ok p from
      h.getRunning, Res.ok_bind, hirq₂, hk₂]
    rfl
  rw [henter] at hirq
  by_cases htimer : irqId = IRQ_TIMER
  · rw [if_pos htimer] at hirq
    obtain ⟨k', hmain, hend⟩ := Res.bind_eq_ok.1 hirq
    obtain rfl := Except.ok.inj hend
    obtain ⟨L', next, hset, hsw⟩ := schedMain_ok hset₂ h.running hmain
    refine ⟨L', next, ⟨hset, hsw.running, hsw.table, fun t ht => ?_⟩, ?_⟩
    · have hmem : t ∈ L .READY ++ [p] := by
        rw [hsw.ready]
        exact List.mem_cons_of_mem _ ht
      dsimp only
      rw [hsw.saved]
      by_cases htp : t = p
      · rw [if_pos htp, htp, Function.update_self]
      · rw [if_neg htp, Function.update_of_ne htp, hcpu₂, if_neg htp]
        apply h.saved t
        simpa [htp] using hmem
    · unfold Resumed
      dsimp only
      rw [hsw.returned]
      by_cases hnext : next = p
      · rw [if_pos hnext, hnext, Function.update_self]
      · have hmem : next ∈ L .READY ++ [p] := by
          rw [hsw.ready]
          exact List.mem_cons_self
        rw [if_neg hnext, Function.update_of_ne hnext, hcpu₂, if_neg hnext]
        apply h.saved next
        simpa [hnext] using hmem
  · rw [if_neg htimer, Res.ok_bind] at hirq
    obtain rfl := Except.ok.inj hirq
    refine ⟨L, p, ⟨hset₂, h.running, ?_, fun t ht => ?_⟩, ?_⟩
    · exact htable₂.trans (h.table.trans (congrArg V2P (hsame₂ p).pageTable.symm))
    · have htp := h.ne_of_ready ht
      dsimp only
      rw [hcpu₂, if_neg htp, Function.update_of_ne htp]
      exact h.saved t ht
    · unfold Resumed
      dsimp only
      rw [Function.update_self]

/-- A fork suspends the parent with the child's pid, and the child with 0, in `r0`. -/
theorem Coherent.fork {m m' : Machine A} (h : m.Coherent L p) (hfork : m.fork = .ok m') :
    ∃ L', m'.Coherent L' p ∧ m'.Resumed p := by
  obtain ⟨k₁, hk₁⟩ : ∃ k₁, k₁ = (m.k.setContextSvc m.regs).setCpu p m.regs := ⟨_, rfl⟩
  have henter : m.fork = Sched.fork k₁ >>= fun k => .ok ⟨k, k.contextSvc,
      Function.update (Function.update m.suspended p
        (m.regs.setR0 (k.pcb (k.pcbList m.k.cntPcb)).pid)) (k.pcbList m.k.cntPcb)
        (m.regs.setR0 0)⟩ := by
    unfold Machine.fork intEntSvc
    rw [h.getRunning, Res.ok_bind, show schedGetRunning (m.k.setContextSvc m.regs).s = .ok p from
      h.getRunning, Res.ok_bind, hk₁]
    rfl
  have hset₁ : Settled k₁.s L := by
    rw [hk₁]
    exact h.settled.setPcb p rfl
  have hcpu₁ : ∀ t, (k₁.pcb t).cpu = if t = p then m.regs else (m.k.pcb t).cpu := by
    intro t
    rw [hk₁]
    exact setCpu_cpu (m.k.setContextSvc m.regs) p m.regs t
  have hsame₁ : ∀ t, SameProcess (m.k.pcb t) (k₁.pcb t) := by
    intro t
    rw [hk₁]
    exact sameProcess_setCpu (m.k.setContextSvc m.regs) p m.regs t
  have hregs₁ : k₁.contextSvc = m.regs ∧ k₁.ttbr0 = m.k.ttbr0 ∧ k₁.cntPcb = m.k.cntPcb := by
    rw [hk₁]
    exact ⟨rfl, rfl, rfl⟩
  rw [henter] at hfork
  obtain ⟨k', hok, hend⟩ := Res.bind_eq_ok.1 hfork
  obtain rfl := Except.ok.inj hend
  obtain ⟨c, hnew, hset, hforked⟩ := fork_ok hset₁ h.running hok
  have hlisted : k'.pcbList m.k.cntPcb = c := by
    rw [← hregs₁.2.2, hforked.listed, Function.update_self]
  have hpc : p ≠ c := by
    rintro rfl
    exact hnew ⟨.RUNNING, Queues.mem_running h.running⟩
  refine ⟨_, ⟨hset, ?_, ?_, fun t ht => ?_⟩, ?_⟩
  · rw [Queues.put_of_ne (by decide)]
    exact h.running
  · dsimp only
    rw [hforked.kept.2, hregs₁.2.1, h.table, hforked.parent, (hsame₁ p).pageTable]
  · dsimp only
    rw [hlisted]
    rcases Queues.mem_put.1 ht with hold | ⟨-, htc⟩
    · have htp := h.ne_of_ready hold
      have htc : t ≠ c := by
        rintro rfl
        exact hnew ⟨_, hold⟩
      rw [Function.update_of_ne htc, Function.update_of_ne htp, hforked.others t htc htp, hcpu₁,
        if_neg htp]
      exact h.saved t hold
    · rw [htc, Function.update_self, hforked.child_cpu, hcpu₁, if_pos rfl]
      rfl
  · unfold Resumed
    dsimp only
    rw [hlisted, Function.update_of_ne hpc, Function.update_self, hforked.returned, hregs₁.1,
      hforked.child_pid]
    rfl

/-- Every event leaves a coherent machine, and each one that enters the kernel resumes a process
with the registers with which it was suspended. -/
theorem Coherent.step {m m' : Machine A} {e : MachineEvent} (h : m.Coherent L p)
    (hstep : m.step e = some m') :
    ∃ L' p', m'.Coherent L' p' ∧ ((∀ regs, e ≠ .user regs) → m'.Resumed p') := by
  cases e with
  | user regs =>
      obtain rfl := Option.some.inj hstep
      exact ⟨L, p, ⟨h.settled, h.running, h.table, h.saved⟩, fun he => absurd rfl (he regs)⟩
  | irq irqId =>
      obtain ⟨L', p', hm, hres⟩ := h.irq (Res.toOption_eq_some.1 hstep)
      exact ⟨L', p', hm, fun _ => hres⟩
  | fork =>
      obtain ⟨L', hm, hres⟩ := h.fork (Res.toOption_eq_some.1 hstep)
      exact ⟨L', p, hm, fun _ => hres⟩

/-- Along every run of interrupts, forks and arbitrary changes of the registers, whenever a process
is resumed it gets the context with which it was last suspended, on its own page table. -/
theorem resumed_context {m₀ m m' : Machine A} {es : List MachineEvent} {e : MachineEvent}
    (hstart : m₀.Coherent L p) (hrun : run step m₀ es = some m) (hstep : m.step e = some m')
    (he : ∀ regs, e ≠ .user regs) :
    ∃ q, schedGetRunning m'.k.s = .ok q ∧ m'.regs = m'.suspended q ∧
      m'.k.ttbr0 = V2P (m'.k.pcb q).pageTable := by
  have hinv := @run_invariant _ _ step (fun m : Machine A => ∃ L p, m.Coherent L p)
    (by
      rintro m e m' ⟨L, p, h⟩ hstep
      obtain ⟨L', p', hm, -⟩ := h.step hstep
      exact ⟨L', p', hm⟩) _ _ _ ⟨L, p, hstart⟩ hrun
  obtain ⟨L', p', h⟩ := hinv
  obtain ⟨L'', q, hm, hres⟩ := h.step hstep
  exact ⟨q, hm.getRunning, hres he, hm.table⟩

/-- The process that `init_sched` has made runs on the boot page table. -/
def boot : Option (Machine bumpObjects) :=
  (initSched Kernel.blank).toOption.map fun k =>
    ⟨switchMm k 0 (KERNEL_BASE + PT_OFFSET), .zero, fun _ => .zero⟩

theorem boot_coherent {m : Machine bumpObjects} (h : boot = some m) : ∃ L p, m.Coherent L p := by
  unfold boot at h
  obtain ⟨table, htable⟩ : ∃ table, KERNEL_BASE + PT_OFFSET = table := ⟨_, rfl⟩
  rw [htable] at h
  obtain ⟨k, hk, rfl⟩ := Option.map_eq_some_iff.1 h
  have hk := Res.toOption_eq_some.1 hk
  obtain ⟨c, d, hcd, hset, hpcb, -⟩ := initSched_ok blank_settled hk
  have hset : Settled (switchMm k 0 table).s (Queues.booted c d) := by
    rw [switchMm_s]
    exact hset
  refine ⟨Queues.booted c d, c, hset, Queues.booted_running c d, ?_, fun t ht => ?_⟩
  · have hc : (k.pcb c).pageTable = table := by
      rw [hpcb, Function.update_of_ne hcd, Function.update_self, htable]
    dsimp only
    rw [switchMm_pcb, hc, switchMm_ttbr0]
  · exact absurd ht List.not_mem_nil

/-- The first process forks, both change their registers, and the timer switches between them. -/
def sampleRun : List MachineEvent :=
  [.user { ContextCpu.zero with r4 := 7, pc := 260 }, .fork, .irq 29,
    .user { ContextCpu.zero with r4 := 9, pc := 512 }, .irq 34]

theorem sampleRun_returns :
    (boot.bind fun m => (run step m sampleRun).bind fun m => m.step (.irq 29)).isSome = true := by
  decide +kernel

theorem resumed_context_sample : ∃ (m' : Machine bumpObjects) (q : Nat),
    schedGetRunning m'.k.s = .ok q ∧ m'.regs = m'.suspended q ∧
      m'.k.ttbr0 = V2P (m'.k.pcb q).pageTable := by
  obtain ⟨m', hm'⟩ := Option.isSome_iff_exists.1 sampleRun_returns
  obtain ⟨m₀, hboot, hrest⟩ := Option.bind_eq_some_iff.1 hm'
  obtain ⟨m, hrun, hstep⟩ := Option.bind_eq_some_iff.1 hrest
  obtain ⟨L, p, hstart⟩ := boot_coherent hboot
  exact ⟨m', resumed_context hstart hrun hstep (fun _ he => by cases he)⟩

end Machine

end Aimv6.Sched
