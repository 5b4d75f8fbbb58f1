import Aimv6.Sched.KernelEntries

/-! # The child of `_fork`

`new_pcb` numbers the processes by `cnt_pcb`. `_fork` overwrites the PCB that it
got, number and status included, by a copy of the caller's and repairs it; what
it leaves is again a settled, numbered state with one more process.
-/

namespace Aimv6.Sched

open Support

variable {A : SlabObjects} {k k' : Kernel A} {L L' : Queues} {p c : Nat}

/-- The queued processes have pids of their own, all given out before. -/
structure Kernel.Numbered (k : Kernel A) (L : Queues) : Prop where
  below : ∀ t ∈ L.members, (k.pcb t).pid < k.cntPcb
  distinct : ∀ t ∈ L.members, ∀ u ∈ L.members, (k.pcb t).pid = (k.pcb u).pid → t = u

/-- `p` made the process `c`. -/
structure Child (k : Kernel A) (L : Queues) (p : Nat) (k' : Kernel A) (L' : Queues) (c : Nat) :
    Prop where
  fresh : c ∉ L.members
  pid : ∀ t ∈ L.members, (k'.pcb c).pid ≠ (k.pcb t).pid
  ppid : (k'.pcb c).ppid = (k.pcb p).pid
  status : (k'.pcb c).status = .READY
  tail : L' .READY = L .READY ++ [c]
  nowhere : ∀ q, q ≠ .READY → c ∉ L' q
  context : (k'.pcb c).cpu = { k.contextSvc with r0 := 0 }
  returned : k'.contextSvc = { k.contextSvc with r0 := (k'.pcb c).pid }
  running : L' .RUNNING = [p]
  parent : (k'.pcb p).pid = (k.pcb p).pid ∧ (k'.pcb p).ppid = (k.pcb p).ppid ∧
    (k'.pcb p).status = (k.pcb p).status ∧ (k'.pcb p).pageTable = (k.pcb p).pageTable
  others : ∀ t, t ≠ c → t ≠ p → k'.pcb t = k.pcb t
  queues : ∀ q, q ≠ .READY → L' q = L q
  counted : (k'.pcb c).pid = k.cntPcb ∧ k'.cntPcb = k.cntPcb + 1 ∧ k'.pcbList = Function.update k.pcbList k.cntPcb c

/-! ## The numbers -/

theorem Kernel.Numbered.of_same (h : k.Numbered L) (hmem : ∀ t ∈ L'.members, t ∈ L.members)
    (hpid : ∀ t ∈ L.members, (k'.pcb t).pid = (k.pcb t).pid) (hcnt : k'.cntPcb = k.cntPcb) :
    k'.Numbered L' := by
  constructor
  · intro t ht
    rw [hpid t (hmem t ht), hcnt]
    exact h.below t (hmem t ht)
  · intro t ht u hu heq
    rw [hpid t (hmem t ht), hpid u (hmem u hu)] at heq
    exact h.distinct t (hmem t ht) u (hmem u hu) heq

theorem Kernel.Numbered.put (h : k.Numbered L) {q : ProcStatus}
    (hpid : ∀ t ∈ L.members, (k'.pcb t).pid = (k.pcb t).pid) (hc : (k'.pcb c).pid = k.cntPcb)
    (hcnt : k'.cntPcb = k.cntPcb + 1) : k'.Numbered (L.put q c) := by
  constructor
  · intro t ht
    rw [Queues.members_put] at ht
    rw [hcnt]
    cases ht with
    | inl heq => rw [heq, hc]; exact Nat.lt_succ_self _
    | inr hold => rw [hpid t hold]; exact Nat.lt_succ_of_lt (h.below t hold)
  · intro t ht u hu heq
    rw [Queues.members_put] at ht hu
    cases ht with
    | inl htc =>
        cases hu with
        | inl huc => rw [htc, huc]
        | inr huold =>
            rw [htc, hc, hpid u huold] at heq
            exact absurd heq.symm (Nat.ne_of_lt (h.below u huold))
    | inr htold =>
        cases hu with
        | inl huc =>
            rw [huc, hc, hpid t htold] at heq
            exact absurd heq (Nat.ne_of_lt (h.below t htold))
        | inr huold =>
            rw [hpid t htold, hpid u huold] at heq
            exact h.distinct t htold u huold heq

theorem Kernel.Numbered.switched {next : Nat} (h : k.Numbered L) (hrun : L .RUNNING = [p])
    (hsw : Switched k L p k' L' next) : k'.Numbered L' := by
  have hmembers := hsw.members hrun
  exact h.of_same (fun t ht => hmembers ▸ ht) (fun t _ => (hsw.same t).pid) hsw.counters.1

theorem Kernel.numbered_booted {d n : Nat} (hc : (k.pcb c).pid = n) (hd : (k.pcb d).pid = n + 1)
    (hcnt : k.cntPcb = n + 2) : k.Numbered (Queues.booted c d) := by
  constructor
  · intro t ht
    rw [hcnt]
    cases Queues.mem_booted.1 ht with
    | inl htd => rw [htd, hd]; omega
    | inr htc => rw [htc, hc]; omega
  · intro t ht u hu heq
    cases Queues.mem_booted.1 ht with
    | inl htd =>
        cases Queues.mem_booted.1 hu with
        | inl hud => rw [htd, hud]
        | inr huc => rw [htd, huc, hc, hd] at heq; omega
    | inr htc =>
        cases Queues.mem_booted.1 hu with
        | inl hud => rw [htc, hud, hc, hd] at heq; omega
        | inr huc => rw [htc, huc]

theorem initSched_numbered (h : Settled k.s Queues.none) (hok : initSched k = .ok k') :
    ∃ c d, Settled k'.s (Queues.booted c d) ∧ k'.Numbered (Queues.booted c d) ∧
      k'.cntPcb = k.cntPcb + 2 := by
  obtain ⟨c, d, hcd, hset, hpcb, hcnt⟩ := initSched_ok h hok
  refine ⟨c, d, hset, Kernel.numbered_booted ?_ ?_ hcnt, hcnt⟩
  · rw [hpcb, Function.update_of_ne hcd, Function.update_self]
  · rw [hpcb, Function.update_self]

/-! ## The call -/

theorem Forked.same_numbers (hf : Forked k p k' c) (hnew : c ∉ L.members) : ∀ t ∈ L.members,
    (k'.pcb t).pid = (k.pcb t).pid ∧ (k'.pcb t).ppid = (k.pcb t).ppid := by
  intro t ht
  by_cases htp : t = p
  · rw [htp, hf.parent]
    exact ⟨rfl, rfl⟩
  · rw [hf.others t (fun htc => hnew (htc ▸ ht)) htp]
    exact ⟨rfl, rfl⟩

theorem Forked.child (hrun : L .RUNNING = [p]) (hnum : k.Numbered L)
    (hcpu : (k.pcb p).cpu = k.contextSvc) (hset : Settled k'.s (L.put .READY c))
    (hnew : c ∉ L.members) (hf : Forked k p k' c) :
    Child k L p k' (L.put .READY c) c ∧ k'.Numbered (L.put .READY c) := by
  have hp : p ∈ L.members := ⟨.RUNNING, by rw [hrun]; exact List.mem_singleton_self p⟩
  have hpid : ∀ t ∈ L.members, (k'.pcb t).pid = (k.pcb t).pid := fun t ht =>
    (hf.same_numbers hnew t ht).1
  refine ⟨?_, hnum.put hpid hf.child_pid hf.count⟩
  constructor
  case fresh => exact hnew
  case pid =>
    intro t ht
    rw [hf.child_pid]
    exact (Nat.ne_of_lt (hnum.below t ht)).symm
  case ppid => exact hf.child_ppid
  case status => exact hset.status .READY c (Queues.mem_put.2 (Or.inr ⟨rfl, rfl⟩))
  case tail => exact Queues.put_self L .READY c
  case nowhere =>
    intro q hq hmem
    rw [Queues.put_of_ne hq] at hmem
    exact hnew ⟨q, hmem⟩
  case context => rw [hf.child_cpu, hcpu]
  case returned => rw [hf.returned, hf.child_pid]
  case running =>
    rw [Queues.put_of_ne (by decide)]
    exact hrun
  case parent =>
    rw [hf.parent]
    exact ⟨rfl, rfl, rfl, rfl⟩
  case others => exact hf.others
  case queues => exact fun q hq => Queues.put_of_ne hq c
  case counted => exact ⟨hf.child_pid, hf.count, hf.listed⟩

/-- `_fork` called by the running process `p`, whose registers `int_ent_svc` has taken into its PCB,
while the table of PCBs has room. -/
theorem fork_child (h : Settled k.s L) (hrun : L .RUNNING = [p]) (hnum : k.Numbered L)
    (hcpu : (k.pcb p).cpu = k.contextSvc) (hroom : k.cntPcb < MAX_PCB) :
    OutOfMemory A k.s.heap (fork k) ∨ ∃ c k', fork k = .ok k' ∧ Settled k'.s (L.put .READY c) ∧
      Child k L p k' (L.put .READY c) c ∧ k'.Numbered (L.put .READY c) := by
  rcases fork_spec h hrun with (hfail | ⟨hfull, -⟩) | ⟨c, k', hok, hnew, hset, hforked⟩
  · exact Or.inl hfail
  · exact absurd hfull (Nat.not_le_of_lt hroom)
  · exact Or.inr ⟨c, k', hok, hset, hforked.child hrun hnum hcpu hset hnew⟩

/-! ## Runs -/

theorem Kernel.Numbered.setContextIrq (h : k.Numbered L) (v : ContextCpu) :
    (k.setContextIrq v).Numbered L := ⟨h.below, h.distinct⟩

theorem Kernel.Numbered.setContextSvc (h : k.Numbered L) (v : ContextCpu) :
    (k.setContextSvc v).Numbered L := ⟨h.below, h.distinct⟩

theorem Kernel.Numbered.setCpu (h : k.Numbered L) (task : Nat) (v : ContextCpu) :
    (k.setCpu task v).Numbered L :=
  h.of_same (fun _ ht => ht) (fun t _ => (sameProcess_setCpu k task v t).pid) rfl

theorem schedMain_numbered (h : k.Live L p) (hnum : k.Numbered L) (hok : schedMain k = .ok k') :
    ∃ L' p', k'.Live L' p' ∧ k'.Numbered L' := by
  obtain ⟨L', next, hset, hsw⟩ := schedMain_ok h.settled h.running hok
  exact ⟨L', next, ⟨hset, hsw.running,
    (hsw.others .ZOMBIE (by decide) (by decide)).trans h.no_zombie⟩, hnum.switched h.running hsw⟩

/-- A tick, a call of `_fork` or a call that asks for a number keeps the processes numbered. -/
theorem entry_numbered (h : k.Live L p) (hnum : k.Numbered L) {e : KernelEvent}
    (he : ¬ Kernel.IsExit e) (hstep : k.step e = some k') :
    ∃ L' p', k'.Live L' p' ∧ k'.Numbered L' := by
  cases e with
  | timer regs =>
      have hok : intEntIrq (k.setContextIrq regs) IRQ_TIMER = .ok k' := Res.toOption_eq_some.1 hstep
      have henter := (h.setContextIrq regs).setCpu p (k.setContextIrq regs).contextIrq
      have hnumbered := (hnum.setContextIrq regs).setCpu p (k.setContextIrq regs).contextIrq
      unfold intEntIrq at hok
      rw [(h.setContextIrq regs).getRunning, Res.ok_bind] at hok
      dsimp only at hok
      rw [if_pos rfl] at hok
      exact schedMain_numbered (henter.setContextIrq _) (hnumbered.setContextIrq _) hok
  | svc svcId regs =>
      have hok : intEntSvc (k.setContextSvc regs) svcId = .ok k' := Res.toOption_eq_some.1 hstep
      have henter := (h.setContextSvc regs).setCpu p (k.setContextSvc regs).contextSvc
      have hnumbered := (hnum.setContextSvc regs).setCpu p (k.setContextSvc regs).contextSvc
      unfold intEntSvc at hok
      rw [(h.setContextSvc regs).getRunning, Res.ok_bind] at hok
      cases svcId with
      | fork =>
          obtain ⟨c, hnew, hset, hforked⟩ := fork_ok henter.settled h.running hok
          refine ⟨_, p, ⟨hset, ?_, ?_⟩, (hforked.child h.running hnumbered ?_ hset hnew).2⟩
          · rw [Queues.put_of_ne (by decide)]
            exact h.running
          · rw [Queues.put_of_ne (by decide)]
            exact h.no_zombie
          · exact (setCpu_cpu _ p _ p).trans (if_pos rfl)
      | wait => exact absurd hok henter.wait
      | getpid =>
          unfold syscall getpid at hok
          dsimp only at hok
          rw [henter.getRunning, Res.ok_bind] at hok
          obtain rfl := Except.ok.inj hok
          exact ⟨L, p, henter.setContextSvc _, hnumbered.setContextSvc _⟩
      | getppid =>
          unfold syscall getppid at hok
          dsimp only at hok
          rw [henter.getRunning, Res.ok_bind] at hok
          obtain rfl := Except.ok.inj hok
          exact ⟨L, p, henter.setContextSvc _, hnumbered.setContextSvc _⟩
      | exit => exact absurd trivial he

/-- From `init_sched` on, as long as nobody exits, every entry of the kernel finds a settled state
with one running process and numbered processes. -/
theorem numbered_run {k₀ : Kernel A} {es : List KernelEvent} (hinit : initSched k.cleared = .ok k₀)
    (hno : ∀ e ∈ es, ¬ Kernel.IsExit e) (hrun : run Kernel.step k₀ es = some k') :
    ∃ L p, k'.Live L p ∧ k'.Numbered L := by
  obtain ⟨L₀, p₀, hlive⟩ := Kernel.initSched_live hinit
  refine @run_invariant_of _ _ Kernel.step (fun k => ∃ L p, k.Live L p ∧ k.Numbered L)
    (fun e => ¬ Kernel.IsExit e) ?_ _ _ _ hno ?_ hrun
  · intro k e k' he hk hstep
    obtain ⟨L, p, hlive, hnum⟩ := hk
    exact entry_numbered hlive hnum he hstep
  · obtain ⟨c, d, hset, hnum, -⟩ := initSched_numbered k.cleared_settled hinit
    exact ⟨_, c, ⟨hset, Queues.booted_running c d, rfl⟩, hnum⟩

theorem booted_svc_returns : ((initSched Kernel.blank).toOption.bind fun k =>
    (intEntSvc k .fork).toOption).isSome = true := by decide +kernel

theorem fork_child_sample : ∃ (k : Kernel bumpObjects) (L : Queues) (p c : Nat) (k' : Kernel bumpObjects),
    fork k = .ok k' ∧ Child k L p k' (L.put .READY c) c := by
  obtain ⟨k', hk'⟩ := Option.isSome_iff_exists.1 booted_svc_returns
  obtain ⟨k, hboot, hsvc⟩ := Option.bind_eq_some_iff.1 hk'
  have hboot := Res.toOption_eq_some.1 hboot
  have hsvc := Res.toOption_eq_some.1 hsvc
  obtain ⟨c, d, hset, hnum, hcnt⟩ := initSched_numbered blank_settled hboot
  have hrun := Queues.booted_running c d
  unfold intEntSvc at hsvc
  rw [hset.queues.getRunning_eq hrun] at hsvc
  have hfork : fork (k.setCpu c k.contextSvc) = .ok k' := hsvc
  have hnum' : (k.setCpu c k.contextSvc).Numbered (Queues.booted c d) :=
    hnum.setCpu c _
  have hcpu : ((k.setCpu c k.contextSvc).pcb c).cpu = (k.setCpu c k.contextSvc).contextSvc := by
    rw [setCpu_cpu, if_pos rfl]
    rfl
  have hroom : (k.setCpu c k.contextSvc).cntPcb < MAX_PCB := by
    show k.cntPcb < MAX_PCB
    rw [hcnt]
    decide
  rcases fork_child (hset.setCpu c _) hrun hnum' hcpu hroom with
    hfail | ⟨a, k₁, hok₁, -, hchild, -⟩
  · exact absurd hfork (hfail.ne_ok k')
  · exact ⟨_, _, c, a, k₁, hok₁, hchild⟩

end Aimv6.Sched
