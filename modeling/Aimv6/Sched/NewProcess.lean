import Aimv6.Sched.Settled

/-! # New processes

`new_pcb`, `_fork` and `init_sched` on settled states: the new PCB is an object
of its own, and nothing else of the queues changes.
-/

namespace Aimv6.Sched

open Support

variable {A : SlabObjects} {s s' : SchedState A} {k k' : Kernel A} {L L' : Queues}
  {q : ProcStatus} {task : Nat}

namespace Queues

theorem put_take {L : Queues} (hnew : ∀ q, task ∉ L q) (q : ProcStatus) :
    (L.put q task).take task = L := by
  funext q'
  by_cases hq : q' = q
  · rw [take, hq, put_self, List.erase_append_right _ (hnew q), List.erase_cons_head,
      List.append_nil]
  · rw [take, put_of_ne hq, List.erase_of_not_mem (hnew q')]

theorem members_put (L : Queues) (q : ProcStatus) (task : Nat) :
    (L.put q task).members = insert task L.members := by
  ext t
  constructor
  · rintro ⟨q', ht⟩
    rcases mem_put.1 ht with ht | ⟨-, rfl⟩
    · exact Or.inr ⟨q', ht⟩
    · exact Or.inl rfl
  · rintro (rfl | ⟨q', ht⟩)
    · exact ⟨q, mem_put.2 (Or.inr ⟨rfl, rfl⟩)⟩
    · exact ⟨q', mem_put.2 (Or.inl ht)⟩

end Queues

theorem setPcb_pcb (k : Kernel A) (task : Nat) (v : Pcb) :
    (k.setPcb task v).pcb = Function.update k.pcb task v := rfl

theorem setHeap_pcb (k : Kernel A) (heap : A.State) : (k.setHeap heap).pcb = k.pcb := rfl

theorem setSched_pcb (k : Kernel A) (s : SchedState A) : (k.setSched s).pcb = s.pcb := rfl

theorem Represents.settled_put (h : Represents (insert task L.members) s (L.put q task))
    (hL : L.Once) (hnew : task ∉ L.members) (hstatus : ∀ q, ∀ t ∈ L q, (s.pcb t).status = q)
    (htask : (s.pcb task).status = q) : Settled s (L.put q task) := by
  refine ⟨?_, hL.put fun q' hmem => hnew ⟨q', hmem⟩, fun q' t ht => ?_⟩
  · rw [Queues.members_put]
    exact h
  · rcases Queues.mem_put.1 ht with ht | ⟨hq, rfl⟩
    · exact hstatus q' t ht
    · rw [htask, hq]

/-- A new process in a queue of settled ones. -/
theorem Represents.settled_new {c : Nat} {v : Pcb} (hrep : Represents (insert c L.members) s (L.put q c))
    (h : Settled k.s L) (hfresh : c ∉ L.members) (hpcb : s.pcb = Function.update k.pcb c v)
    (hv : v.status = q) : Settled s (L.put q c) := by
  refine hrep.settled_put h.once hfresh (fun q' t ht => ?_) ?_
  · have htc : t ≠ c := by
      rintro rfl
      exact hfresh ⟨q', ht⟩
    rw [hpcb, Function.update_of_ne htc]
    exact h.status q' t ht
  · rw [hpcb, Function.update_self, hv]

theorem newPcb_spec (h : Settled k.s L) :
    (OutOfMemory A k.s.heap (newPcb k) ∨ MAX_PCB ≤ k.cntPcb ∧ newPcb k = .error .outOfBounds) ∨
      ∃ c k', newPcb k = .ok (c, k') ∧ c ∉ L.members ∧ Settled k'.s (L.put .NEW c) ∧
        k'.pcb = Function.update k.pcb c { Pcb.zero with pid := k.cntPcb } ∧
        k'.cntPcb = k.cntPcb + 1 ∧ k'.pcbList = Function.update k.pcbList k.cntPcb c ∧
        k.SameRegs k' := by
  unfold newPcb
  cases halloc : A.slbAlloc k.s.heap SIZEOF_PCB with
  | error e => exact Or.inl (Or.inl ⟨_, _, e, .refl, halloc, rfl⟩)
  | ok r =>
      obtain ⟨c, heap⟩ := r
      rw [Res.ok_bind]
      dsimp only
      obtain ⟨hrep, hfresh⟩ := h.queues.alloc halloc
      by_cases hfull : MAX_PCB ≤ k.cntPcb
      · rw [if_pos hfull]
        exact Or.inl (Or.inr ⟨hfull, rfl⟩)
      · rw [if_neg hfull]
        unfold schedNew Kernel.setPcb Kernel.setHeap Kernel.setSched
        dsimp only
        rcases queuePush_spec (hrep.setPcb c { Pcb.zero with pid := k.cntPcb }) .NEW c with
          hfail | ⟨s', hpush, hrep', hpcb⟩
        · exact Or.inl (Or.inl (((hfail.later (.alloc .refl halloc)).bind _).bind _))
        right
        rw [hpush, Res.ok_bind, Res.ok_bind]
        have hpcb' : (s'.setStatus c .NEW).pcb =
            Function.update k.pcb c { Pcb.zero with pid := k.cntPcb } := by
          unfold SchedState.setStatus SchedState.setPcb
          dsimp only
          rw [hpcb]
          unfold SchedState.setPcb
          dsimp only
          rw [Function.update_self, Function.update_idem]
          rfl
        refine ⟨c, _, rfl, hfresh, ?_, hpcb', rfl, rfl, rfl, rfl, rfl⟩
        exact (hrep'.setStatus c .NEW).settled_new h hfresh hpcb' rfl

/-- What `_fork` makes of a settled state when `p` is running: the process `c` is new, ready and
last. -/
structure Forked (k : Kernel A) (p : Nat) (k' : Kernel A) (c : Nat) : Prop where
  count : k'.cntPcb = k.cntPcb + 1
  listed : k'.pcbList = Function.update k.pcbList k.cntPcb c
  child_pid : (k'.pcb c).pid = k.cntPcb
  child_ppid : (k'.pcb c).ppid = (k.pcb p).pid
  child_cpu : (k'.pcb c).cpu = { (k.pcb p).cpu with r0 := 0 }
  parent : k'.pcb p = { k.pcb p with cpu := { (k.pcb p).cpu with r0 := k.cntPcb } }
  others : ∀ t, t ≠ c → t ≠ p → k'.pcb t = k.pcb t
  returned : k'.contextSvc = { k.contextSvc with r0 := k.cntPcb }
  kept : k'.contextIrq = k.contextIrq ∧ k'.ttbr0 = k.ttbr0

theorem newPcb_leads (k : Kernel A) : A.Leads k.s.heap (fun r => r.2.s.heap) (newPcb k) := by
  unfold newPcb
  have halloc : A.Leads k.s.heap Prod.snd (A.slbAlloc k.s.heap SIZEOF_PCB) := fun _ h => .alloc .refl h
  refine halloc.bind fun r hr => ?_
  dsimp only
  split
  · exact fun a ha => absurd ha (by simp)
  · unfold schedNew
    refine .bind (?_ : A.Leads k.s.heap SchedState.heap _) fun s hs => .ok hs
    exact .bind (fun s hs => hr.trans (queuePush_leads _ .NEW r.1 s hs)) fun s hs => .ok hs

/-- The process `c` made a copy of `p`, with numbers and a page table of its own. -/
def Kernel.copied (k : Kernel A) (p c pageTable : Nat) (heap : A.State) : Kernel A :=
  let k' := (((k.setPcb c (k.pcb p)).setHeap heap).setPageTable c pageTable).setPid c (k.pcb c).pid
  k'.setPpid c (k'.pcb p).pid

/-- The three places where `_fork` answers. -/
def Kernel.answered (k : Kernel A) (p c : Nat) : Kernel A :=
  let k := k.setContextSvc (k.contextSvc.setR0 (k.pcb c).pid)
  let k := k.setCpu p ((k.pcb p).cpu.setR0 (k.pcb c).pid)
  k.setCpu c ((k.pcb c).cpu.setR0 0)

section Copy

variable {p c pageTable : Nat} {heap : A.State} {k₁ : Kernel A}

theorem copied_pcb (hpc : p ≠ c) : (k.copied p c pageTable heap).pcb = Function.update k.pcb c
    { k.pcb p with pid := (k.pcb c).pid, ppid := (k.pcb p).pid, pageTable := pageTable } := by
  unfold Kernel.copied Kernel.setPpid Kernel.setPid Kernel.setPageTable
  simp only [setPcb_pcb, setHeap_pcb, Function.update_idem, Function.update_self,
    Function.update_of_ne hpc]

theorem answered_pcb (hpc : p ≠ c) : (k.answered p c).pcb =
    Function.update (Function.update k.pcb p
      { k.pcb p with cpu := (k.pcb p).cpu.setR0 (k.pcb c).pid }) c
      { k.pcb c with cpu := (k.pcb c).cpu.setR0 0 } := by
  have hsvc : ∀ v, (k.setContextSvc v).pcb = k.pcb := fun _ => rfl
  unfold Kernel.answered Kernel.setCpu
  simp only [setPcb_pcb, hsvc, Function.update_of_ne hpc.symm]

theorem fork_eq (hnew : newPcb k = .ok (c, k₁)) (hrun : schedGetRunning k₁.s = .ok p) :
    fork k = A.slbAlloc k₁.s.heap PTE_L1SIZE >>= fun r =>
      schedMature (k₁.copied p c r.1 r.2).s c >>= fun s =>
        .ok (((k₁.copied p c r.1 r.2).setSched s).answered p c) := by
  unfold fork
  rw [hnew, Res.ok_bind]
  dsimp only
  rw [hrun, Res.ok_bind]
  refine congrArg (A.slbAlloc k₁.s.heap PTE_L1SIZE >>= ·) (funext fun r => ?_)
  have hrun' : schedGetRunning ((((k₁.setPcb c (k₁.pcb p)).setHeap r.2).setPageTable c r.1).setPid c
      (k₁.pcb c).pid).s = .ok p := hrun
  rw [hrun', Res.ok_bind]
  rfl

theorem copied_represents (hset : Settled k₁.s (L.put .NEW c))
    (halloc : A.slbAlloc k₁.s.heap PTE_L1SIZE = .ok (pageTable, heap)) :
    Represents (insert c L.members) (k₁.copied p c pageTable heap).s (L.put .NEW c) := by
  have hrep := hset.queues
  rw [Queues.members_put] at hrep
  have hcopy := ((hrep.setPcb c (k₁.pcb p)).alloc halloc).1.mono (Set.subset_insert _ _)
  exact ((hcopy.setPcb c _).setPcb c _).setPcb c _

/-- The PCB of the child when it is made ready. -/
def Kernel.childPcb (k : Kernel A) (p pageTable : Nat) : Pcb :=
  { k.pcb p with
    pid := k.cntPcb, ppid := (k.pcb p).pid, pageTable := pageTable, status := .READY }

theorem answered_forked (hpc : p ≠ c) (hpcb : k₁.pcb = Function.update k.pcb c (k.childPcb p pageTable))
    (hcnt : k₁.cntPcb = k.cntPcb + 1) (hlist : k₁.pcbList = Function.update k.pcbList k.cntPcb c)
    (hregs : k.SameRegs k₁) : Forked k p (k₁.answered p c) c := by
  have hanswered := answered_pcb (k := k₁) hpc
  have hc : k₁.pcb c = k.childPcb p pageTable := by rw [hpcb, Function.update_self]
  have hp : k₁.pcb p = k.pcb p := by rw [hpcb, Function.update_of_ne hpc]
  rw [hc, hp] at hanswered
  constructor
  case count => exact hcnt
  case listed => exact hlist
  case child_pid =>
    rw [hanswered, Function.update_self]
    rfl
  case child_ppid =>
    rw [hanswered, Function.update_self]
    rfl
  case child_cpu =>
    rw [hanswered, Function.update_self]
    rfl
  case parent =>
    rw [hanswered, Function.update_of_ne hpc, Function.update_self]
    rfl
  case others =>
    intro t htc htp
    rw [hanswered, Function.update_of_ne htc, Function.update_of_ne htp, hpcb,
      Function.update_of_ne htc]
  case returned =>
    change k₁.contextSvc.setR0 (k₁.pcb c).pid = _
    rw [hc, hregs.2.1]
    rfl
  case kept => exact ⟨hregs.1, hregs.2.2⟩

end Copy

theorem fork_spec {p : Nat} (h : Settled k.s L) (hrun : L .RUNNING = [p]) :
    (OutOfMemory A k.s.heap (fork k) ∨ MAX_PCB ≤ k.cntPcb ∧ fork k = .error .outOfBounds) ∨
      ∃ c k', fork k = .ok k' ∧ c ∉ L.members ∧ Settled k'.s (L.put .READY c) ∧
        Forked k p k' c := by
  rcases newPcb_spec h with (hfail | ⟨hfull, hfail⟩) | ⟨c, k₁, hnew, hfresh, hset₁, hpcb₁, hcnt₁,
    hlist₁, hregs₁⟩
  · exact Or.inl (Or.inl (hfail.bind _))
  · refine Or.inl (Or.inr ⟨hfull, ?_⟩)
    unfold fork
    rw [hfail]
    rfl
  have hpc : p ≠ c := by
    rintro rfl
    exact hfresh ⟨_, Queues.mem_running hrun⟩
  have hlater₁ : A.Later k.s.heap k₁.s.heap := newPcb_leads k _ hnew
  rw [fork_eq hnew (hset₁.queues.getRunning_eq (by rw [Queues.put_of_ne (by decide), hrun]))]
  cases halloc : A.slbAlloc k₁.s.heap PTE_L1SIZE with
  | error e => exact Or.inl (Or.inl ⟨_, _, e, hlater₁, halloc, rfl⟩)
  | ok r =>
      obtain ⟨pageTable, heap⟩ := r
      rw [Res.ok_bind]
      dsimp only
      have hrep₂ := @copied_represents _ L p c pageTable heap k₁ hset₁ halloc
      have hmem : c ∈ L.put .NEW c .NEW := Queues.mem_put.2 (Or.inr ⟨rfl, rfl⟩)
      unfold schedMature
      rcases schedMove_spec hrep₂ hset₁.once .READY hmem with hfail | ⟨s₃, hmature, hrep₃, hpcb₃⟩
      · exact Or.inl (Or.inl ((hfail.later (.alloc hlater₁ halloc)).bind _))
      right
      rw [Queues.put_take fun q hmem => hfresh ⟨q, hmem⟩] at hrep₃
      rw [hmature, Res.ok_bind]
      have hchild : s₃.pcb = Function.update k.pcb c (k.childPcb p pageTable) := by
        have hcopied := @copied_pcb _ k₁ p c pageTable heap hpc
        rw [hpcb₁, Function.update_idem, Function.update_of_ne hpc, Function.update_self] at hcopied
        rw [hpcb₃]
        change Function.update (k₁.copied p c pageTable heap).pcb c
          { (k₁.copied p c pageTable heap).pcb c with status := .READY } = _
        rw [hcopied, Function.update_idem, Function.update_self]
        rfl
      have hset₃ := hrep₃.settled_new h hfresh hchild rfl
      exact ⟨c, _, rfl, hfresh, (hset₃.setCpu p _).setCpu c _,
        answered_forked hpc hchild hcnt₁ hlist₁ hregs₁⟩

theorem fork_ok {p : Nat} (h : Settled k.s L) (hrun : L .RUNNING = [p]) (hok : fork k = .ok k') :
    ∃ c, c ∉ L.members ∧ Settled k'.s (L.put .READY c) ∧ Forked k p k' c := by
  rcases fork_spec h hrun with (hfail | ⟨-, herr⟩) | ⟨c, k₁, hfork, hc, hset, hforked⟩
  · exact absurd hok (hfail.ne_ok k')
  · exact absurd (herr.symm.trans hok) (by simp)
  · obtain rfl := Except.ok.inj (hfork.symm.trans hok)
    exact ⟨c, hc, hset, hforked⟩

def Queues.none : Queues := fun _ => []

/-- The queues behind `init_sched`: `c` runs, `d` is new. -/
def Queues.booted (c d : Nat) : Queues := (Queues.none.put .RUNNING c).put .NEW d

/-- `sched_mature` and `sched_allow`, on a process that is the only one. -/
theorem first_runs {T : Set Nat} {s : SchedState A} {c : Nat}
    (h : Represents T s (Queues.none.put .NEW c)) (honce : Queues.none.Once) :
    OutOfMemory A s.heap (schedMature s c >>= fun s => schedAllow s c) ∨
      ∃ s₁ s₂, schedMature s c = .ok s₁ ∧ schedAllow s₁ c = .ok s₂ ∧ A.Later s.heap s₂.heap ∧
        Represents T s₂ (Queues.none.put .RUNNING c) ∧
        s₂.pcb = Function.update s.pcb c { s.pcb c with status := .RUNNING } := by
  have hnowhere : ∀ q, c ∉ Queues.none q := fun q => List.not_mem_nil
  have hput : ∀ q, c ∈ Queues.none.put q c q := fun q => Queues.mem_put.2 (Or.inr ⟨rfl, rfl⟩)
  unfold schedMature schedAllow
  rcases schedMove_spec h (honce.put hnowhere) .READY (hput .NEW) with
    hfail | ⟨s₁, hmature, hrep₁, hpcb₁⟩
  · exact Or.inl (hfail.bind _)
  have hlater₁ := schedMove_leads _ _ _ _ _ hmature
  rw [Queues.put_take hnowhere] at hrep₁
  rw [hmature, Res.ok_bind]
  rcases schedMove_spec hrep₁ (honce.put hnowhere) .RUNNING (hput .READY) with
    hfail | ⟨s₂, hallow, hrep₂, hpcb₂⟩
  · exact Or.inl (hfail.later hlater₁)
  right
  rw [Queues.put_take hnowhere] at hrep₂
  refine ⟨s₁, s₂, rfl, hallow, hlater₁.trans (schedMove_leads _ _ _ _ _ hallow), hrep₂, ?_⟩
  rw [hpcb₂, hpcb₁]
  simp only [Function.update_idem, Function.update_self]

theorem initSched_spec (h : Settled k.s Queues.none) :
    (OutOfMemory A k.s.heap (initSched k) ∨ initSched k = .error .outOfBounds) ∨
      ∃ c d k', initSched k = .ok k' ∧ c ≠ d ∧ Settled k'.s (Queues.booted c d) ∧
        k'.pcb = Function.update (Function.update k.pcb c { Pcb.zero with
          pid := k.cntPcb, ppid := k.cntPcb, status := .RUNNING
          pageTable := KERNEL_BASE + PT_OFFSET }) d { Pcb.zero with pid := k.cntPcb + 1 } ∧
        k'.cntPcb = k.cntPcb + 2 := by
  have hk : Settled { k with pcbList := fun _ => 0 }.s Queues.none := h
  unfold initSched
  rcases newPcb_spec hk with (hfail | ⟨-, hfail⟩) | ⟨c, k₁, hnew, hfresh, hset₁, hpcb₁, hcnt₁, -, -⟩
  · exact Or.inl (Or.inl (hfail.bind _))
  · dsimp only
    rw [hfail]
    exact Or.inl (Or.inr rfl)
  dsimp only
  rw [hnew, Res.ok_bind]
  dsimp only
  obtain ⟨k₂, hk₂⟩ : ∃ k₂, ((k₁.setPpid c (k₁.pcb c).pid).setStatus c .RUNNING).setPageTable c
    (KERNEL_BASE + PT_OFFSET) = k₂ := ⟨_, rfl⟩
  rw [hk₂]
  have hpcb₂ : k₂.pcb = Function.update k.pcb c { Pcb.zero with
      pid := k.cntPcb, ppid := k.cntPcb, status := .RUNNING
      pageTable := KERNEL_BASE + PT_OFFSET } := by
    rw [← hk₂, Kernel.setPageTable, setPcb_pcb, Kernel.setStatus, setPcb_pcb, Kernel.setPpid,
      setPcb_pcb, hpcb₁]
    simp only [Function.update_idem, Function.update_self]
    rfl
  have hrep₂ : Represents (insert c Queues.none.members) k₂.s (Queues.none.put .NEW c) := by
    have hrep₁ := hset₁.queues
    rw [Queues.members_put] at hrep₁
    rw [← hk₂]
    exact ((hrep₁.setPcb c _).setPcb c _).setPcb c _
  have hcnt₂ : k₂.cntPcb = k.cntPcb + 1 := by
    rw [← hk₂]
    exact hcnt₁
  have hlater₂ : A.Later k.s.heap k₂.s.heap := by
    rw [← hk₂]
    exact newPcb_leads _ _ hnew
  rcases first_runs hrep₂ h.once with hfail | ⟨s₃, s₄, hmature, hallow, hlater, hrep₄, hpcb₄⟩
  · have hfail₂ := (hfail.later hlater₂).bind fun s => newPcb (k₂.setSched s) >>= fun r => .ok r.2
    rw [bind_assoc] at hfail₂
    exact Or.inl (Or.inl hfail₂)
  have hlater₄ := hlater₂.trans hlater
  rw [hmature, Res.ok_bind, hallow, Res.ok_bind]
  have hpcb₄ : s₄.pcb = k₂.pcb := by
    rw [hpcb₄]
    change Function.update k₂.pcb c { k₂.pcb c with status := .RUNNING } = k₂.pcb
    rw [hpcb₂]
    simp only [Function.update_idem, Function.update_self]
  have hcnt₄ : (k₂.setSched s₄).cntPcb = k.cntPcb + 1 := hcnt₂
  have hset₄ : Settled (k₂.setSched s₄).s (Queues.none.put .RUNNING c) := by
    apply hrep₄.settled_put h.once hfresh
    · exact fun q t ht => absurd ht List.not_mem_nil
    · rw [hpcb₄, hpcb₂, Function.update_self]
  rcases newPcb_spec hset₄ with (hfail | ⟨-, hfail⟩) | ⟨d, k₅, hnew₅, hfresh₅, hset₅, hpcb₅, hcnt₅, -, -⟩
  · exact Or.inl (Or.inl ((hfail.later hlater₄).bind _))
  · rw [hfail]
    exact Or.inl (Or.inr rfl)
  right
  rw [hnew₅, Res.ok_bind]
  refine ⟨c, d, k₅, rfl, ?_, hset₅, ?_, ?_⟩
  · rintro rfl
    exact hfresh₅ ⟨.RUNNING, Queues.mem_put.2 (Or.inr ⟨rfl, rfl⟩)⟩
  · rw [hpcb₅, setSched_pcb, hpcb₄, hpcb₂, hcnt₄]
  · rw [hcnt₅, hcnt₄]

theorem initSched_ok (h : Settled k.s Queues.none) (hok : initSched k = .ok k') :
    ∃ c d, c ≠ d ∧ Settled k'.s (Queues.booted c d) ∧
      k'.pcb = Function.update (Function.update k.pcb c { Pcb.zero with
        pid := k.cntPcb, ppid := k.cntPcb, status := .RUNNING
        pageTable := KERNEL_BASE + PT_OFFSET }) d { Pcb.zero with pid := k.cntPcb + 1 } ∧
      k'.cntPcb = k.cntPcb + 2 := by
  rcases initSched_spec h with (hfail | herr) | ⟨c, d, k₁, hok₁, hspec⟩
  · exact absurd hok (hfail.ne_ok k')
  · exact absurd (herr.symm.trans hok) (by simp)
  · obtain rfl := Except.ok.inj (hok₁.symm.trans hok)
    exact ⟨c, d, hspec⟩

theorem Queues.booted_running (c d : Nat) : Queues.booted c d .RUNNING = [c] := by
  unfold Queues.booted
  rw [Queues.put_of_ne (by decide), Queues.put_self]
  rfl

theorem Queues.mem_booted {c d t : Nat} : t ∈ (Queues.booted c d).members ↔ t = d ∨ t = c := by
  unfold Queues.booted
  rw [Queues.members_put, Queues.members_put]
  constructor
  · rintro (rfl | rfl | ⟨q, ht⟩)
    · exact Or.inl rfl
    · exact Or.inr rfl
    · exact absurd ht List.not_mem_nil
  · rintro (rfl | rfl)
    · exact Or.inl rfl
    · exact Or.inr (Or.inl rfl)

/-- A kernel whose globals are zero, in front of an allocator whose first object is at 4096. -/
def Kernel.blank : Kernel bumpObjects :=
  ⟨⟨(4096 : Nat), fun _ => ⟨0, none⟩, fun _ => ⟨none, none⟩, fun _ => Pcb.zero⟩, 0, fun _ => 0,
    .zero, .zero, 0⟩

theorem blank_settled : Settled Kernel.blank.s Queues.none :=
  ⟨(represents_initRr Kernel.blank.s).mono (by rintro t ⟨q, ht⟩; exact absurd ht List.not_mem_nil),
    ⟨fun _ => List.nodup_nil, fun _ _ _ _ ht => absurd ht List.not_mem_nil⟩,
    fun _ _ ht => absurd ht List.not_mem_nil⟩

end Aimv6.Sched
