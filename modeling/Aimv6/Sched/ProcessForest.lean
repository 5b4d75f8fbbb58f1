import Aimv6.Sched.ForkChild
import Aimv6.Sched.Handshake
import Aimv6.Sched.SchedRun

/-! # The process forest

Processes fork, exit and are reaped in any order, and the policy moves them
within their life cycle. A number is given once, so that a process without a
parent in the queues is one whose parent has been reaped. `_exit` looks its
parent up there and follows what it finds.
-/

namespace Aimv6.Sched

open Support

variable {A : SlabObjects} {k k' : Kernel A} {L L' : Queues} {p : Nat}

/-- The kernel is entered, or the policy makes one of its calls on the process with a number. -/
inductive ForestEvent where
  | entry (e : KernelEvent)
  | policy (c : SchedCall) (pid : Nat)

/-- The kernel, and the numbers of the processes that were reaped. -/
structure Forest (A : SlabObjects) where
  k : Kernel A
  reaped : List Nat

/-- The process that a call of `_wait` reaps. -/
def Kernel.reaps (k : Kernel A) : Option Nat := do
  let pcb ← (schedGetRunning k.s).toOption
  (schedGetZombieChild k.s (k.pcb pcb).pid).toOption.join

namespace Forest

/-- The numbers reaped behind an entry of the kernel. -/
def record (F : Forest A) : KernelEvent → List Nat
  | .svc .wait _ => (F.k.reaps.map fun c => (F.k.pcb c).pid).toList ++ F.reaped
  | _ => F.reaped

/-- The call is in the life cycle of the process, and one process runs at a time. -/
def Allowed (F : Forest A) (c : SchedCall) (task : Nat) : Prop :=
  (F.k.pcb task).status ∈ c.sources ∧ (c = .allow → (F.k.s.queue .RUNNING).head = none)

instance (F : Forest A) (c : SchedCall) (task : Nat) : Decidable (F.Allowed c task) :=
  inferInstanceAs (Decidable ((F.k.pcb task).status ∈ c.sources ∧
    (c = .allow → (F.k.s.queue .RUNNING).head = none)))

def step (F : Forest A) : ForestEvent → Option (Forest A)
  | .entry e => (F.k.step e).map fun k => ⟨k, F.record e⟩
  | .policy c pid => do
      let task ← (schedGetBypid F.k.s pid).toOption.join
      if F.Allowed c task then
        (c.call F.k.s task).toOption.map fun s =>
          ⟨F.k.setSched s, if c = .free then pid :: F.reaped else F.reaped⟩
      else none

structure Inv (F : Forest A) (L : Queues) : Prop where
  settled : Settled F.k.s L
  running : (L .RUNNING).length ≤ 1
  numbered : F.k.Numbered L
  ppids : ∀ t ∈ L.members, (F.k.pcb t).ppid < F.k.cntPcb
  /-- a number that was given is in the queues or has been reaped -/
  reaped : ∀ i, i ∈ F.reaped ↔ i < F.k.cntPcb ∧ ∀ t ∈ L.members, (F.k.pcb t).pid ≠ i

variable {F F' : Forest A}

theorem Inv.alone (h : F.Inv L) (hp : schedGetRunning F.k.s = .ok p) : L .RUNNING = [p] := by
  rw [h.settled.queues.getRunning] at hp
  have hlength := h.running
  cases hlist : L .RUNNING with
  | nil =>
      rw [hlist] at hp
      exact absurd hp (by simp)
  | cons a rest =>
      rw [hlist] at hp hlength
      obtain rfl := List.eq_nil_of_length_eq_zero (Nat.le_zero.1 (Nat.le_of_succ_le_succ hlength))
      exact congrArg (fun a => [a]) (Except.ok.inj hp)

theorem Inv.moved (h : F.Inv L) (hset : Settled k'.s L') (hrunning : (L' .RUNNING).length ≤ 1)
    (hmembers : L'.members = L.members) (hcount : k'.cntPcb = F.k.cntPcb)
    (hsame : ∀ t, SameProcess (F.k.pcb t) (k'.pcb t)) : (⟨k', F.reaped⟩ : Forest A).Inv L' := by
  constructor
  case settled => exact hset
  case running => exact hrunning
  case numbered =>
    exact h.numbered.of_same (fun t ht => hmembers ▸ ht) (fun t _ => (hsame t).pid) hcount
  case ppids =>
    intro t ht
    rw [hmembers] at ht
    dsimp only
    rw [(hsame t).ppid, hcount]
    exact h.ppids t ht
  case reaped =>
    intro i
    dsimp only
    rw [hmembers, hcount, h.reaped]
    simp only [(hsame _).pid]

/-- A process leaves the queues, and its number is among the reaped ones from then on. -/
theorem Inv.freed (h : F.Inv L) {c : Nat} (hc : c ∈ L.members) (hset : Settled k'.s (L.take c))
    (hcount : k'.cntPcb = F.k.cntPcb) (hpcb : k'.pcb = F.k.pcb) :
    (⟨k', (F.k.pcb c).pid :: F.reaped⟩ : Forest A).Inv (L.take c) := by
  have hmembers : ∀ t, t ∈ (L.take c).members ↔ t ≠ c ∧ t ∈ L.members := fun t =>
    Queues.members_take h.settled.once
  constructor
  case settled => exact hset
  case running => exact (List.length_erase_le).trans h.running
  case numbered =>
    exact h.numbered.of_same (fun t ht => ((hmembers t).1 ht).2) (fun t _ => by rw [hpcb]) hcount
  case ppids =>
    intro t ht
    dsimp only
    rw [hpcb, hcount]
    exact h.ppids t ((hmembers t).1 ht).2
  case reaped =>
    intro i
    dsimp only
    rw [hpcb, hcount, List.mem_cons, h.reaped]
    constructor
    · rintro (rfl | ⟨hi, hnone⟩)
      · refine ⟨h.numbered.below c hc, fun t ht hpid => ?_⟩
        have htc := (hmembers t).1 ht
        exact htc.1 (h.numbered.distinct t htc.2 c hc hpid)
      · exact ⟨hi, fun t ht => hnone t ((hmembers t).1 ht).2⟩
    · rintro ⟨hi, hnone⟩
      by_cases hic : i = (F.k.pcb c).pid
      · exact Or.inl hic
      · right
        refine ⟨hi, fun t ht => ?_⟩
        by_cases htc : t = c
        · rw [htc]
          exact Ne.symm hic
        · exact hnone t ((hmembers t).2 ⟨htc, ht⟩)

theorem Inv.forked (h : F.Inv L) (hp : p ∈ L.members) {c : Nat} (hc : c ∉ L.members)
    (hset : Settled k'.s (L.put .READY c)) (hfork : Forked F.k p k' c) :
    (⟨k', F.reaped⟩ : Forest A).Inv (L.put .READY c) := by
  have hsame := hfork.same_numbers hc
  constructor
  case settled => exact hset
  case running =>
    rw [Queues.put_of_ne (by decide)]
    exact h.running
  case numbered =>
    exact h.numbered.put (fun t ht => (hsame t ht).1) hfork.child_pid hfork.count
  case ppids =>
    intro t ht
    rw [Queues.members_put] at ht
    dsimp only
    rw [hfork.count]
    cases ht with
    | inl htc =>
        rw [htc, hfork.child_ppid]
        exact Nat.lt_succ_of_lt (h.numbered.below p hp)
    | inr ht =>
        rw [(hsame t ht).2]
        exact Nat.lt_succ_of_lt (h.ppids t ht)
  case reaped =>
    intro i
    dsimp only
    rw [Queues.members_put, hfork.count, h.reaped]
    constructor
    · rintro ⟨hi, hnone⟩
      refine ⟨by omega, fun t ht => ?_⟩
      cases ht with
      | inl htc =>
          rw [htc, hfork.child_pid]
          omega
      | inr ht =>
          rw [(hsame t ht).1]
          exact hnone t ht
    · rintro ⟨hi, hnone⟩
      have hchild := hnone c (Set.mem_insert c L.members)
      rw [hfork.child_pid] at hchild
      refine ⟨by omega, fun t ht => ?_⟩
      rw [← (hsame t ht).1]
      exact hnone t (Set.mem_insert_of_mem c ht)

theorem Inv.policy (h : F.Inv L) {c : SchedCall} {pid : Nat}
    (hstep : F.step (.policy c pid) = some F') : ∃ L', F'.Inv L' := by
  unfold step at hstep
  dsimp only at hstep
  rw [h.settled.queues.getBypid] at hstep
  obtain ⟨task, hfind, hcall⟩ := Option.bind_eq_some_iff.1 hstep
  have hfind : L.all.find? (fun t => (F.k.pcb t).pid = pid) = some task := hfind
  obtain ⟨q, hmem⟩ := Queues.mem_all.1 (List.mem_of_find?_eq_some hfind)
  have hpid : (F.k.pcb task).pid = pid := by
    have hdec := List.find?_some hfind
    exact of_decide_eq_true hdec
  have hstatus : (F.k.s.pcb task).status = q := h.settled.status q task hmem
  by_cases hallowed : F.Allowed c task
  case neg =>
    rw [if_neg hallowed] at hcall
    exact absurd hcall (by simp)
  rw [if_pos hallowed] at hcall
  obtain ⟨s', hok, rfl⟩ := Option.map_eq_some_iff.1 hcall
  have hok := Res.toOption_eq_some.1 hok
  have hsource : (F.k.s.pcb task).status ∈ c.sources := hallowed.1
  by_cases hfree : c = .free
  · subst hfree
    rw [hstatus] at hsource
    obtain rfl := List.mem_singleton.1 hsource
    obtain ⟨s₁, hok₁, hset, hpcb⟩ := h.settled.free hmem
    obtain rfl : s₁ = s' := Except.ok.inj (hok₁.symm.trans hok)
    rw [if_pos rfl, ← hpid]
    exact ⟨_, h.freed ⟨_, hmem⟩ hset rfl hpcb⟩
  · obtain ⟨dst, htarget, hmove⟩ := SchedCall.call_eq_move hsource hfree
    rw [if_neg hfree]
    rw [hmove, hstatus] at hok
    obtain ⟨hset, hpcb⟩ := h.settled.move_ok hmem hok
    refine ⟨_, h.moved hset ?_ (Queues.members_move h.settled.once hmem dst) rfl
      fun t => (same_of_status hpcb t).1⟩
    by_cases hdst : dst = .RUNNING
    · subst hdst
      have hempty : L .RUNNING = [] := by
        have hhead := h.settled.queues.head_eq .RUNNING
        rw [hallowed.2 (SchedCall.allow_of_target htarget)] at hhead
        exact List.head?_eq_none_iff.1 hhead.symm
      rw [Queues.put_self, Queues.take, hempty]
      exact le_refl 1
    · rw [Queues.put_of_ne (Ne.symm hdst)]
      exact List.length_erase_le.trans h.running

theorem Inv.setCpu (h : F.Inv L) (task : Nat) (v : ContextCpu) :
    (⟨F.k.setCpu task v, F.reaped⟩ : Forest A).Inv L :=
  h.moved (h.settled.setCpu task v) h.running rfl rfl (sameProcess_setCpu F.k task v)

theorem Inv.setContextIrq (h : F.Inv L) (v : ContextCpu) :
    (⟨F.k.setContextIrq v, F.reaped⟩ : Forest A).Inv L :=
  ⟨h.settled, h.running, h.numbered.setContextIrq v, h.ppids, h.reaped⟩

theorem Inv.setContextSvc (h : F.Inv L) (v : ContextCpu) :
    (⟨F.k.setContextSvc v, F.reaped⟩ : Forest A).Inv L :=
  ⟨h.settled, h.running, h.numbered.setContextSvc v, h.ppids, h.reaped⟩

theorem Inv.schedMain (h : F.Inv L) (hrun : L .RUNNING = [p]) (hok : schedMain F.k = .ok k') :
    ∃ L', (⟨k', F.reaped⟩ : Forest A).Inv L' := by
  obtain ⟨L', next, hset, hsw⟩ := schedMain_ok h.settled hrun hok
  refine ⟨L', h.moved hset ?_ (hsw.members hrun) hsw.counters.1 hsw.same⟩
  rw [hsw.running]
  exact le_refl 1

theorem Inv.fork (h : F.Inv L) (hrun : L .RUNNING = [p]) (hok : fork F.k = .ok k') :
    ∃ L', (⟨k', F.reaped⟩ : Forest A).Inv L' := by
  obtain ⟨c, hc, hset, hforked⟩ := fork_ok h.settled hrun hok
  exact ⟨_, h.forked ⟨.RUNNING, Queues.mem_running hrun⟩ hc hset hforked⟩

theorem Inv.exit (h : F.Inv L) (hrun : L .RUNNING = [p]) (hok : exit F.k = .ok k') :
    ∃ L', (⟨k', F.reaped⟩ : Forest A).Inv L' := by
  obtain ⟨f, hset, hsame, hcount⟩ := exit_ok h.settled hrun hok
  refine ⟨_, h.moved hset ?_ (Queues.members_exit h.settled.once (Queues.mem_running hrun) f)
    hcount hsame⟩
  rw [Queues.exit_running hrun]
  exact Nat.zero_le 1

theorem Inv.reaps_eq (h : F.Inv L) (hrun : L .RUNNING = [p]) : F.k.reaps =
    (L .ZOMBIE).find? fun t => (F.k.pcb t).ppid = (F.k.pcb p).pid := by
  unfold Kernel.reaps
  rw [h.settled.queues.getRunning_eq hrun]
  show (schedGetZombieChild F.k.s (F.k.pcb p).pid).toOption.join = _
  rw [h.settled.queues.getZombieChild]
  rfl

theorem Inv.wait (h : F.Inv L) (hrun : L .RUNNING = [p]) (hok : wait F.k = .ok k') :
    ∃ L' c, F.k.reaps = some c ∧ (⟨k', (F.k.pcb c).pid :: F.reaped⟩ : Forest A).Inv L' := by
  by_cases hchild : ∃ c, F.k.ZombieChild L p c
  · obtain ⟨c, k₁, hc, hwait, hset, hpcb, -, -, -, hcount, hfind⟩ := wait_zombie h.settled hrun hchild
    obtain rfl := Except.ok.inj (hwait.symm.trans hok)
    rw [h.settled.queues.getZombieChild] at hfind
    refine ⟨_, c, ?_, h.freed ⟨.ZOMBIE, hc.1⟩ hset hcount hpcb⟩
    exact (h.reaps_eq hrun).trans (Except.ok.inj hfind)
  · exact absurd hok (wait_none h.settled hrun fun c hc => hchild ⟨c, hc⟩)

theorem Inv.entry (h : F.Inv L) {e : KernelEvent} (hstep : F.step (.entry e) = some F') :
    ∃ L', F'.Inv L' := by
  obtain ⟨k₁, hk₁, rfl⟩ := Option.map_eq_some_iff.1 hstep
  cases e with
  | timer regs =>
      have hok : intEntIrq (F.k.setContextIrq regs) IRQ_TIMER = .ok k₁ := Res.toOption_eq_some.1 hk₁
      unfold intEntIrq at hok
      obtain ⟨p, hget, hmain⟩ := Res.bind_eq_ok.1 hok
      have hset := ((h.setContextIrq regs).setCpu p regs).setContextIrq (regs.setPc (sub32 regs.pc 4))
      exact hset.schedMain (h.alone hget) hmain
  | svc svcId regs =>
      have hok : intEntSvc (F.k.setContextSvc regs) svcId = .ok k₁ := Res.toOption_eq_some.1 hk₁
      unfold intEntSvc at hok
      obtain ⟨p, hget, hcall⟩ := Res.bind_eq_ok.1 hok
      have hset := (h.setContextSvc regs).setCpu p regs
      have hrun := h.alone hget
      cases svcId with
      | fork => exact hset.fork hrun hcall
      | exit => exact hset.exit hrun hcall
      | getpid =>
          obtain ⟨p', -, hend⟩ := Res.bind_eq_ok.1 hcall
          obtain rfl := Except.ok.inj hend
          exact ⟨L, hset.setContextSvc _⟩
      | getppid =>
          obtain ⟨p', -, hend⟩ := Res.bind_eq_ok.1 hcall
          obtain rfl := Except.ok.inj hend
          exact ⟨L, hset.setContextSvc _⟩
      | wait =>
          obtain ⟨L', c, hreaps, hinv⟩ := hset.wait hrun hcall
          -- the context that the entry saves is no part of the search
          have hsame := sameProcess_setCpu (F.k.setContextSvc regs) p regs
          have hfind : F.k.reaps = some c := by
            rw [← hreaps, hset.reaps_eq hrun, h.reaps_eq hrun]
            congr 1
            funext t
            dsimp only
            rw [(hsame t).ppid, (hsame p).pid]
            rfl
          have hrecord : F.record (.svc .wait regs) = (F.k.pcb c).pid :: F.reaped := by
            unfold record
            rw [hfind]
            rfl
          have hpid := (hsame c).pid
          rw [hrecord]
          dsimp only at hinv
          rw [hpid] at hinv
          exact ⟨L', hinv⟩

theorem Inv.step (h : F.Inv L) {e : ForestEvent} (hstep : F.step e = some F') : ∃ L', F'.Inv L' := by
  cases e with
  | entry e => exact h.entry hstep
  | policy c pid => exact h.policy hstep

theorem init_inv {k₀ : Kernel A} (hinit : initSched k.cleared = .ok k₀) :
    ∃ L, (⟨k₀, []⟩ : Forest A).Inv L := by
  obtain ⟨c, d, hcd, hset, hpcb, hcount⟩ := initSched_ok k.cleared_settled hinit
  have hc : (k₀.pcb c).pid = 0 ∧ (k₀.pcb c).ppid = 0 := by
    rw [hpcb, Function.update_of_ne hcd, Function.update_self]
    exact ⟨rfl, rfl⟩
  have hd : (k₀.pcb d).pid = 1 ∧ (k₀.pcb d).ppid = 0 := by
    rw [hpcb, Function.update_self]
    exact ⟨rfl, rfl⟩
  have hcount : k₀.cntPcb = 2 := hcount
  refine ⟨Queues.booted c d, ?_⟩
  constructor
  case settled => exact hset
  case running =>
    rw [Queues.booted_running]
    exact le_refl 1
  case numbered => exact Kernel.numbered_booted hc.1 hd.1 hcount
  case ppids =>
    intro t ht
    dsimp only
    cases Queues.mem_booted.1 ht with
    | inl htd => rw [htd, hd.2, hcount]; decide
    | inr htc => rw [htc, hc.2, hcount]; decide
  case reaped =>
    intro i
    dsimp only
    rw [hcount]
    constructor
    · exact fun hi => absurd hi List.not_mem_nil
    · rintro ⟨hi, hnone⟩
      have h₀ := hnone c (Queues.mem_booted.2 (Or.inr rfl))
      have h₁ := hnone d (Queues.mem_booted.2 (Or.inl rfl))
      omega

theorem run_inv {k₀ : Kernel A} {es : List ForestEvent} (hinit : initSched k.cleared = .ok k₀)
    (hrun : run step ⟨k₀, []⟩ es = some F) : ∃ L, F.Inv L := by
  refine @run_invariant _ _ step (fun F => ∃ L, F.Inv L) ?_ _ _ _ (init_inv hinit) hrun
  intro F e F' hF hstep
  obtain ⟨L, hL⟩ := hF
  exact hL.step hstep

end Forest

/-- The queues behind a call of `_exit` by `p`: a parent that waited is ready, and the others stay
where they were. -/
structure Kernel.Exited (k : Kernel A) (L : Queues) (p : Nat) (L' : Queues) : Prop where
  caller : ∀ q, p ∈ L' q ↔ q = .ZOMBIE
  parent : ∀ f ∈ L .WAIT, (k.pcb f).pid = (k.pcb p).ppid → ∀ q, f ∈ L' q ↔ q = .READY
  others : ∀ t, t ≠ p → ¬ (t ∈ L .WAIT ∧ (k.pcb t).pid = (k.pcb p).ppid) →
    ∀ q, t ∈ L' q ↔ t ∈ L q

/-- A call of `_exit` by `p` comes to its end, and the queues are as they should be. -/
def Kernel.ExitSafe (k : Kernel A) (L : Queues) (p : Nat) : Prop :=
  ∃ k' L', exit k = .ok k' ∧ Settled k'.s L' ∧ k.Exited L p L'

theorem Kernel.PidsDistinct.exited (hpids : k.PidsDistinct L) (hL : L.Once) (hp : p ∈ L .RUNNING)
    {f : Nat} (hf : f ∈ L.members) (hparent : (k.pcb f).pid = (k.pcb p).ppid) :
    k.Exited L p (L.exit p f) := by
  by_cases hwait : f ∈ L .WAIT
  · have hfp : f ≠ p := by
      rintro rfl
      exact hL.apart .WAIT .RUNNING (by decide) hwait hp
    have hmem : ∀ t q, t ∈ L.exit p f q ↔ (t ≠ f ∧ t ∈ L.finish p q) ∨ q = .READY ∧ t = f := by
      intro t q
      have honce : (L.finish p).Once := hL.move .ZOMBIE p
      unfold Queues.exit
      rw [if_pos hwait, Queues.mem_put, Queues.mem_take honce]
    constructor
    case caller =>
      intro q
      rw [hmem, Queues.mem_finish hL]
      simp [hfp.symm]
    case parent =>
      intro f' hwait' hparent' q
      obtain rfl : f' = f := hpids f' ⟨_, hwait'⟩ f hf (hparent'.trans hparent.symm)
      rw [hmem]
      simp
    case others =>
      intro t htp hnot q
      have htf : t ≠ f := by
        rintro rfl
        exact hnot ⟨hwait, hparent⟩
      rw [hmem, Queues.mem_finish hL]
      simp [htp, htf]
  · have hexit : L.exit p f = L.finish p := if_neg hwait
    rw [hexit]
    constructor
    case caller =>
      intro q
      rw [Queues.mem_finish hL]
      simp
    case parent =>
      intro f' hwait' hparent'
      obtain rfl : f' = f := hpids f' ⟨_, hwait'⟩ f hf (hparent'.trans hparent.symm)
      exact absurd hwait' hwait
    case others =>
      intro t htp _ q
      rw [Queues.mem_finish hL]
      simp [htp]

/-- In every state that the processes reach by forks, exits and waits in any order, a call of
`_exit` comes to its end, with a waiting parent made ready, exactly if the caller's parent has not
been reaped. A reaped parent makes it follow a null pointer. -/
theorem exit_safe_iff {k₀ : Kernel A} {es : List ForestEvent} {F : Forest A}
    (hinit : initSched k.cleared = .ok k₀) (hrun : run Forest.step ⟨k₀, []⟩ es = some F)
    (hp : schedGetRunning F.k.s = .ok p) :
    ∃ L, Settled F.k.s L ∧ L .RUNNING = [p] ∧ (OutOfMemory A F.k.s.heap (exit F.k) ∨
      (F.k.ExitSafe L p ↔ (F.k.pcb p).ppid ∉ F.reaped) ∧
      (exit F.k = .error .nullDeref ↔ (F.k.pcb p).ppid ∈ F.reaped)) := by
  obtain ⟨L, h⟩ := Forest.run_inv hinit hrun
  have hrunning := h.alone hp
  have hmem := Queues.mem_running hrunning
  have hmembers : (L.finish p).members = L.members :=
    Queues.members_move h.settled.once hmem .ZOMBIE
  have hpids : F.k.PidsDistinct L := h.numbered.distinct
  have hlt := h.ppids p ⟨_, hmem⟩
  refine ⟨L, h.settled, hrunning, ?_⟩
  rcases exit_spec h.settled hrunning with hfail | ⟨hnone, herr⟩ | ⟨f, k', hfind, hok, hset, -, -⟩
  · exact Or.inl hfail
  · right
    have hreaped : (F.k.pcb p).ppid ∈ F.reaped := by
      rw [h.reaped]
      refine ⟨hlt, fun t ht hpid => ?_⟩
      rw [← hmembers, ← Queues.mem_all] at ht
      exact List.find?_eq_none.1 hnone t ht (decide_eq_true hpid)
    constructor
    · constructor
      · rintro ⟨k', L', hok, -⟩
        exact absurd (herr.symm.trans hok) (by simp)
      · exact fun hnot => absurd hreaped hnot
    · exact ⟨fun _ => hreaped, fun _ => herr⟩
  · right
    have hf : f ∈ L.members := by
      rw [← hmembers]
      exact Queues.mem_all.1 (List.mem_of_find?_eq_some hfind)
    have hparent : (F.k.pcb f).pid = (F.k.pcb p).ppid := by
      have hdec := List.find?_some hfind
      exact of_decide_eq_true hdec
    have hnot : (F.k.pcb p).ppid ∉ F.reaped := by
      rw [h.reaped]
      rintro ⟨-, hnone⟩
      exact hnone f hf hparent
    constructor
    · exact ⟨fun _ => hnot, fun _ =>
        ⟨k', _, hok, hset, hpids.exited h.settled.once hmem hf hparent⟩⟩
    · constructor
      · exact fun herr => absurd (hok.symm.trans herr) (by simp)
      · exact fun hreaped => absurd hreaped hnot

theorem handshake_along_runs {k₀ : Kernel A} {es : List ForestEvent} {F : Forest A}
    (hinit : initSched k.cleared = .ok k₀) (hrun : run Forest.step ⟨k₀, []⟩ es = some F)
    (hp : schedGetRunning F.k.s = .ok p) :
    ∃ L, Settled F.k.s L ∧ L .RUNNING = [p] ∧ ¬ F.k.WaitContract L p ∧ F.k.ExitWakes L p := by
  obtain ⟨L, h⟩ := Forest.run_inv hinit hrun
  have hrunning := h.alone hp
  exact ⟨L, h.settled, hrunning, fun hcontract => hcontract.false h.settled hrunning h.numbered.distinct,
    exit_wakes h.settled hrunning h.numbered.distinct⟩

/-- A child forks, exits before its own child and is reaped. -/
def orphanRun : List ForestEvent :=
  [.entry (.svc .fork .zero), .entry (.timer .zero), .entry (.svc .fork .zero),
    .entry (.svc .exit .zero), .policy .allow 0, .entry (.svc .wait .zero), .entry (.timer .zero)]

theorem orphanRun_returns : ((initSched Kernel.blank.cleared).toOption.bind fun k₀ =>
    (run Forest.step ⟨k₀, []⟩ orphanRun).map fun F =>
      ((schedGetRunning F.k.s).toOption.map fun p => (F.k.pcb p).ppid, F.reaped,
        (exit F.k).map fun _ => ())) = some (some 2, [2], .error .nullDeref) := by
  decide +kernel

/-- The grandchild exits and follows a null pointer. -/
theorem exit_safe_fails : ∃ (k₀ : Kernel bumpObjects) (F : Forest bumpObjects) (p : Nat),
    initSched Kernel.blank.cleared = .ok k₀ ∧ run Forest.step ⟨k₀, []⟩ orphanRun = some F ∧
    schedGetRunning F.k.s = .ok p ∧ exit F.k = .error .nullDeref := by
  obtain ⟨k₀, hinit, hrest⟩ := Option.bind_eq_some_iff.1 orphanRun_returns
  obtain ⟨F, hrun, hend⟩ := Option.map_eq_some_iff.1 hrest
  have hget := congrArg Prod.fst hend
  have hexit := congrArg (fun r => r.2.2) hend
  obtain ⟨p, hp, -⟩ := Option.map_eq_some_iff.1 hget
  refine ⟨k₀, F, p, Res.toOption_eq_some.1 hinit, hrun, Res.toOption_eq_some.1 hp, ?_⟩
  cases hcall : exit F.k with
  | ok k' =>
      dsimp only at hexit
      rw [hcall] at hexit
      exact absurd hexit (by simp [Except.map])
  | error e =>
      dsimp only at hexit
      rw [hcall] at hexit
      exact congrArg Except.error (Except.error.inj hexit)

theorem exit_safe_iff_sample : ∃ (F : Forest bumpObjects) (p : Nat) (L : Queues),
    Settled F.k.s L ∧ L .RUNNING = [p] ∧ (OutOfMemory bumpObjects F.k.s.heap (exit F.k) ∨
      (F.k.ExitSafe L p ↔ (F.k.pcb p).ppid ∉ F.reaped) ∧
      (exit F.k = .error .nullDeref ↔ (F.k.pcb p).ppid ∈ F.reaped)) := by
  obtain ⟨k₀, hinit, hrest⟩ := Option.bind_eq_some_iff.1 orphanRun_returns
  obtain ⟨F, hrun, hend⟩ := Option.map_eq_some_iff.1 hrest
  have hget := congrArg Prod.fst hend
  obtain ⟨p, hp, -⟩ := Option.map_eq_some_iff.1 hget
  exact ⟨F, p, exit_safe_iff (Res.toOption_eq_some.1 hinit) hrun (Res.toOption_eq_some.1 hp)⟩

end Aimv6.Sched
