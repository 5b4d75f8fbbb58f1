import Aimv6.Sched.KernelEntries

/-! # The handshake of `_wait` and `_exit`

A parent that waits should get the number of a child that has exited, or else be
put to sleep until one exits. `_exit` keeps its side: it wakes the parent. `_wait`
answers a reaped child with the caller's own number, and without one it blocks
the caller again and again.
-/

namespace Aimv6.Sched

open Support

variable {A : SlabObjects} {k k' : Kernel A} {L L' : Queues} {p : Nat}

def Kernel.PidsDistinct (k : Kernel A) (L : Queues) : Prop :=
  ∀ t ∈ L.members, ∀ t' ∈ L.members, (k.pcb t).pid = (k.pcb t').pid → t = t'

/-- What a call of `_wait` by `p` should do. -/
structure Kernel.WaitContract (k : Kernel A) (L : Queues) (p : Nat) : Prop where
  /-- a zombie child is taken out of its queue, and the call returns its number -/
  reaps : (∃ c, k.ZombieChild L p c) → ∃ c k' L', k.ZombieChild L p c ∧ wait k = .ok k' ∧
    Represents ∅ k'.s L' ∧ L' .ZOMBIE = (L .ZOMBIE).erase c ∧ k'.contextSvc.r0 = (k.pcb c).pid
  /-- without one the call comes to its end with the caller in the wait queue, once, and in no
  other -/
  sleeps : (¬ ∃ c, k.ZombieChild L p c) → ∃ k' L', wait k = .ok k' ∧
    Represents ∅ k'.s L' ∧ (L' .WAIT).count p = 1 ∧ ∀ q, q ≠ .WAIT → p ∉ L' q

/-- When `p` exits while its parent waits, the parent becomes ready. -/
def Kernel.ExitWakes (k : Kernel A) (L : Queues) (p : Nat) : Prop :=
  ∀ f ∈ L .WAIT, (k.pcb p).ppid = (k.pcb f).pid → OutOfMemory A k.s.heap (exit k) ∨
    ∃ k', exit k = .ok k' ∧ Settled k'.s (L.exit p f) ∧
      L.exit p f .READY = L .READY ++ [f] ∧ L.exit p f .WAIT = (L .WAIT).erase f

theorem exit_wakes (h : Settled k.s L) (hrun : L .RUNNING = [p]) (hpids : k.PidsDistinct L) :
    k.ExitWakes L p := by
  intro f hwait hchild
  have hp := Queues.mem_running hrun
  have hmembers : (L.finish p).members = L.members := Queues.members_move h.once hp .ZOMBIE
  have honce : (L.finish p).Once := h.once.move .ZOMBIE p
  have hf : f ∈ (L.finish p).all := by
    rw [Queues.mem_all, hmembers]
    exact ⟨.WAIT, hwait⟩
  have hfwait : f ∈ L.finish p .WAIT := (Queues.mem_finish_wait h.once hrun).2 hwait
  rcases exit_spec h hrun with hfail | ⟨hnone, -⟩ | ⟨f', k', hfind, hok, hset, -, -⟩
  · exact Or.inl hfail
  · exact absurd (decide_eq_true hchild.symm) (List.find?_eq_none.1 hnone f hf)
  · right
    have hf' : f' ∈ L.members := by
      rw [← hmembers]
      exact Queues.mem_all.1 (List.mem_of_find?_eq_some hfind)
    have hpid : (k.pcb f').pid = (k.pcb p).ppid := by
      have hdec := List.find?_some hfind
      exact of_decide_eq_true hdec
    obtain rfl : f' = f := hpids f' hf' f ⟨.WAIT, hwait⟩ (hpid.trans hchild)
    refine ⟨k', hok, hset, ?_, ?_⟩
    · unfold Queues.exit
      rw [if_pos hwait, Queues.put_self, Queues.take_of_mem honce hfwait (by decide)]
      unfold Queues.finish
      rw [Queues.put_of_ne (by decide), Queues.take_of_mem h.once hp (by decide)]
    · unfold Queues.exit
      rw [if_pos hwait, Queues.put_of_ne (by decide), Queues.take]
      unfold Queues.finish
      rw [Queues.put_of_ne (by decide), Queues.take_of_mem h.once hp (by decide)]

theorem Kernel.WaitContract.false (hcontract : k.WaitContract L p) (h : Settled k.s L)
    (hrun : L .RUNNING = [p]) (hpids : k.PidsDistinct L) : False := by
  by_cases hchild : ∃ c, k.ZombieChild L p c
  · obtain ⟨c, k', L', hc, hok, -, -, hr0⟩ := hcontract.reaps hchild
    obtain ⟨-, k₁, -, hok₁, -, -, hsvc, -⟩ := wait_zombie h hrun hchild
    obtain rfl : k₁ = k' := Except.ok.inj (hok₁.symm.trans hok)
    -- the caller's own number is no zombie's
    have hpid : (k.pcb p).pid = (k.pcb c).pid := by
      rw [← hr0, hsvc]
      rfl
    have hp := Queues.mem_running hrun
    obtain rfl : p = c := hpids p ⟨_, hp⟩ c ⟨_, hc.1⟩ hpid
    exact h.once.apart .RUNNING .ZOMBIE (by decide) hp hc.1
  · obtain ⟨k', L', hok, -⟩ := hcontract.sleeps hchild
    exact wait_none h hrun (fun c hc => hchild ⟨c, hc⟩) hok

/-- In no settled state does a call of `_wait` keep the contract; in all of them `_exit` wakes. -/
theorem wait_never_meets_contract (h : Settled k.s L) (hrun : L .RUNNING = [p])
    (hpids : k.PidsDistinct L) : ¬ k.WaitContract L p ∧ k.ExitWakes L p :=
  ⟨fun hcontract => hcontract.false h hrun hpids, exit_wakes h hrun hpids⟩

/-- Right after `init_sched` the first process calls `_wait`, and the call does not come back. -/
theorem wait_after_boot_fails : ∃ k₀ : Kernel bumpObjects,
    initSched Kernel.blank.cleared = .ok k₀ ∧ ∀ k', intEntSvc k₀ .wait ≠ .ok k' := by
  have hsome : (initSched Kernel.blank.cleared).toOption.isSome = true := by decide +kernel
  obtain ⟨k₀, hk₀⟩ := Option.isSome_iff_exists.1 hsome
  have hinit := Res.toOption_eq_some.1 hk₀
  obtain ⟨L, p, hlive⟩ := Kernel.initSched_live hinit
  refine ⟨k₀, hinit, fun k' hok => ?_⟩
  unfold intEntSvc at hok
  rw [hlive.getRunning, Res.ok_bind] at hok
  exact (hlive.setCpu p k₀.contextSvc).wait hok

theorem wait_never_meets_contract_sample : ∃ (k₀ : Kernel bumpObjects) (L : Queues) (p : Nat),
    L .RUNNING = [p] ∧ ¬ k₀.WaitContract L p := by
  have hsome : (initSched Kernel.blank).toOption.isSome = true := by decide +kernel
  obtain ⟨k₀, hk₀⟩ := Option.isSome_iff_exists.1 hsome
  have hinit := Res.toOption_eq_some.1 hk₀
  obtain ⟨c, d, hcd, hset, hpcb, -⟩ := initSched_ok blank_settled hinit
  refine ⟨k₀, Queues.booted c d, c, Queues.booted_running c d, (wait_never_meets_contract hset
    (Queues.booted_running c d) ?_).1⟩
  have hc : (k₀.pcb c).pid = 0 := by
    rw [hpcb, Function.update_of_ne hcd, Function.update_self]
    rfl
  have hd : (k₀.pcb d).pid = 1 := by
    rw [hpcb, Function.update_self]
    rfl
  have hmembers : ∀ t ∈ (Queues.booted c d).members, t = d ∨ t = c := fun t => Queues.mem_booted.1
  intro t ht t' ht' hpid
  rcases hmembers t ht with rfl | rfl
  · rcases hmembers t' ht' with rfl | rfl
    · rfl
    · rw [hc, hd] at hpid
      exact absurd hpid (by decide)
  · rcases hmembers t' ht' with rfl | rfl
    · rw [hc, hd] at hpid
      exact absurd hpid (by decide)
    · rfl

end Aimv6.Sched
