import Aimv6.Sched.Settled

/-! # `_wait` and `_exit`

What the two calls do to a settled state, by the zombies the caller has and by the
process that carries its parent's number.
-/

namespace Aimv6.Sched

open Support

variable {A : SlabObjects} {T : Set Nat} {s s' : SchedState A} {k k' : Kernel A} {L L' : Queues}
  {p : Nat}

/-- The queues in the order in which `sched_get_bypid` looks through them. -/
def Queues.all (L : Queues) : List Nat :=
  L .NEW ++ (L .READY ++ (L .RUNNING ++ (L .WAIT ++ (L .ZOMBIE ++ L .ABORT))))

theorem Queues.mem_all {t : Nat} : t ∈ L.all ↔ t ∈ L.members := by
  unfold Queues.all
  simp only [List.mem_append]
  constructor
  · rintro (h | h | h | h | h | h)
    · exact ⟨_, h⟩
    · exact ⟨_, h⟩
    · exact ⟨_, h⟩
    · exact ⟨_, h⟩
    · exact ⟨_, h⟩
    · exact ⟨_, h⟩
  · rintro ⟨q, h⟩
    cases q with
    | NEW => exact Or.inl h
    | READY => exact Or.inr (Or.inl h)
    | RUNNING => exact Or.inr (Or.inr (Or.inl h))
    | WAIT => exact Or.inr (Or.inr (Or.inr (Or.inl h)))
    | ZOMBIE => exact Or.inr (Or.inr (Or.inr (Or.inr (Or.inl h))))
    | ABORT => exact Or.inr (Or.inr (Or.inr (Or.inr (Or.inr h))))

theorem Represents.getBypid (h : Represents T s L) (pid : Nat) :
    schedGetBypid s pid = .ok (L.all.find? fun t => (s.pcb t).pid = pid) := by
  unfold schedGetBypid schedGetBypidIn Queues.all
  simp only [h.find, Res.ok_bind, List.find?_append]
  cases (L .NEW).find? fun t => (s.pcb t).pid = pid with
  | some t => rfl
  | none =>
  cases (L .READY).find? fun t => (s.pcb t).pid = pid with
  | some t => rfl
  | none =>
  cases (L .RUNNING).find? fun t => (s.pcb t).pid = pid with
  | some t => rfl
  | none =>
  cases (L .WAIT).find? fun t => (s.pcb t).pid = pid with
  | some t => rfl
  | none =>
  cases (L .ZOMBIE).find? fun t => (s.pcb t).pid = pid with
  | some t => rfl
  | none =>
  cases (L .ABORT).find? fun t => (s.pcb t).pid = pid with
  | some t => rfl
  | none => rfl

theorem Represents.getZombieChild (h : Represents T s L) (ppid : Nat) :
    schedGetZombieChild s ppid = .ok ((L .ZOMBIE).find? fun t => (s.pcb t).ppid = ppid) :=
  h.find .ZOMBIE _

/-! ## Waiting -/

/-- A zombie whose parent is `p`. -/
def Kernel.ZombieChild (k : Kernel A) (L : Queues) (p c : Nat) : Prop :=
  c ∈ L .ZOMBIE ∧ (k.pcb c).ppid = (k.pcb p).pid

theorem waitLoop_none {fuel : Nat} (h : Represents T k.s L) (hn : (L .RUNNING).Nodup)
    (hno : ∀ c, ¬ k.ZombieChild L p c) : waitLoop p fuel k ≠ .ok k' := by
  induction fuel generalizing k L with
  | zero => exact fun heq => by cases heq
  | succ fuel ih =>
      have hfind : ((L .ZOMBIE).find? fun t => (k.s.pcb t).ppid = (k.pcb p).pid) = none :=
        List.find?_eq_none.2 fun c hc hdec => hno c ⟨hc, of_decide_eq_true hdec⟩
      unfold waitLoop
      rw [h.getZombieChild, hfind, Res.ok_bind]
      dsimp only
      obtain ⟨s₁, hpop, hrep₁, hpcb₁⟩ := queuePop_spec h .RUNNING p hn
      unfold schedBlock schedMove
      rw [hpop, Res.ok_bind]
      rcases queuePush_spec hrep₁ .WAIT p with hfail | ⟨s₂, hpush, hrep₂, hpcb₂⟩
      · exact ((hfail.bind _).bind _).ne_ok k'
      rw [hpush, Res.ok_bind, Res.ok_bind]
      have hsame : ∀ t, SameProcess (k.pcb t) ((s₂.setStatus p .WAIT).pcb t) := by
        intro t
        have hpcbs : s₂.pcb = k.pcb := hpcb₂.trans hpcb₁
        have hst := (@same_of_status _ s₂ (s₂.setStatus p .WAIT) p .WAIT rfl t).1
        rwa [hpcbs] at hst
      apply ih (hrep₂.setStatus p .WAIT)
      · rw [Queues.put_of_ne (by decide), Function.update_self]
        exact hn.erase p
      · rintro c ⟨hc, hppid⟩
        rw [Queues.put_of_ne (by decide), Function.update_of_ne (by decide)] at hc
        apply hno c ⟨hc, ?_⟩
        rw [← (hsame c).ppid, ← (hsame p).pid]
        exact hppid

theorem wait_none (h : Settled k.s L) (hrun : L .RUNNING = [p])
    (hno : ∀ c, ¬ k.ZombieChild L p c) : wait k ≠ .ok k' := by
  unfold wait
  rw [h.queues.getRunning_eq hrun]
  exact waitLoop_none h.queues (h.once.nodup _) hno

/-- With a zombie child `_wait` takes the first one from the queue, and returns its `ppid`. -/
theorem wait_zombie (h : Settled k.s L) (hrun : L .RUNNING = [p])
    (hsome : ∃ c, k.ZombieChild L p c) :
    ∃ c k', k.ZombieChild L p c ∧ wait k = .ok k' ∧ Settled k'.s (L.take c) ∧ k'.pcb = k.pcb ∧
      k'.contextSvc = k.contextSvc.setR0 (k.pcb p).pid ∧ k'.contextIrq = k.contextIrq ∧
      k'.ttbr0 = k.ttbr0 ∧ k'.cntPcb = k.cntPcb ∧
      schedGetZombieChild k.s (k.pcb p).pid = .ok (some c) := by
  obtain ⟨c₀, hc₀, hppid₀⟩ := hsome
  obtain ⟨c, hfind⟩ : ∃ c, (L .ZOMBIE).find? (fun t => (k.s.pcb t).ppid = (k.pcb p).pid) = some c := by
    apply Option.isSome_iff_exists.1
    rw [List.find?_isSome]
    exact ⟨c₀, hc₀, decide_eq_true hppid₀⟩
  have hc : c ∈ L .ZOMBIE := List.mem_of_find?_eq_some hfind
  have hppid : (k.pcb c).ppid = (k.pcb p).pid := by
    have hdec := List.find?_some hfind
    exact of_decide_eq_true hdec
  obtain ⟨s', hfree, hset, hpcb⟩ := h.free hc
  have hwalk : walkFuel = (walkFuel - 1) + 1 := by decide
  unfold wait
  rw [h.queues.getRunning_eq hrun, Res.ok_bind, hwalk]
  unfold waitLoop
  rw [h.queues.getZombieChild, hfind, Res.ok_bind]
  dsimp only
  rw [hfree, Res.ok_bind]
  refine ⟨c, _, ⟨hc, hppid⟩, rfl, hset, hpcb, ?_, rfl, rfl, rfl, rfl⟩
  show k.contextSvc.setR0 (s'.pcb c).ppid = _
  rw [hpcb, ← hppid]
  rfl

/-! ## Exiting -/

/-- The queues behind `sched_finish(p)`. -/
def Queues.finish (L : Queues) (p : Nat) : Queues := (L.take p).put .ZOMBIE p

/-- The queues behind `_exit` when `f` is found as the parent. -/
def Queues.exit (L : Queues) (p f : Nat) : Queues :=
  if f ∈ L .WAIT then ((L.finish p).take f).put .READY f else L.finish p

theorem Queues.mem_finish (hL : L.Once) {t : Nat} {q : ProcStatus} :
    t ∈ L.finish p q ↔ (t ≠ p ∧ t ∈ L q) ∨ q = .ZOMBIE ∧ t = p := by
  unfold finish
  rw [mem_put, mem_take hL]

theorem Queues.mem_finish_wait (hL : L.Once) (hrun : L .RUNNING = [p]) {t : Nat} :
    t ∈ L.finish p .WAIT ↔ t ∈ L .WAIT := by
  have hp := mem_running hrun
  unfold Queues.finish
  rw [put_of_ne (by decide), take_of_mem hL hp (by decide)]

theorem Queues.finish_running (L : Queues) (hrun : L .RUNNING = [p]) :
    L.finish p .RUNNING = [] := by
  unfold Queues.finish
  rw [put_of_ne (by decide), take, hrun, List.erase_cons_head]

theorem Queues.members_exit (hL : L.Once) (hp : p ∈ L .RUNNING) (f : Nat) :
    (L.exit p f).members = L.members := by
  have hmembers : (L.finish p).members = L.members := members_move hL hp .ZOMBIE
  unfold exit
  by_cases hwait : f ∈ L .WAIT
  · have hf : f ∈ L.finish p .WAIT := by
      unfold finish
      rw [put_of_ne (by decide), take_of_mem hL hp (by decide)]
      exact hwait
    have honce : (L.finish p).Once := hL.move .ZOMBIE p
    rw [if_pos hwait, members_move honce hf .READY, hmembers]
  · rw [if_neg hwait, hmembers]

theorem Queues.exit_running (hrun : L .RUNNING = [p]) (f : Nat) : L.exit p f .RUNNING = [] := by
  unfold exit
  split
  · rw [put_of_ne (by decide), take, finish_running L hrun]
    rfl
  · exact finish_running L hrun

/-- `_exit` makes the caller a zombie; a parent that waits becomes ready. It follows a null pointer
when no process carries the parent's number any more. -/
theorem exit_spec (h : Settled k.s L) (hrun : L .RUNNING = [p]) :
    OutOfMemory A k.s.heap (exit k) ∨
      ((L.finish p).all.find? (fun t => (k.pcb t).pid = (k.pcb p).ppid) = none ∧
        exit k = .error .nullDeref) ∨
      ∃ f k', (L.finish p).all.find? (fun t => (k.pcb t).pid = (k.pcb p).ppid) = some f ∧
        exit k = .ok k' ∧ Settled k'.s (L.exit p f) ∧
        (∀ t, SameProcess (k.pcb t) (k'.pcb t) ∧ (k'.pcb t).cpu = (k.pcb t).cpu) ∧
        k.SameRegs k' ∧ k'.cntPcb = k.cntPcb := by
  have hp := Queues.mem_running hrun
  unfold exit
  rw [h.queues.getRunning_eq hrun, Res.ok_bind]
  rcases h.move .ZOMBIE hp with hfail | ⟨s₁, hfinish, hset₁, hpcb₁⟩
  · exact Or.inl (hfail.bind _)
  have hset₁ : Settled s₁ (L.finish p) := hset₁
  have hsame₁ : ∀ t, SameProcess (k.pcb t) (s₁.pcb t) ∧ (s₁.pcb t).cpu = (k.pcb t).cpu :=
    same_of_status hpcb₁
  have hfind : (fun t => decide ((s₁.pcb t).pid = (s₁.pcb p).ppid)) =
      fun t => decide ((k.pcb t).pid = (k.pcb p).ppid) := by
    funext t
    rw [(hsame₁ t).1.pid, (hsame₁ p).1.ppid]
  unfold schedFinish
  rw [hfinish, Res.ok_bind, hset₁.queues.getBypid, hfind, Res.ok_bind]
  cases hparent : (L.finish p).all.find? fun t => decide ((k.pcb t).pid = (k.pcb p).ppid) with
  | none => exact Or.inr (Or.inl ⟨rfl, rfl⟩)
  | some f =>
      obtain ⟨q, hq⟩ := Queues.mem_all.1 (List.mem_of_find?_eq_some hparent)
      have hstatus : (s₁.pcb f).status = .WAIT ↔ f ∈ L .WAIT := by
        rw [← Queues.mem_finish_wait h.once hrun, hset₁.status q f hq]
        constructor
        · rintro rfl
          exact hq
        · intro hwait
          by_contra hne
          exact hset₁.once.apart q .WAIT hne hq hwait
      rw [deref_some, Res.ok_bind]
      unfold Queues.exit
      by_cases hwait : f ∈ L .WAIT
      · rw [if_pos (hstatus.2 hwait)]
        have hmem : f ∈ L.finish p .WAIT := (Queues.mem_finish_wait h.once hrun).2 hwait
        rcases hset₁.move .READY hmem with hfail | ⟨s₂, hwake, hset₂, hpcb₂⟩
        · exact Or.inl ((hfail.later (schedMove_leads _ _ _ _ _ hfinish)).bind _)
        unfold schedWake
        rw [hwake, Res.ok_bind]
        refine Or.inr (Or.inr ⟨f, _, rfl, rfl, ?_, fun t => ?_, ⟨rfl, rfl, rfl⟩, rfl⟩)
        · rw [if_pos hwait]
          exact hset₂
        · have hsame₂ := same_of_status hpcb₂ t
          exact ⟨(hsame₁ t).1.trans hsame₂.1, hsame₂.2.trans (hsame₁ t).2⟩
      · rw [if_neg (fun hst => hwait (hstatus.1 hst))]
        refine Or.inr (Or.inr ⟨f, _, rfl, rfl, ?_, hsame₁, ⟨rfl, rfl, rfl⟩, rfl⟩)
        rw [if_neg hwait]
        exact hset₁

theorem exit_ok (h : Settled k.s L) (hrun : L .RUNNING = [p]) (hok : exit k = .ok k') :
    ∃ f, Settled k'.s (L.exit p f) ∧ (∀ t, SameProcess (k.pcb t) (k'.pcb t)) ∧
      k'.cntPcb = k.cntPcb := by
  rcases exit_spec h hrun with hfail | ⟨-, herr⟩ | ⟨f, k₁, -, hexit, hset, hsame, -, hcount⟩
  · exact absurd hok (hfail.ne_ok k')
  · exact absurd (herr.symm.trans hok) (by simp)
  · obtain rfl := Except.ok.inj (hexit.symm.trans hok)
    exact ⟨f, hset, fun t => (hsame t).1, hcount⟩

end Aimv6.Sched
