import Aimv6.Sched.Queues
import Aimv6.Sched.SchedMain

/-! # Settled scheduler states

Between two operations every queued process is an object in use, is queued once,
and has the status that names its queue. What each function of the kernel does
to such a state is stated on the lists of processes.
-/

namespace Aimv6.Sched

open Support

variable {A : SlabObjects} {s s' : SchedState A} {k k' : Kernel A} {L L' : Queues} {q : ProcStatus} {task : Nat}

def Queues.members (L : Queues) : Set Nat := {t | ∃ q, t ∈ L q}

structure Settled (s : SchedState A) (L : Queues) : Prop where
  queues : Represents L.members s L
  once : L.Once
  status : ∀ q, ∀ t ∈ L q, (s.pcb t).status = q

theorem Queues.members_move (hL : L.Once) {src : ProcStatus} (hsrc : task ∈ L src)
    (dst : ProcStatus) : ((L.take task).put dst task).members = L.members := by
  ext t
  constructor
  · rintro ⟨q, ht⟩
    rcases mem_put.1 ht with ht | ⟨-, rfl⟩
    · exact ⟨q, ((mem_take hL).1 ht).2⟩
    · exact ⟨src, hsrc⟩
  · rintro ⟨q, ht⟩
    by_cases htask : t = task
    · exact ⟨dst, mem_put.2 (Or.inr ⟨rfl, htask⟩)⟩
    · exact ⟨q, mem_put.2 (Or.inl ((mem_take hL).2 ⟨htask, ht⟩))⟩

theorem Queues.members_take (hL : L.Once) {t : Nat} :
    t ∈ (L.take task).members ↔ t ≠ task ∧ t ∈ L.members := by
  constructor
  · rintro ⟨q, ht⟩
    have hmem := (mem_take hL).1 ht
    exact ⟨hmem.1, q, hmem.2⟩
  · rintro ⟨hne, q, ht⟩
    exact ⟨q, (mem_take hL).2 ⟨hne, ht⟩⟩

theorem Represents.mono {T T' : Set Nat} (h : Represents T s L) (hT : T' ⊆ T) :
    Represents T' s L := by
  obtain ⟨nodes, hnodes, hpcb, hlive⟩ := h
  exact ⟨nodes, hnodes, hpcb, fun t ht => hlive t (hT ht)⟩

theorem Represents.alloc {T : Set Nat} (h : Represents T s L) {n p : Nat} {heap : A.State}
    (halloc : A.slbAlloc s.heap n = .ok (p, heap)) :
    Represents (insert p T) { s with heap := heap } L ∧ p ∉ T := by
  have hfresh := A.alloc_fresh _ _ _ _ halloc
  have hgrow := A.alloc_live _ _ _ _ halloc
  have hrep : Represents T { s with heap := heap } L :=
    h.congr rfl rfl fun x hx => hgrow (Or.inr hx)
  obtain ⟨nodes, hnodes, hpcb, hlive⟩ := h
  refine ⟨⟨nodes, ⟨hnodes.fifo, fun q x hx => hgrow (Or.inr (hnodes.live q x hx)),
    hnodes.addresses, hnodes.apart⟩, hpcb, ?_⟩, fun hp => hfresh (hlive p hp).1⟩
  intro t ht
  rcases ht with rfl | ht
  · exact ⟨hgrow (Or.inl rfl), fun q hmem => hfresh (hnodes.live q t hmem)⟩
  · exact ⟨hgrow (Or.inr (hlive t ht).1), (hlive t ht).2⟩

theorem Settled.setPcb (h : Settled s L) (task : Nat) {v : Pcb}
    (hv : v.status = (s.pcb task).status) : Settled (s.setPcb task v) L := by
  refine ⟨h.queues.setPcb task v, h.once, fun q t ht => ?_⟩
  unfold SchedState.setPcb
  dsimp only
  by_cases htask : t = task
  · rw [htask, Function.update_self, hv, ← htask]
    exact h.status q t ht
  · rw [Function.update_of_ne htask]
    exact h.status q t ht

theorem Settled.setCpu (h : Settled k.s L) (task : Nat) (v : ContextCpu) :
    Settled (k.setCpu task v).s L := h.setPcb task rfl

theorem Settled.move (h : Settled s L) {src : ProcStatus} (dst : ProcStatus) (hsrc : task ∈ L src) :
    OutOfMemory A s.heap (schedMove src dst s task) ∨
      ∃ s', schedMove src dst s task = .ok s' ∧ Settled s' ((L.take task).put dst task) ∧
        s'.pcb = Function.update s.pcb task { s.pcb task with status := dst } := by
  rcases schedMove_spec h.queues h.once dst hsrc with hfail | ⟨s', hok, hrep, hpcb⟩
  · exact Or.inl hfail
  · right
    refine ⟨s', hok, ⟨?_, h.once.move dst task, fun q t ht => ?_⟩, hpcb⟩
    · rw [Queues.members_move h.once hsrc]
      exact hrep
    · rw [hpcb]
      rcases Queues.mem_put.1 ht with ht | ⟨hq, htask⟩
      · obtain ⟨hne, hmem⟩ := (Queues.mem_take h.once).1 ht
        rw [Function.update_of_ne hne]
        exact h.status q t hmem
      · rw [htask, Function.update_self, hq]

theorem Settled.move_ok (h : Settled s L) {src dst : ProcStatus} (hsrc : task ∈ L src)
    (hok : schedMove src dst s task = .ok s') : Settled s' ((L.take task).put dst task) ∧
      s'.pcb = Function.update s.pcb task { s.pcb task with status := dst } := by
  rcases h.move dst hsrc with hfail | ⟨s₁, hok₁, hset⟩
  · exact absurd hok (hfail.ne_ok s')
  · obtain rfl := Except.ok.inj (hok₁.symm.trans hok)
    exact hset

theorem Settled.free (h : Settled s L) (hsrc : task ∈ L .ZOMBIE) :
    ∃ s', schedFree s task = .ok s' ∧ Settled s' (L.take task) ∧ s'.pcb = s.pcb := by
  obtain ⟨s', hok, hrep, hpcb⟩ := queuePop_spec h.queues .ZOMBIE task (h.once.nodup _)
  rw [Queues.update_take fun q hq hmem => h.once.apart q .ZOMBIE hq hmem hsrc] at hrep
  refine ⟨s', hok, ⟨hrep.mono ?_, h.once.take task, fun q t ht => ?_⟩, hpcb⟩
  · rintro t ⟨q, ht⟩
    exact ⟨q, List.mem_of_mem_erase ht⟩
  · rw [hpcb]
    exact h.status q t (List.mem_of_mem_erase ht)

/-! ## The searches -/

theorem Represents.find {T : Set Nat} (h : Represents T s L) (q : ProcStatus) (stop : Pcb → Bool) :
    schedFind s q stop = .ok ((L q).find? fun t => stop (s.pcb t)) := by
  obtain ⟨nodes, hnodes, hpcb, -⟩ := h
  obtain ⟨l₁, l₂, hl, hbefore, hstop, hscan⟩ :=
    @scan_chain _ s.next (fun p => stop (s.pcb (s.element p).pcb)) walkFuel none _ _
      (hnodes.fifo q).chain (hnodes.length_lt q)
  unfold schedFind
  rw [hscan, Res.ofFuel_some, Res.ok_bind, ← hpcb q, hl, List.find?_map, List.find?_append]
  have hnone : l₁.find? ((fun t => stop (s.pcb t)) ∘ fun p => (s.element p).pcb) = none :=
    List.find?_eq_none.2 fun a ha => by simpa using hbefore a ha
  rw [hnone, Option.none_or]
  cases l₂ with
  | nil => rfl
  | cons p l₂ =>
      have hp : ((fun t => stop (s.pcb t)) ∘ fun p => (s.element p).pcb) p = true :=
        hstop p (by simp)
      rw [List.find?_cons_of_pos hp]
      rfl

theorem Represents.first {T : Set Nat} (h : Represents T s L) (q : ProcStatus) :
    ((deref (s.queue q).head).bind fun head => .ok (s.element head).pcb : Res Nat) =
    match (L q).head? with
      | some t => .ok t
      | none => .error .nullDeref := by
  rw [← h.head_eq q]
  cases (s.queue q).head with
  | none => rfl
  | some p => rfl

theorem Represents.getRunning {T : Set Nat} (h : Represents T s L) :
    schedGetRunning s = match (L .RUNNING).head? with
      | some t => .ok t
      | none => .error .nullDeref := h.first .RUNNING

theorem Queues.mem_running {p : Nat} (hrun : L .RUNNING = [p]) : p ∈ L .RUNNING := by
  rw [hrun]
  exact List.mem_singleton.2 rfl

theorem Represents.getRunning_eq {T : Set Nat} {p : Nat} (h : Represents T s L)
    (hrun : L .RUNNING = [p]) : schedGetRunning s = .ok p := by
  rw [h.getRunning, hrun]
  rfl

theorem Represents.pick {T : Set Nat} (h : Represents T s L) :
    schedPick s = match (L .READY).head? with
      | some t => .ok t
      | none => .error .nullDeref := h.first .READY

/-! ## The context switch -/

namespace Queues

theorem put_self (L : Queues) (q : ProcStatus) (task : Nat) :
    L.put q task q = L q ++ [task] := if_pos rfl

theorem put_of_ne {L : Queues} {q q' : ProcStatus} (h : q' ≠ q) (task : Nat) :
    L.put q task q' = L q' := if_neg h

theorem take_of_mem {L : Queues} (hL : L.Once) {q q' : ProcStatus} (hmem : task ∈ L q)
    (h : q' ≠ q) : L.take task q' = L q' :=
  List.erase_of_not_mem fun hmem' => hL.apart q' q h hmem' hmem

end Queues

/-- The PCB of the same process: its numbers and its page table. -/
structure SameProcess (v w : Pcb) : Prop where
  pid : w.pid = v.pid
  ppid : w.ppid = v.ppid
  pageTable : w.pageTable = v.pageTable

theorem SameProcess.refl (v : Pcb) : SameProcess v v := ⟨rfl, rfl, rfl⟩

theorem SameProcess.trans {v w x : Pcb} (h : SameProcess v w) (h' : SameProcess w x) :
    SameProcess v x :=
  ⟨h'.pid.trans h.pid, h'.ppid.trans h.ppid, h'.pageTable.trans h.pageTable⟩

theorem sameProcess_setCpu (k : Kernel A) (task : Nat) (v : ContextCpu) (t : Nat) :
    SameProcess (k.pcb t) ((k.setCpu task v).pcb t) := by
  unfold Kernel.setCpu Kernel.setPcb Kernel.pcb SchedState.setPcb
  dsimp only
  by_cases ht : t = task
  · rw [ht, Function.update_self]
    exact ⟨rfl, rfl, rfl⟩
  · rw [Function.update_of_ne ht]
    exact SameProcess.refl _

theorem setCpu_cpu (k : Kernel A) (task : Nat) (v : ContextCpu) (t : Nat) :
    ((k.setCpu task v).pcb t).cpu = if t = task then v else (k.pcb t).cpu := by
  unfold Kernel.setCpu Kernel.setPcb Kernel.pcb SchedState.setPcb
  dsimp only
  by_cases ht : t = task
  · rw [ht, Function.update_self, if_pos rfl]
  · rw [Function.update_of_ne ht, if_neg ht]

def Kernel.SameRegs (k k' : Kernel A) : Prop :=
  k'.contextIrq = k.contextIrq ∧ k'.contextSvc = k.contextSvc ∧ k'.ttbr0 = k.ttbr0

/-- What `sched_main` makes of the queues and the contexts when `p` is running: `p` goes behind
the ready processes and the first of these runs. -/
structure Switched (k : Kernel A) (L : Queues) (p : Nat) (k' : Kernel A) (L' : Queues)
    (next : Nat) : Prop where
  ready : L .READY ++ [p] = next :: L' .READY
  running : L' .RUNNING = [next]
  others : ∀ q, q ≠ .READY → q ≠ .RUNNING → L' q = L q
  returned : k'.contextIrq = if next = p then k.contextIrq else (k.pcb next).cpu
  table : k'.ttbr0 = V2P (k'.pcb next).pageTable
  saved : ∀ t, (k'.pcb t).cpu = if t = p then k.contextIrq else (k.pcb t).cpu
  same : ∀ t, SameProcess (k.pcb t) (k'.pcb t)
  counters : k'.cntPcb = k.cntPcb ∧ k'.pcbList = k.pcbList ∧ k'.contextSvc = k.contextSvc

theorem Switched.members {p next : Nat} (h : Switched k L p k' L' next) (hrun : L .RUNNING = [p]) :
    L'.members = L.members := by
  have hready : ∀ t, t ∈ L .READY ∨ t = p ↔ t = next ∨ t ∈ L' .READY := by
    intro t
    have hmem : t ∈ L .READY ++ [p] ↔ t ∈ next :: L' .READY := by rw [h.ready]
    rwa [List.mem_append, List.mem_singleton, List.mem_cons] at hmem
  ext t
  constructor
  · rintro ⟨q, ht⟩
    have hfrom : t = next ∨ t ∈ L' .READY → t ∈ L.members := by
      intro htn
      rcases (hready t).2 htn with ht | rfl
      · exact ⟨.READY, ht⟩
      · exact ⟨.RUNNING, Queues.mem_running hrun⟩
    by_cases hq : q = .READY
    · exact hfrom (Or.inr (hq ▸ ht))
    by_cases hq' : q = .RUNNING
    · rw [hq', h.running] at ht
      exact hfrom (Or.inl (List.mem_singleton.1 ht))
    · exact ⟨q, h.others q hq hq' ▸ ht⟩
  · rintro ⟨q, ht⟩
    have hto : t ∈ L .READY ∨ t = p → t ∈ L'.members := by
      intro htp
      rcases (hready t).1 htp with rfl | ht
      · exact ⟨.RUNNING, Queues.mem_running h.running⟩
      · exact ⟨.READY, ht⟩
    by_cases hq : q = .READY
    · exact hto (Or.inl (hq ▸ ht))
    by_cases hq' : q = .RUNNING
    · rw [hq', hrun] at ht
      exact hto (Or.inr (List.mem_singleton.1 ht))
    · exact ⟨q, (h.others q hq hq').symm ▸ ht⟩

theorem same_of_status {st : ProcStatus}
    (h : s'.pcb = Function.update s.pcb task { s.pcb task with status := st }) (t : Nat) :
    SameProcess (s.pcb t) (s'.pcb t) ∧ (s'.pcb t).cpu = (s.pcb t).cpu := by
  rw [h]
  by_cases ht : t = task
  · rw [ht, Function.update_self]
    exact ⟨⟨rfl, rfl, rfl⟩, rfl⟩
  · rw [Function.update_of_ne ht]
    exact ⟨SameProcess.refl _, rfl⟩

/-- The kernel behind `context_switch`: the context of `taskFrom` is saved before that of `taskTo`
is fetched. -/
def Kernel.switched (k : Kernel A) (taskFrom taskTo : Nat) (onReturn : ContextCpu) : Kernel A :=
  (switchMm k (k.pcb taskFrom).pageTable (k.pcb taskTo).pageTable).setCpu taskFrom onReturn

theorem contextSwitch_eq (k : Kernel A) (taskFrom taskTo : Nat) (onReturn : ContextCpu) :
    contextSwitch k taskFrom taskTo onReturn =
      (((k.switched taskFrom taskTo onReturn).pcb taskTo).cpu,
        k.switched taskFrom taskTo onReturn) := by
  unfold contextSwitch switchTo Kernel.switched
  rfl

theorem switchMm_ttbr0 (k : Kernel A) (ptFrom ptTo : Nat) :
    (switchMm k ptFrom ptTo).ttbr0 = V2P ptTo := rfl

theorem switchMm_s (k : Kernel A) (ptFrom ptTo : Nat) : (switchMm k ptFrom ptTo).s = k.s := by
  unfold switchMm
  rfl

theorem switchMm_pcb (k : Kernel A) (ptFrom ptTo : Nat) : (switchMm k ptFrom ptTo).pcb = k.pcb := by
  unfold switchMm Kernel.pcb
  rfl

theorem switched_spec (k : Kernel A) (taskFrom taskTo : Nat) (onReturn : ContextCpu) :
    (k.switched taskFrom taskTo onReturn).ttbr0 = V2P (k.pcb taskTo).pageTable ∧
    (∀ t, ((k.switched taskFrom taskTo onReturn).pcb t).cpu =
      if t = taskFrom then onReturn else (k.pcb t).cpu) ∧
    (∀ t, SameProcess (k.pcb t) ((k.switched taskFrom taskTo onReturn).pcb t)) ∧
    (k.switched taskFrom taskTo onReturn).s =
      k.s.setPcb taskFrom { k.pcb taskFrom with cpu := onReturn } := by
  unfold Kernel.switched
  refine ⟨?_, fun t => ?_, fun t => ?_, ?_⟩
  · unfold switchMm Kernel.setCpu Kernel.setPcb
    dsimp only
  · rw [setCpu_cpu, switchMm_pcb]
  · have h := sameProcess_setCpu (switchMm k (k.pcb taskFrom).pageTable (k.pcb taskTo).pageTable)
      taskFrom onReturn t
    rwa [switchMm_pcb] at h
  · unfold Kernel.setCpu
    rw [switchMm_pcb]
    unfold switchMm Kernel.setPcb
    dsimp only

theorem switched_counters (k : Kernel A) (taskFrom taskTo : Nat) (onReturn : ContextCpu) :
    let k' := k.switched taskFrom taskTo onReturn
    k'.cntPcb = k.cntPcb ∧ k'.pcbList = k.pcbList ∧ k'.contextSvc = k.contextSvc := by
  unfold Kernel.switched switchMm Kernel.setCpu Kernel.setPcb
  exact ⟨rfl, rfl, rfl⟩

theorem schedMain_spec {p : Nat} (h : Settled k.s L) (hrun : L .RUNNING = [p]) :
    OutOfMemory A k.s.heap (schedMain k) ∨
      ∃ k' L' next, schedMain k = .ok k' ∧ Settled k'.s L' ∧ Switched k L p k' L' next := by
  have hp := Queues.mem_running hrun
  unfold schedMain
  rw [h.queues.getRunning_eq hrun, Res.ok_bind]
  rcases h.move .READY hp with hfail | ⟨s₁, hpreempt, hset₁, hpcb₁⟩
  · exact Or.inl (hfail.bind _)
  obtain ⟨next, rest, hnext⟩ : ∃ next rest, L .READY ++ [p] = next :: rest :=
    List.exists_cons_of_ne_nil (by simp)
  have hready : (L.take p).put .READY p .READY = next :: rest := by
    rw [Queues.put_self, Queues.take_of_mem h.once hp (by decide), hnext]
  have hmem : next ∈ (L.take p).put .READY p .READY := by
    rw [hready]
    simp
  have hpick : schedPick s₁ = .ok next := by
    rw [hset₁.queues.pick, hready]
    rfl
  unfold schedPreempt
  rw [hpreempt, Res.ok_bind, hpick, Res.ok_bind]
  have hlater := schedMove_leads .RUNNING .READY k.s p s₁ hpreempt
  rcases hset₁.move .RUNNING hmem with hfail | ⟨s₂, hallow, hset₂, hpcb₂⟩
  · exact Or.inl ((hfail.later hlater).bind _)
  right
  unfold schedAllow
  rw [hallow, Res.ok_bind]
  have hsame : ∀ t, SameProcess (k.pcb t) (s₂.pcb t) := fun t =>
    (same_of_status hpcb₁ t).1.trans (same_of_status hpcb₂ t).1
  have hcpu : ∀ t, (s₂.pcb t).cpu = (k.pcb t).cpu := fun t =>
    (same_of_status hpcb₂ t).2.trans (same_of_status hpcb₁ t).2
  obtain ⟨k₂, hk₂⟩ : ∃ k₂ : Kernel A, k.setSched s₂ = k₂ := ⟨_, rfl⟩
  have hpcb : k₂.pcb = s₂.pcb := by
    rw [← hk₂]
    rfl
  have hs : k₂.s = s₂ := by
    rw [← hk₂]
    rfl
  obtain ⟨htable, hsaved, hafter, hsw⟩ := switched_spec k₂ p next k.contextIrq
  have hcounters := switched_counters k₂ p next k.contextIrq
  rw [hk₂, contextSwitch_eq]
  obtain ⟨k', hk'⟩ : ∃ k', k₂.switched p next k.contextIrq = k' := ⟨_, rfl⟩
  rw [hk'] at htable hsaved hafter hsw hcounters ⊢
  rw [hpcb] at htable hsaved hafter hsw
  have hsaved : ∀ t, (k'.pcb t).cpu = if t = p then k.contextIrq else (k.pcb t).cpu := by
    intro t
    rw [hsaved t, hcpu]
  rw [hs] at hsw
  refine ⟨_, _, next, rfl, hsw ▸ hset₂.setPcb p (v := { s₂.pcb p with cpu := k.contextIrq }) rfl, ?_⟩
  constructor
  case ready =>
    rw [Queues.put_of_ne (by decide), Queues.take, hready, List.erase_cons_head]
    exact hnext
  case running =>
    rw [Queues.put_self, Queues.take_of_mem hset₁.once hmem (by decide),
      Queues.put_of_ne (by decide), Queues.take, hrun, List.erase_cons_head]
    rfl
  case others =>
    intro q hq hq'
    rw [Queues.put_of_ne hq', Queues.take_of_mem hset₁.once hmem hq, Queues.put_of_ne hq,
      Queues.take_of_mem h.once hp hq']
  case returned => exact hsaved next
  case table => exact htable.trans (congrArg V2P (hafter next).pageTable.symm)
  case saved => exact hsaved
  case same => exact fun t => (hsame t).trans (hafter t)
  case counters =>
    rw [← hk₂] at hcounters
    exact hcounters

theorem schedMain_leads (k : Kernel A) :
    A.Leads k.s.heap (fun k => k.s.heap) (schedMain k) := by
  unfold schedMain
  refine .step fun p => ?_
  refine (schedMove_leads .RUNNING .READY k.s p).bind fun s₁ h₁ => .step fun next => ?_
  exact .bind (fun s₂ h₂ => h₁.trans (schedMove_leads .READY .RUNNING s₁ next s₂ h₂))
    fun s₂ h₂ => .ok h₂

theorem schedMain_ok {p : Nat} (h : Settled k.s L) (hrun : L .RUNNING = [p])
    (hok : schedMain k = .ok k') : ∃ L' next, Settled k'.s L' ∧ Switched k L p k' L' next := by
  rcases schedMain_spec h hrun with hfail | ⟨k₁, L', next, hmain, hset, hsw⟩
  · exact absurd hok (hfail.ne_ok k')
  · obtain rfl := Except.ok.inj (hmain.symm.trans hok)
    exact ⟨L', next, hset, hsw⟩

end Aimv6.Sched
