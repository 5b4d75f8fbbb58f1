import Aimv6.Sched.ProcessForest

/-! # The table of PCBs

`new_pcb` is the one function that stores in `pcb_list` and counts in `cnt_pcb`.
At `MAX_PCB` it reports that there is no PCB left and goes on with a store behind
the end of the table.
-/

namespace Aimv6.Sched

open Support

variable {A : SlabObjects} {k k' : Kernel A} {L : Queues} {p c : Nat}

namespace Kernel

/-- `pcb_list` and `cnt_pcb` are as before. -/
structure SameTable (k k' : Kernel A) : Prop where
  count : k'.cntPcb = k.cntPcb
  listed : k'.pcbList = k.pcbList

/-- One PCB more, in the entry that `cnt_pcb` designates. -/
structure Enlisted (k k' : Kernel A) (c : Nat) : Prop where
  room : k.cntPcb < MAX_PCB
  count : k'.cntPcb = k.cntPcb + 1
  listed : k'.pcbList = Function.update k.pcbList k.cntPcb c

theorem SameTable.refl (k : Kernel A) : k.SameTable k := ⟨rfl, rfl⟩

theorem SameTable.trans {k₁ k₂ k₃ : Kernel A} (h₁ : k₁.SameTable k₂) (h₂ : k₂.SameTable k₃) :
    k₁.SameTable k₃ :=
  ⟨h₂.count.trans h₁.count, h₂.listed.trans h₁.listed⟩

theorem Enlisted.of_same {k₁ k₂ k₃ k₄ : Kernel A} (h : k₂.Enlisted k₃ c) (hbefore : k₁.SameTable k₂)
    (hafter : k₃.SameTable k₄) : k₁.Enlisted k₄ c := by
  constructor
  case room =>
    rw [← hbefore.count]
    exact h.room
  case count => rw [hafter.count, h.count, hbefore.count]
  case listed => rw [hafter.listed, h.listed, hbefore.count, hbefore.listed]

end Kernel

/-! ## Who stores in the table -/

theorem newPcb_enlists (hok : newPcb k = .ok (c, k')) : k.Enlisted k' c := by
  unfold newPcb at hok
  obtain ⟨⟨pcb, heap⟩, -, hok⟩ := Res.bind_eq_ok.1 hok
  dsimp only at hok
  by_cases hfull : MAX_PCB ≤ k.cntPcb
  · rw [if_pos hfull] at hok
    exact absurd hok (by simp)
  · rw [if_neg hfull] at hok
    obtain ⟨s, -, hok⟩ := Res.bind_eq_ok.1 hok
    obtain ⟨rfl, rfl⟩ := Prod.mk.inj (Except.ok.inj hok)
    exact ⟨Nat.not_le.1 hfull, rfl, rfl⟩

theorem fork_enlists (hok : fork k = .ok k') : ∃ c, k.Enlisted k' c := by
  unfold fork at hok
  obtain ⟨⟨c, k₁⟩, hnew, hok⟩ := Res.bind_eq_ok.1 hok
  obtain ⟨p, -, hok⟩ := Res.bind_eq_ok.1 hok
  obtain ⟨⟨pageTable, heap⟩, -, hok⟩ := Res.bind_eq_ok.1 hok
  obtain ⟨running, -, hok⟩ := Res.bind_eq_ok.1 hok
  obtain ⟨s, -, hok⟩ := Res.bind_eq_ok.1 hok
  obtain rfl := Except.ok.inj hok
  exact ⟨c, (newPcb_enlists hnew).of_same (.refl k) ⟨rfl, rfl⟩⟩

theorem schedMain_table (hok : schedMain k = .ok k') : k.SameTable k' := by
  unfold schedMain at hok
  obtain ⟨nowPcb, -, hok⟩ := Res.bind_eq_ok.1 hok
  obtain ⟨s₁, -, hok⟩ := Res.bind_eq_ok.1 hok
  obtain ⟨newPcb, -, hok⟩ := Res.bind_eq_ok.1 hok
  obtain ⟨s₂, -, hok⟩ := Res.bind_eq_ok.1 hok
  obtain rfl := Except.ok.inj hok
  exact ⟨rfl, rfl⟩

theorem waitLoop_table {pcb fuel : Nat} (hok : waitLoop pcb fuel k = .ok k') : k.SameTable k' := by
  induction fuel generalizing k with
  | zero => exact absurd hok (by simp [waitLoop])
  | succ fuel ih =>
      unfold waitLoop at hok
      obtain ⟨child, -, hok⟩ := Res.bind_eq_ok.1 hok
      cases child with
      | some child =>
          obtain ⟨s, -, hok⟩ := Res.bind_eq_ok.1 hok
          obtain rfl := Except.ok.inj hok
          exact ⟨rfl, rfl⟩
      | none =>
          obtain ⟨s, -, hok⟩ := Res.bind_eq_ok.1 hok
          exact (⟨rfl, rfl⟩ : k.SameTable (k.setSched s)).trans (ih hok)

theorem exit_table (hok : exit k = .ok k') : k.SameTable k' := by
  unfold exit at hok
  obtain ⟨pcb, -, hok⟩ := Res.bind_eq_ok.1 hok
  obtain ⟨s, -, hok⟩ := Res.bind_eq_ok.1 hok
  obtain ⟨parent, -, hok⟩ := Res.bind_eq_ok.1 hok
  obtain ⟨fPcb, -, hok⟩ := Res.bind_eq_ok.1 hok
  by_cases hwaits : (s.pcb fPcb).status = .WAIT
  · rw [if_pos hwaits] at hok
    obtain ⟨s', -, hok⟩ := Res.bind_eq_ok.1 hok
    obtain rfl := Except.ok.inj hok
    exact ⟨rfl, rfl⟩
  · rw [if_neg hwaits] at hok
    obtain rfl := Except.ok.inj hok
    exact ⟨rfl, rfl⟩

theorem syscall_table {svcId : Svc} (hsvc : svcId ≠ .fork) (hok : syscall k svcId = .ok k') :
    k.SameTable k' := by
  cases svcId with
  | fork => exact absurd rfl hsvc
  | wait =>
      obtain ⟨pcb, -, hok⟩ := Res.bind_eq_ok.1 hok
      exact waitLoop_table hok
  | exit => exact exit_table hok
  | getpid | getppid =>
      obtain ⟨pcb, -, hok⟩ := Res.bind_eq_ok.1 hok
      obtain rfl := Except.ok.inj hok
      exact ⟨rfl, rfl⟩

namespace Forest

variable {F F' : Forest A}

/-- The calls of `_fork`. -/
def isFork : ForestEvent → Bool
  | .entry (.svc .fork _) => true
  | _ => false

def forks (es : List ForestEvent) : Nat := es.countP isFork

theorem step_fork {e : ForestEvent} (he : isFork e = true) (hstep : F.step e = some F') :
    ∃ c, F.k.Enlisted F'.k c := by
  cases e with
  | policy c pid => exact absurd he (by simp [isFork])
  | entry e =>
      obtain ⟨k₁, hk₁, rfl⟩ := Option.map_eq_some_iff.1 hstep
      cases e with
      | timer regs => exact absurd he (by simp [isFork])
      | svc svcId regs =>
          obtain rfl : svcId = .fork := by
            cases svcId <;> first | rfl | exact absurd he (by simp [isFork])
          obtain ⟨p, -, hok⟩ := Res.bind_eq_ok.1 (Res.toOption_eq_some.1 hk₁)
          obtain ⟨c, henlisted⟩ := fork_enlists hok
          exact ⟨c, henlisted.of_same ⟨rfl, rfl⟩ (.refl k₁)⟩

theorem step_table {e : ForestEvent} (he : isFork e = false) (hstep : F.step e = some F') :
    F.k.SameTable F'.k := by
  cases e with
  | policy c pid =>
      obtain ⟨task, -, hcall⟩ := Option.bind_eq_some_iff.1 hstep
      by_cases hallowed : F.Allowed c task
      · rw [if_pos hallowed] at hcall
        obtain ⟨s, -, rfl⟩ := Option.map_eq_some_iff.1 hcall
        exact ⟨rfl, rfl⟩
      · rw [if_neg hallowed] at hcall
        exact absurd hcall (by simp)
  | entry e =>
      obtain ⟨k₁, hk₁, rfl⟩ := Option.map_eq_some_iff.1 hstep
      cases e with
      | timer regs =>
          obtain ⟨p, -, hok⟩ := Res.bind_eq_ok.1 (Res.toOption_eq_some.1 hk₁)
          have hsame : Kernel.SameTable (((F.k.setContextIrq regs).setCpu p regs).setContextIrq
              (regs.setPc (sub32 regs.pc 4))) k₁ := schedMain_table hok
          exact ⟨hsame.count, hsame.listed⟩
      | svc svcId regs =>
          have hsvc : svcId ≠ .fork := by
            rintro rfl
            exact absurd he (by simp [isFork])
          obtain ⟨p, -, hok⟩ := Res.bind_eq_ok.1 (Res.toOption_eq_some.1 hk₁)
          have hsame := syscall_table hsvc hok
          exact ⟨hsame.count, hsame.listed⟩

end Forest

/-! ## The table along a run -/

/-- `n` processes have been created, and the entries from `n` on are still zero. -/
structure Kernel.Counted (k : Kernel A) (n : Nat) : Prop where
  count : k.cntPcb = n
  le : n ≤ MAX_PCB
  unused : ∀ i, n ≤ i → k.pcbList i = 0

theorem Kernel.Counted.same {n : Nat} (h : k.Counted n) (hsame : k.SameTable k') :
    k'.Counted n := by
  refine ⟨hsame.count.trans h.count, h.le, fun i hi => ?_⟩
  rw [hsame.listed]
  exact h.unused i hi

theorem Kernel.Counted.enlisted {n : Nat} (h : k.Counted n) (henlisted : k.Enlisted k' c) :
    k'.Counted (n + 1) := by
  have hroom := henlisted.room
  rw [h.count] at hroom
  refine ⟨by rw [henlisted.count, h.count], hroom, fun i hi => ?_⟩
  rw [henlisted.listed, h.count, Function.update_of_ne (by omega)]
  exact h.unused i (by omega)

theorem initSched_counted {k₀ : Kernel A} (hinit : initSched k.cleared = .ok k₀) :
    k₀.Counted 2 := by
  unfold initSched at hinit
  obtain ⟨⟨c, k₁⟩, hnew, hinit⟩ := Res.bind_eq_ok.1 hinit
  obtain ⟨s₁, -, hinit⟩ := Res.bind_eq_ok.1 hinit
  obtain ⟨s₂, -, hinit⟩ := Res.bind_eq_ok.1 hinit
  obtain ⟨⟨d, k₂⟩, hmirror, hinit⟩ := Res.bind_eq_ok.1 hinit
  obtain rfl := Except.ok.inj hinit
  have hcleared : Kernel.Counted { k.cleared with pcbList := fun _ => 0 } 0 :=
    ⟨rfl, by decide, fun _ _ => rfl⟩
  have hmirror := newPcb_enlists hmirror
  refine Kernel.Counted.enlisted ?_ hmirror
  exact (hcleared.enlisted (newPcb_enlists hnew)).same ⟨rfl, rfl⟩

namespace Forest

variable {F F' : Forest A}

theorem run_counted {es : List ForestEvent} {n : Nat} (h : F.k.Counted n)
    (hrun : run step F es = some F') : F'.k.Counted (n + forks es) := by
  induction es generalizing F n with
  | nil =>
      obtain rfl : F = F' := Option.some.inj hrun
      exact h
  | cons e es ih =>
      obtain ⟨F₁, hstep, hrest⟩ := run_cons.1 hrun
      unfold forks at ih ⊢
      cases he : isFork e with
      | true =>
          obtain ⟨c, henlisted⟩ := step_fork he hstep
          have hend := ih (h.enlisted henlisted) hrest
          rw [List.countP_cons_of_pos he]
          rwa [Nat.add_right_comm] at hend
      | false =>
          have hend := ih (h.same (step_table he hstep)) hrest
          rwa [List.countP_cons_of_neg (by simp [he])]

end Forest

/-! ## The bound of the table -/

/-- Nothing was counted, listed or queued. -/
structure Kernel.Unchanged (k k' : Kernel A) : Prop where
  table : k.SameTable k'
  queue : k'.s.queue = k.s.queue
  element : k'.s.element = k.s.element

/-- `new_pcb` stores inside the table, and a full table makes it and `_fork` come back without a
process. -/
structure Kernel.TableBound (k : Kernel A) : Prop where
  inside : OutOfMemory A k.s.heap (newPcb k) ∨
    ∃ c k', newPcb k = .ok (c, k') ∧ ∀ i, MAX_PCB ≤ i → k'.pcbList i = k.pcbList i
  refused : MAX_PCB ≤ k.cntPcb → ∃ c k', newPcb k = .ok (c, k') ∧ k.Unchanged k'
  childless : MAX_PCB ≤ k.cntPcb → ∃ k', fork k = .ok k' ∧ k.Unchanged k'

theorem newPcb_full (hfull : MAX_PCB ≤ k.cntPcb) (r : Nat × Kernel A) : newPcb k ≠ .ok r := by
  intro hok
  exact absurd (newPcb_enlists hok).room (Nat.not_lt.2 hfull)

theorem tableBound_iff (h : Settled k.s L) : k.TableBound ↔ k.cntPcb < MAX_PCB := by
  constructor
  · intro hbound
    by_contra hfull
    obtain ⟨c, k', hok, -⟩ := hbound.refused (Nat.not_lt.1 hfull)
    exact newPcb_full (Nat.not_lt.1 hfull) _ hok
  · intro hroom
    refine ⟨?_, fun hfull => absurd hroom (Nat.not_lt.2 hfull),
      fun hfull => absurd hroom (Nat.not_lt.2 hfull)⟩
    rcases newPcb_spec h with (hfail | ⟨hfull, -⟩) | ⟨c, k', hok, -⟩
    · exact Or.inl hfail
    · exact absurd hroom (Nat.not_lt.2 hfull)
    · refine Or.inr ⟨c, k', hok, fun i hi => ?_⟩
      rw [(newPcb_enlists hok).listed, Function.update_of_ne (by omega)]

/-- In every state that the kernel reaches, `cnt_pcb` has counted the two processes of start-up and
the forks, and nothing was stored behind the end of `pcb_list`. The next call of `new_pcb` keeps to
the table exactly as long as there have been fewer than `MAX_PCB` of them. -/
theorem process_table_bound_iff {k₀ : Kernel A} {es : List ForestEvent} {F : Forest A}
    (hinit : initSched k.cleared = .ok k₀) (hrun : run Forest.step ⟨k₀, []⟩ es = some F) :
    F.k.cntPcb = 2 + Forest.forks es ∧ F.k.cntPcb ≤ MAX_PCB ∧
      (∀ i, F.k.cntPcb ≤ i → F.k.pcbList i = 0) ∧
      (F.k.TableBound ↔ 2 + Forest.forks es < MAX_PCB) := by
  have hcounted := Forest.run_counted (F := ⟨k₀, []⟩) (initSched_counted hinit) hrun
  obtain ⟨L, hinv⟩ := Forest.run_inv hinit hrun
  have hcount := hcounted.count
  refine ⟨hcount, by rw [hcount]; exact hcounted.le, fun i hi => ?_, ?_⟩
  · exact hcounted.unused i (by rwa [hcount] at hi)
  · rw [tableBound_iff hinv.settled, hcount]

theorem oneFork_returns : ((initSched Kernel.blank.cleared).toOption.bind fun k₀ =>
    run Forest.step ⟨k₀, []⟩ [.entry (.svc .fork .zero)]).isSome = true := by
  decide +kernel

theorem process_table_bound_iff_sample : ∃ F : Forest bumpObjects,
    F.k.cntPcb = 3 ∧ (F.k.TableBound ↔ 3 < MAX_PCB) := by
  obtain ⟨F, hF⟩ := Option.isSome_iff_exists.1 oneFork_returns
  obtain ⟨k₀, hinit, hrun⟩ := Option.bind_eq_some_iff.1 hF
  obtain ⟨hcount, -, -, hbound⟩ := process_table_bound_iff (Res.toOption_eq_some.1 hinit) hrun
  exact ⟨F, hcount, hbound⟩

/-! ## A run that fills the table -/

section Supply

variable {α β : Type} {n m : Nat}

/-- `bumpObjects` has room for `n` more objects as large as a page table. -/
def Roomy (n heap : Nat) : Prop := 0 < heap ∧ heap + n * PTE_L1SIZE < 4294967296

/-- The call does not run out of memory, and leaves room for `n` objects. -/
structure Supplied (n : Nat) (heap : α → Nat) (r : Res α) : Prop where
  supplied : r ≠ .error .spin
  left : ∀ a, r = .ok a → Roomy n (heap a)

theorem bump_alloc {size heap : Nat} (h : Roomy (n + 1) heap) (hsize : size ≤ PTE_L1SIZE) :
    bumpObjects.slbAlloc heap size = .ok (heap, heap + max size 1) ∧
      Roomy n (heap + max size 1) := by
  obtain ⟨hpos, hle⟩ := h
  rw [Nat.add_mul, Nat.one_mul] at hle
  have hone : 1 ≤ PTE_L1SIZE := by decide
  exact ⟨if_pos ⟨hpos, by omega⟩, by omega, by omega⟩

theorem bump_error {heap size : Nat} {e : Halt}
    (h : bumpObjects.slbAlloc heap size = .error e) : e = .spin := by
  change (if 0 < heap ∧ heap < 4294967296 then .ok (heap, heap + max size 1) else .error .spin :
    Res (Nat × Nat)) = .error e at h
  split at h
  · exact absurd h (by simp)
  · exact (Except.error.inj h).symm

namespace Supplied

variable {heap : α → Nat} {heap' : β → Nat}

theorem ok {a : α} (h : Roomy n (heap a)) : Supplied n heap (.ok a) := by
  refine ⟨by simp, fun b hb => ?_⟩
  obtain rfl := Except.ok.inj hb
  exact h

theorem bind {x : Res α} {f : α → Res β} (hx : Supplied n heap x)
    (hf : ∀ a, Roomy n (heap a) → Supplied m heap' (f a)) : Supplied m heap' (x >>= f) := by
  cases hrun : x with
  | error e =>
      refine ⟨fun hspin => hx.supplied (hrun.trans ?_), fun b hb => absurd hb (by simp [Bind.bind, Except.bind])⟩
      exact congrArg Except.error (Except.error.inj hspin)
  | ok a => exact hf a (hx.left a hrun)

theorem step {x : Res α} {f : α → Res β} (hx : x ≠ .error .spin)
    (hf : ∀ a, Supplied m heap' (f a)) : Supplied m heap' (x >>= f) := by
  cases hrun : x with
  | error e =>
      refine ⟨fun hspin => hx (hrun.trans ?_), fun b hb => absurd hb (by simp [Bind.bind, Except.bind])⟩
      exact congrArg Except.error (Except.error.inj hspin)
  | ok a => exact hf a

end Supplied

theorem deref_ne_spin (p : Option α) : deref p ≠ .error .spin := by
  cases p <;> simp [deref]

theorem ofFuel_ne_spin (p : Option α) : Res.ofFuel p ≠ .error .spin := by
  cases p <;> simp

variable {s : SchedState bumpObjects} {k : Kernel bumpObjects}

theorem queuePush_supplied (h : Roomy (n + 1) s.heap) (q : ProcStatus) (task : Nat) :
    Supplied n SchedState.heap (queuePush s q task) := by
  obtain ⟨halloc, hroom⟩ := bump_alloc h (by decide : SIZEOF_QUEUE_ELEMENT ≤ PTE_L1SIZE)
  unfold queuePush
  rw [halloc, Res.ok_bind]
  dsimp only
  split
  · exact .ok hroom
  · exact .step (deref_ne_spin _) fun tail => .ok hroom

theorem queueUnlink_supplied (h : Roomy n s.heap) (q : ProcStatus) (task : Nat)
    (last : Option Nat) (p : Nat) : Supplied n SchedState.heap (queueUnlink s q task last p) := by
  unfold queueUnlink
  refine .step (deref_ne_spin _) fun head => .step (deref_ne_spin _) fun tail => .ok ?_
  cases last <;> dsimp only <;> split <;> split <;> exact h

theorem queuePop_supplied (h : Roomy n s.heap) (q : ProcStatus) (task : Nat) :
    Supplied n SchedState.heap (queuePop s q task) := by
  unfold queuePop
  refine .step (ofFuel_ne_spin _) fun found => ?_
  obtain ⟨last, found⟩ := found
  cases found with
  | none => exact .ok h
  | some p => exact queueUnlink_supplied h q task last p

theorem schedMove_supplied (h : Roomy (n + 1) s.heap) (src dst : ProcStatus) (task : Nat) :
    Supplied n SchedState.heap (schedMove src dst s task) := by
  unfold schedMove
  refine (queuePop_supplied h src task).bind fun s₁ h₁ => ?_
  exact (queuePush_supplied h₁ dst task).bind fun s₂ h₂ => .ok h₂

theorem schedNew_supplied (h : Roomy (n + 1) s.heap) (task : Nat) :
    Supplied n SchedState.heap (schedNew s task) := by
  unfold schedNew
  exact (queuePush_supplied h .NEW task).bind fun s₁ h₁ => .ok h₁

theorem newPcb_supplied (h : Roomy (n + 2) k.s.heap) :
    Supplied n (fun r => r.2.s.heap) (newPcb k) := by
  obtain ⟨halloc, hroom⟩ := bump_alloc h (by decide : SIZEOF_PCB ≤ PTE_L1SIZE)
  unfold newPcb
  rw [halloc, Res.ok_bind]
  dsimp only
  split
  · exact ⟨by simp, fun a ha => absurd ha (by simp)⟩
  · exact (schedNew_supplied hroom k.s.heap).bind fun s hs => .ok hs

theorem fork_supplied (h : Roomy (n + 4) k.s.heap) :
    Supplied n (fun k => k.s.heap) (fork k) := by
  have hrunning : ∀ s : SchedState bumpObjects, schedGetRunning s ≠ .error .spin := by
    intro s
    unfold schedGetRunning
    cases (s.queue .RUNNING).head <;> simp [deref, Bind.bind, Except.bind]
  unfold fork
  refine (newPcb_supplied (n := n + 2) h).bind fun r hr => ?_
  obtain ⟨c, k₁⟩ := r
  refine .step (hrunning _) fun p => ?_
  obtain ⟨halloc, hroom⟩ := bump_alloc hr (le_refl PTE_L1SIZE)
  dsimp only at halloc ⊢
  rw [show (k₁.setPcb c (k₁.pcb p)).s.heap = k₁.s.heap from rfl, halloc, Res.ok_bind]
  refine .step (hrunning _) fun running => ?_
  exact (schedMove_supplied (n := n) hroom .NEW .READY c).bind fun s hs => .ok hs

theorem fork_returns (h : k.Live L p) (hroom : k.cntPcb < MAX_PCB) (hheap : Roomy (n + 4) k.s.heap) :
    ∃ k', fork k = .ok k' ∧ k'.cntPcb = k.cntPcb + 1 ∧ Roomy n k'.s.heap := by
  have hsupplied := fork_supplied hheap
  rcases fork_spec h.settled h.running with (⟨m, size, e, -, halloc, herr⟩ | ⟨hfull, -⟩) | ⟨c, k', hok, -⟩
  · obtain rfl := bump_error halloc
    exact absurd herr hsupplied.supplied
  · exact absurd hroom (Nat.not_lt.2 hfull)
  · obtain ⟨c, henlisted⟩ := fork_enlists hok
    exact ⟨k', hok, henlisted.count, hsupplied.left k' hok⟩

/-- The entry of a program that calls `fork`. -/
def forkEntry : ForestEvent := .entry (.svc .fork .zero)

theorem forkEntry_returns {F : Forest bumpObjects} (h : F.k.Live L p) (hroom : F.k.cntPcb < MAX_PCB)
    (hheap : Roomy (n + 4) F.k.s.heap) : ∃ F' L' p', F.step forkEntry = some F' ∧ F'.k.Live L' p' ∧
      F'.k.cntPcb = F.k.cntPcb + 1 ∧ Roomy n F'.k.s.heap := by
  have hentered := (h.setContextSvc .zero).setCpu p .zero
  obtain ⟨k', hfork, hcount, hleft⟩ := fork_returns hentered hroom hheap
  obtain ⟨L', p', hlive⟩ := hentered.fork hfork
  refine ⟨⟨k', F.reaped⟩, L', p', ?_, hlive, hcount, hleft⟩
  have hstep : F.k.step (.svc .fork .zero) = some k' := by
    refine Res.toOption_eq_some.2 ?_
    unfold intEntSvc
    rw [(h.setContextSvc .zero).getRunning, Res.ok_bind]
    exact hfork
  unfold forkEntry Forest.step
  dsimp only
  rw [hstep]
  rfl

theorem forkEntries_return {F : Forest bumpObjects} (h : F.k.Live L p) (i : Nat)
    (hroom : F.k.cntPcb + i ≤ MAX_PCB) (hheap : Roomy (n + 4 * i) F.k.s.heap) :
    ∃ F', run Forest.step F (List.replicate i forkEntry) = some F' ∧
      F'.k.cntPcb = F.k.cntPcb + i ∧ Roomy n F'.k.s.heap := by
  induction i generalizing F L p with
  | zero => exact ⟨F, rfl, rfl, hheap⟩
  | succ i ih =>
      obtain ⟨F₁, L₁, p₁, hstep, hlive, hcount, hleft⟩ :=
        forkEntry_returns (n := n + 4 * i) h (by omega) hheap
      obtain ⟨F', hrun, hend, hheap'⟩ := ih hlive (by omega) hleft
      refine ⟨F', ?_, by omega, hheap'⟩
      rw [List.replicate_succ]
      exact run_cons.2 ⟨F₁, hstep, hrun⟩

end Supply

def heapTop (k : Kernel bumpObjects) : Nat := k.s.heap

theorem boot_heap : (initSched Kernel.blank.cleared).toOption.map heapTop = some 4360 := by
  decide +kernel

/-- The first process forks 4094 times; then the table is full, and the next `new_pcb` stores behind
its end. -/
theorem process_table_overrun : ∃ (k₀ : Kernel bumpObjects) (F : Forest bumpObjects),
    initSched Kernel.blank.cleared = .ok k₀ ∧
    run Forest.step ⟨k₀, []⟩ (List.replicate 4094 forkEntry) = some F ∧
    F.k.cntPcb = MAX_PCB ∧ newPcb F.k = .error .outOfBounds ∧ ¬ F.k.TableBound := by
  obtain ⟨k₀, hinit, hheap⟩ := Option.map_eq_some_iff.1 boot_heap
  have hinit := Res.toOption_eq_some.1 hinit
  obtain ⟨L, p, hlive⟩ := Kernel.initSched_live hinit
  have hcount₀ := (initSched_counted hinit).count
  have hroomy : Roomy (1 + 4 * 4094) (heapTop k₀) := by
    rw [hheap]
    unfold Roomy PTE_L1SIZE
    omega
  obtain ⟨F, hrun, hcount, hleft⟩ := @forkEntries_return _ _ 1 ⟨k₀, []⟩ hlive 4094
    (by dsimp only; rw [hcount₀]; decide) hroomy
  dsimp only at hcount
  rw [hcount₀] at hcount
  refine ⟨k₀, F, hinit, hrun, hcount, ?_, fun hbound => ?_⟩
  · obtain ⟨halloc, -⟩ := bump_alloc hleft (by decide : SIZEOF_PCB ≤ PTE_L1SIZE)
    unfold newPcb
    rw [halloc, Res.ok_bind]
    exact if_pos (Nat.le_of_eq hcount.symm)
  · obtain ⟨c, k', hok, -⟩ := hbound.refused (Nat.le_of_eq hcount.symm)
    exact newPcb_full (Nat.le_of_eq hcount.symm) _ hok

end Aimv6.Sched
