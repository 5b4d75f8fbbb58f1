import Aimv6.Sched.NewProcess
import Aimv6.Sched.WaitExit
import Aimv6.Support.Runs

/-! # Kernel entries

Every entry of the kernel asks for the running process first. The running queue
holds one process until a process exits: `_exit` takes the caller out and picks
nobody else.
-/

namespace Aimv6.Sched

open Support

variable {A : SlabObjects} {k k' : Kernel A} {L L' : Queues} {p : Nat}

/-- What makes the processor enter the kernel, with the registers the stub has stored. -/
inductive KernelEvent where
  | timer (regs : ContextCpu)
  | svc (svcId : Svc) (regs : ContextCpu)

namespace Kernel

def step (k : Kernel A) : KernelEvent → Option (Kernel A)
  | .timer regs => (intEntIrq (k.setContextIrq regs) IRQ_TIMER).toOption
  | .svc svcId regs => (intEntSvc (k.setContextSvc regs) svcId).toOption

/-- The globals as the kernel is loaded: the queue pointers and `cnt_pcb` are zero. -/
def cleared (k : Kernel A) : Kernel A := { k with s := initRr k.s, cntPcb := 0 }

/-- What an entry of the kernel finds: one running process, and no process twice. -/
def OneRunning (k : Kernel A) : Prop :=
  ∃ L p, Represents ∅ k.s L ∧ L .RUNNING = [p] ∧ L.Once ∧ schedGetRunning k.s = .ok p

/-- Between two entries, as long as nobody has exited. -/
structure Live (k : Kernel A) (L : Queues) (p : Nat) : Prop where
  settled : Settled k.s L
  running : L .RUNNING = [p]
  no_zombie : L .ZOMBIE = []

theorem Live.getRunning (h : k.Live L p) : schedGetRunning k.s = .ok p := by
  exact h.settled.queues.getRunning_eq h.running

theorem Live.oneRunning (h : k.Live L p) : k.OneRunning :=
  ⟨L, p, h.settled.queues.mono (Set.empty_subset _), h.running, h.settled.once, h.getRunning⟩

theorem Live.setContextIrq (h : k.Live L p) (v : ContextCpu) : (k.setContextIrq v).Live L p :=
  ⟨h.settled, h.running, h.no_zombie⟩

theorem Live.setContextSvc (h : k.Live L p) (v : ContextCpu) : (k.setContextSvc v).Live L p :=
  ⟨h.settled, h.running, h.no_zombie⟩

theorem Live.setCpu (h : k.Live L p) (task : Nat) (v : ContextCpu) : (k.setCpu task v).Live L p :=
  ⟨h.settled.setCpu task v, h.running, h.no_zombie⟩

theorem Live.schedMain (h : k.Live L p) (hok : schedMain k = .ok k') : ∃ L' p', k'.Live L' p' := by
  obtain ⟨L', next, hset, hsw⟩ := schedMain_ok h.settled h.running hok
  exact ⟨L', next, hset, hsw.running, (hsw.others .ZOMBIE (by decide) (by decide)).trans h.no_zombie⟩

theorem Live.fork (h : k.Live L p) (hok : fork k = .ok k') : ∃ L' p', k'.Live L' p' := by
  obtain ⟨c, -, hset, -⟩ := fork_ok h.settled h.running hok
  refine ⟨_, p, hset, ?_, ?_⟩
  · rw [Queues.put_of_ne (by decide)]
    exact h.running
  · rw [Queues.put_of_ne (by decide)]
    exact h.no_zombie

theorem Live.wait (h : k.Live L p) : wait k ≠ .ok k' := by
  apply wait_none h.settled h.running
  rintro c ⟨hc, -⟩
  rw [h.no_zombie] at hc
  exact absurd hc List.not_mem_nil

theorem Live.exit (h : k.Live L p) (hok : exit k = .ok k') :
    ∃ L', Represents ∅ k'.s L' ∧ L' .RUNNING = [] := by
  obtain ⟨f, hset, -⟩ := exit_ok h.settled h.running hok
  exact ⟨_, hset.queues.mono (Set.empty_subset _), Queues.exit_running h.running f⟩

theorem Live.intEntIrq (h : k.Live L p) {irqId : Nat} (hok : intEntIrq k irqId = .ok k') :
    ∃ L' p', k'.Live L' p' := by
  unfold Sched.intEntIrq at hok
  rw [h.getRunning, Res.ok_bind] at hok
  have henter := (h.setCpu p k.contextIrq).setContextIrq
  dsimp only at hok
  split at hok
  · exact (henter _).schedMain hok
  · obtain rfl := Except.ok.inj hok
    exact ⟨L, p, henter _⟩

theorem Live.intEntSvc (h : k.Live L p) {svcId : Svc} (hsvc : svcId ≠ .exit)
    (hok : intEntSvc k svcId = .ok k') : ∃ L' p', k'.Live L' p' := by
  unfold Sched.intEntSvc at hok
  rw [h.getRunning, Res.ok_bind] at hok
  have henter := h.setCpu p k.contextSvc
  cases svcId with
  | fork => exact henter.fork hok
  | wait => exact absurd hok henter.wait
  | getpid =>
      unfold Sched.syscall Sched.getpid at hok
      dsimp only at hok
      rw [henter.getRunning, Res.ok_bind] at hok
      obtain rfl := Except.ok.inj hok
      exact ⟨L, p, henter.setContextSvc _⟩
  | getppid =>
      unfold Sched.syscall Sched.getppid at hok
      dsimp only at hok
      rw [henter.getRunning, Res.ok_bind] at hok
      obtain rfl := Except.ok.inj hok
      exact ⟨L, p, henter.setContextSvc _⟩
  | exit => exact absurd rfl hsvc

/-- The calls of `_exit`. -/
def IsExit : KernelEvent → Prop
  | .svc .exit _ => True
  | _ => False

theorem Live.entry (h : k.Live L p) {e : KernelEvent} (he : ¬ IsExit e) (hstep : step k e = some k') :
    ∃ L' p', k'.Live L' p' := by
  cases e with
  | timer regs => exact (h.setContextIrq regs).intEntIrq (Res.toOption_eq_some.1 hstep)
  | svc svcId regs =>
      refine (h.setContextSvc regs).intEntSvc ?_ (Res.toOption_eq_some.1 hstep)
      rintro rfl
      exact he trivial

theorem Live.entry_exit (h : k.Live L p) {regs : ContextCpu}
    (hstep : step k (.svc .exit regs) = some k') :
    ∃ L', Represents ∅ k'.s L' ∧ L' .RUNNING = [] := by
  have hok : Sched.intEntSvc (k.setContextSvc regs) .exit = .ok k' := Res.toOption_eq_some.1 hstep
  unfold Sched.intEntSvc at hok
  rw [(h.setContextSvc regs).getRunning, Res.ok_bind] at hok
  exact ((h.setContextSvc regs).setCpu p _).exit hok

theorem step_of_nobody (h : Represents ∅ k.s L) (hrun : L .RUNNING = []) (e : KernelEvent) :
    step k e = none ∧ ¬ k.OneRunning := by
  have hget : schedGetRunning k.s = .error .nullDeref := by
    rw [h.getRunning, hrun]
    rfl
  constructor
  · cases e with
    | timer regs =>
        unfold step Sched.intEntIrq
        dsimp only
        rw [show schedGetRunning (k.setContextIrq regs).s = .error .nullDeref from hget]
        rfl
    | svc svcId regs =>
        unfold step Sched.intEntSvc
        dsimp only
        rw [show schedGetRunning (k.setContextSvc regs).s = .error .nullDeref from hget]
        rfl
  · rintro ⟨L', p, -, -, -, hget'⟩
    rw [hget] at hget'
    exact absurd hget' (by simp)

theorem Live.entries (h : k.Live L p) {es : List KernelEvent} (hno : ∀ e ∈ es, ¬ IsExit e)
    (hrun : run step k es = some k') : ∃ L' p', k'.Live L' p' := by
  refine @run_invariant_of _ _ step (fun k => ∃ L p, k.Live L p) (fun e => ¬ IsExit e) ?_ _ _ _ hno
    ⟨L, p, h⟩ hrun
  rintro k e k' he ⟨L, p, hk⟩ hstep
  exact hk.entry he hstep

theorem Live.entries_exit (h : k.Live L p) {es : List KernelEvent} (hexit : ∃ e ∈ es, IsExit e)
    (hrun : run step k es = some k') : ∃ L', Represents ∅ k'.s L' ∧ L' .RUNNING = [] := by
  induction es generalizing k L p with
  | nil =>
      obtain ⟨e, he, -⟩ := hexit
      exact absurd he List.not_mem_nil
  | cons e es ih =>
      obtain ⟨k₁, hstep, hrest⟩ := run_cons.1 hrun
      by_cases he : IsExit e
      · cases e with
        | timer regs => exact absurd he id
        | svc svcId regs =>
            obtain rfl : svcId = .exit := by
              cases svcId <;> first | rfl | exact absurd he id
            obtain ⟨L₁, hrep, hnobody⟩ := h.entry_exit hstep
            cases es with
            | nil =>
                obtain rfl : k₁ = k' := Option.some.inj hrest
                exact ⟨L₁, hrep, hnobody⟩
            | cons e' es =>
                obtain ⟨k₂, hstep', -⟩ := run_cons.1 hrest
                rw [(step_of_nobody hrep hnobody e').1] at hstep'
                exact absurd hstep' (by simp)
      · obtain ⟨L₁, p₁, h₁⟩ := h.entry he hstep
        apply ih h₁ ?_ hrest
        obtain ⟨e', hmem, he'⟩ := hexit
        rcases List.mem_cons.1 hmem with rfl | hmem
        · exact absurd he' he
        · exact ⟨e', hmem, he'⟩

theorem cleared_settled (k : Kernel A) : Settled k.cleared.s Queues.none := by
  refine ⟨(represents_initRr k.s).mono ?_, ⟨fun _ => List.nodup_nil, ?_⟩, ?_⟩
  · rintro t ⟨q, ht⟩
    exact absurd ht List.not_mem_nil
  · exact fun _ _ _ _ ht => absurd ht List.not_mem_nil
  · exact fun _ _ ht => absurd ht List.not_mem_nil

theorem initSched_live {k₀ : Kernel A} (hinit : initSched k.cleared = .ok k₀) :
    ∃ L p, k₀.Live L p := by
  obtain ⟨c, d, -, hset, -⟩ := initSched_ok k.cleared_settled hinit
  exact ⟨_, c, hset, Queues.booted_running c d, rfl⟩

/-- In the runs of timer interrupts and process calls from `init_sched` the kernel is entered with
exactly one running process as long as no call of `_exit` has come back, and with none from the
first one on. -/
theorem one_running_iff {k₀ : Kernel A} {es : List KernelEvent} (hinit : initSched k.cleared = .ok k₀)
    (hrun : run step k₀ es = some k') : k'.OneRunning ↔ ∀ e ∈ es, ¬ IsExit e := by
  obtain ⟨L, p, hlive⟩ := initSched_live hinit
  constructor
  · intro hone e he hexit
    obtain ⟨L', hrep, hnobody⟩ := hlive.entries_exit ⟨e, he, hexit⟩ hrun
    exact (step_of_nobody hrep hnobody e).2 hone
  · intro hno
    obtain ⟨L', p', h'⟩ := hlive.entries hno hrun
    exact h'.oneRunning

theorem exit_returns : ((initSched blank.cleared).toOption.bind fun k₀ =>
    (run step k₀ [.svc .exit .zero]).map fun k' => (k'.s.queue .RUNNING).head) = some none := by
  decide +kernel

/-- The first process exits; the next entry of the kernel follows a null pointer. -/
theorem one_running_fails : ∃ k₀ k' : Kernel bumpObjects, initSched blank.cleared = .ok k₀ ∧
    run step k₀ [.svc .exit .zero] = some k' ∧ schedGetRunning k'.s = .error .nullDeref := by
  obtain ⟨k₀, hinit, hrest⟩ := Option.bind_eq_some_iff.1 exit_returns
  obtain ⟨k', hrun, hhead⟩ := Option.map_eq_some_iff.1 hrest
  refine ⟨k₀, k', Res.toOption_eq_some.1 hinit, hrun, ?_⟩
  unfold schedGetRunning
  rw [hhead]
  rfl

def sampleRun : List KernelEvent :=
  [.svc .fork .zero, .timer .zero, .svc .fork .zero, .svc .getppid .zero, .timer .zero]

theorem sampleRun_returns : ((initSched blank.cleared).toOption.bind fun k₀ =>
    run step k₀ sampleRun).isSome = true := by
  decide +kernel

theorem one_running_iff_sample : ∃ k' : Kernel bumpObjects,
    k'.OneRunning ↔ ∀ e ∈ sampleRun, ¬ IsExit e := by
  obtain ⟨k', hk'⟩ := Option.isSome_iff_exists.1 sampleRun_returns
  obtain ⟨k₀, hinit, hrun⟩ := Option.bind_eq_some_iff.1 hk'
  exact ⟨k', one_running_iff (Res.toOption_eq_some.1 hinit) hrun⟩

end Kernel

end Aimv6.Sched
