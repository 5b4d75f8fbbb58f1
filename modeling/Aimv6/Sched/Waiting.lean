import Aimv6.Sched.KernelEntries
import Aimv6.Support.Rota

/-! # How long a ready process waits

The running process and the ready ones behind it are a rota: the timer is its
tick, the child of a fork joins it at the end, and no other entry of the kernel
touches it. A ready process runs when the ticks have served those before it,
however many processes are made in the meantime.
-/

namespace Aimv6.Sched

open Support

variable {A : SlabObjects} {k k' : Kernel A} {L : Queues} {p : Nat}

/-- The running process and the ready ones, in the order in which they get the processor. -/
def Queues.rota (L : Queues) : List Nat := L .RUNNING ++ L .READY

def KernelEvent.isTimer : KernelEvent → Bool
  | .timer _ => true
  | .svc _ _ => false

namespace Kernel

/-- A kernel that is `Live`, with the rota of its queues. -/
def Rota (k : Kernel A) (l : List Nat) : Prop := ∃ L p, k.Live L p ∧ L.rota = l

theorem Live.rota_cons (h : k.Live L p) : L.rota = p :: L .READY := by
  unfold Queues.rota
  rw [h.running]
  rfl

theorem Live.rota_nodup (h : k.Live L p) : L.rota.Nodup := by
  rw [h.rota_cons]
  refine List.nodup_cons.2 ⟨fun hmem => ?_, h.settled.once.nodup .READY⟩
  exact h.settled.once.apart .RUNNING .READY (by decide) (Queues.mem_running h.running) hmem

theorem Rota.running_iff {l : List Nat} (h : k.Rota l) (t : Nat) :
    schedGetRunning k.s = .ok t ↔ l[0]? = some t := by
  obtain ⟨L, p, hlive, rfl⟩ := h
  rw [hlive.getRunning, hlive.rota_cons, List.getElem?_cons_zero]
  simp

theorem Rota.place_unique {l : List Nat} (h : k.Rota l) {i j t : Nat} (hi : l[i]? = some t)
    (hj : l[j]? = some t) : i = j := by
  obtain ⟨L, p, hlive, rfl⟩ := h
  have hlt := (List.getElem?_eq_some_iff.1 hi).1
  exact (List.getElem?_inj hlt hlive.rota_nodup).1 (hi.trans hj.symm)

theorem Live.timer_rota (h : k.Live L p) (hok : Sched.schedMain k = .ok k') :
    k'.Rota (RotaMove.tick.apply L.rota) := by
  obtain ⟨L', next, hset, hsw⟩ := schedMain_ok h.settled h.running hok
  refine ⟨L', next, ⟨hset, hsw.running, ?_⟩, ?_⟩
  · exact (hsw.others .ZOMBIE (by decide) (by decide)).trans h.no_zombie
  · rw [h.rota_cons, RotaMove.tick_apply]
    unfold Queues.rota
    rw [hsw.running]
    exact hsw.ready.symm

theorem Live.fork_rota (h : k.Live L p) (hok : Sched.fork k = .ok k') :
    ∃ c, k'.Rota ((RotaMove.join c).apply L.rota) := by
  obtain ⟨c, -, hset, -⟩ := fork_ok h.settled h.running hok
  refine ⟨c, L.put .READY c, p, ⟨hset, ?_, ?_⟩, ?_⟩
  · rw [Queues.put_of_ne (by decide)]
    exact h.running
  · rw [Queues.put_of_ne (by decide)]
    exact h.no_zombie
  · rw [RotaMove.join_apply]
    unfold Queues.rota
    rw [Queues.put_of_ne (by decide), Queues.put_self, List.append_assoc]

theorem Live.svc_rota (h : k.Live L p) {svcId : Svc} (hsvc : svcId ≠ .exit)
    (hok : Sched.intEntSvc k svcId = .ok k') :
    ∃ m : RotaMove Nat, m.isTick = false ∧ k'.Rota (m.apply L.rota) := by
  unfold Sched.intEntSvc at hok
  rw [h.getRunning, Res.ok_bind] at hok
  have henter := h.setCpu p k.contextSvc
  cases svcId with
  | fork =>
      obtain ⟨c, hc⟩ := henter.fork_rota hok
      exact ⟨.join c, rfl, hc⟩
  | wait => exact absurd hok henter.wait
  | getpid =>
      unfold Sched.syscall Sched.getpid at hok
      dsimp only at hok
      rw [henter.getRunning, Res.ok_bind] at hok
      obtain rfl := Except.ok.inj hok
      exact ⟨.rest, rfl, L, p, henter.setContextSvc _, rfl⟩
  | getppid =>
      unfold Sched.syscall Sched.getppid at hok
      dsimp only at hok
      rw [henter.getRunning, Res.ok_bind] at hok
      obtain rfl := Except.ok.inj hok
      exact ⟨.rest, rfl, L, p, henter.setContextSvc _, rfl⟩
  | exit => exact absurd rfl hsvc

/-- Every entry but one of `_exit` makes one move on the rota, and the timer is the tick. -/
theorem Rota.entry {l : List Nat} (h : k.Rota l) {e : KernelEvent} (he : ¬ IsExit e)
    (hstep : step k e = some k') :
    ∃ m : RotaMove Nat, m.isTick = e.isTimer ∧ k'.Rota (m.apply l) := by
  obtain ⟨L, p, hlive, rfl⟩ := h
  cases e with
  | timer regs =>
      have hirq := hlive.setContextIrq regs
      have hok : Sched.intEntIrq (k.setContextIrq regs) IRQ_TIMER = .ok k' :=
        Res.toOption_eq_some.1 hstep
      unfold Sched.intEntIrq at hok
      rw [hirq.getRunning, Res.ok_bind] at hok
      dsimp only at hok
      rw [if_pos rfl] at hok
      exact ⟨.tick, rfl, ((hirq.setCpu p _).setContextIrq _).timer_rota hok⟩
  | svc svcId regs =>
      apply (hlive.setContextSvc regs).svc_rota ?_ (Res.toOption_eq_some.1 hstep)
      rintro rfl
      exact he trivial

/-- A run without `_exit` makes moves on the rota with as many ticks as timer interrupts. -/
theorem Rota.entries {l : List Nat} (h : k.Rota l) {es : List KernelEvent}
    (hno : ∀ e ∈ es, ¬ IsExit e) (hrun : run step k es = some k') :
    ∃ ms : List (RotaMove Nat), ms.countP RotaMove.isTick = es.countP KernelEvent.isTimer ∧
      k'.Rota (ms.foldl RotaMove.apply l) := by
  induction es generalizing k l with
  | nil =>
      obtain rfl : k = k' := Option.some.inj hrun
      exact ⟨[], rfl, h⟩
  | cons e es ih =>
      obtain ⟨k₁, hstep, hrest⟩ := run_cons.1 hrun
      obtain ⟨m, hm, h₁⟩ := h.entry (hno e List.mem_cons_self) hstep
      obtain ⟨ms, hcount, h'⟩ := ih h₁ (fun e' he' => hno e' (List.mem_cons_of_mem e he')) hrest
      refine ⟨m :: ms, ?_, h'⟩
      rw [List.countP_cons, List.countP_cons, hcount, hm]

/-- Whoever stands behind `i` others has moved forward by one place for each timer interrupt. -/
theorem Rota.place {l : List Nat} (h : k.Rota l) {i t : Nat} (ht : l[i]? = some t)
    {es : List KernelEvent} (hno : ∀ e ∈ es, ¬ IsExit e) (hrun : run step k es = some k')
    (hticks : es.countP KernelEvent.isTimer ≤ i) :
    ∃ l', k'.Rota l' ∧ l'[i - es.countP KernelEvent.isTimer]? = some t := by
  obtain ⟨ms, hcount, h'⟩ := h.entries hno hrun
  refine ⟨_, h', ?_⟩
  rw [← hcount] at hticks ⊢
  exact RotaMove.place ht hticks

theorem Live.no_exit (h : k.Live L p) {es es' : List KernelEvent} {e : KernelEvent}
    (hrun : run step k (es ++ e :: es') = some k') : ∀ e ∈ es, ¬ IsExit e := by
  intro e₁ he₁ hexit
  obtain ⟨k₁, hrun₁, hrest⟩ := run_append.1 hrun
  obtain ⟨L₁, hrep, hnobody⟩ := h.entries_exit ⟨e₁, he₁, hexit⟩ hrun₁
  obtain ⟨k₂, hstep, -⟩ := run_cons.1 hrest
  rw [(step_of_nobody hrep hnobody e).1] at hstep
  exact absurd hstep (by simp)

/-- In the runs from `init_sched` a process with `i` ready ones before it gets the processor with
the `i + 1`st timer interrupt, and not before, whatever calls and forks come in between. -/
theorem ready_runs_in_turn {k₀ : Kernel A} {es es' : List KernelEvent} {i t : Nat}
    (hinit : initSched k.cleared = .ok k₀) {k₁ : Kernel A} (hrun : run step k₀ es = some k₁)
    (hrep : Represents ∅ k₁.s L) (ht : (L .READY)[i]? = some t)
    (hrun' : run step k₁ es' = some k') (hticks : i < es'.countP KernelEvent.isTimer) :
    ∃ es₁ regs es₂ k₂, es' = es₁ ++ .timer regs :: es₂ ∧ es₁.countP KernelEvent.isTimer = i ∧
      run step k₁ (es₁ ++ [KernelEvent.timer regs]) = some k₂ ∧ schedGetRunning k₂.s = .ok t ∧
      ∀ es₀ k₃, es₀ <+: es₁ → run step k₁ es₀ = some k₃ → schedGetRunning k₃.s ≠ .ok t := by
  obtain ⟨es₁, e, es₂, rfl, he, hcount⟩ := countP_split hticks
  obtain ⟨regs, rfl⟩ : ∃ regs, e = .timer regs := by
    cases e with
    | timer regs => exact ⟨regs, rfl⟩
    | svc svcId regs => simp [KernelEvent.isTimer] at he
  obtain ⟨L₀, p₀, h₀⟩ := initSched_live hinit
  have hall := run_append.2 ⟨k₁, hrun, hrun'⟩
  rw [← List.append_assoc] at hall
  have hno := h₀.no_exit hall
  have hno₁ : ∀ e ∈ es₁, ¬ IsExit e := fun e he => hno e (List.mem_append_right es he)
  -- the process stands behind the running one and those ready before it
  obtain ⟨L₁, p₁, h₁⟩ := h₀.entries (fun e he => hno e (List.mem_append_left es₁ he)) hrun
  obtain rfl : L₁ = L := (h₁.settled.queues.mono (Set.empty_subset _)).unique hrep
  have hrota : k₁.Rota L₁.rota := ⟨L₁, p₁, h₁, rfl⟩
  have hplace : L₁.rota[i + 1]? = some t := by
    rw [h₁.rota_cons, List.getElem?_cons_succ]
    exact ht
  obtain ⟨k₂, hrun₁, hrest⟩ := run_append.1 hrun'
  obtain ⟨k₃, hstep, -⟩ := run_cons.1 hrest
  refine ⟨es₁, regs, es₂, k₃, rfl, hcount, run_concat.2 ⟨k₂, hrun₁, hstep⟩, ?_, ?_⟩
  · have hticked : (es₁ ++ [KernelEvent.timer regs]).countP KernelEvent.isTimer = i + 1 := by
      rw [List.countP_append, hcount]
      rfl
    have hno₂ : ∀ e ∈ es₁ ++ [KernelEvent.timer regs], ¬ IsExit e := by
      intro e he
      rcases List.mem_append.1 he with he | he
      · exact hno₁ e he
      · rw [List.mem_singleton.1 he]
        exact id
    obtain ⟨l', h', ht'⟩ := hrota.place hplace hno₂ (run_concat.2 ⟨k₂, hrun₁, hstep⟩) hticked.le
    rw [hticked, Nat.sub_self] at ht'
    exact (h'.running_iff t).2 ht'
  · intro es₀ k₄ hearly hrun₀ hgets
    have hle : es₀.countP KernelEvent.isTimer ≤ i := hcount ▸ hearly.sublist.countP_le
    obtain ⟨l', h', ht'⟩ := hrota.place hplace (fun e he => hno₁ e (hearly.subset he)) hrun₀
      (Nat.le_succ_of_le hle)
    have hzero := h'.place_unique ht' ((h'.running_iff t).1 hgets)
    omega

/-- Behind two forks the first ready process is another than the last, and the timer, a call and
the timer come back. -/
theorem forked_returns : ((initSched blank.cleared).toOption.bind fun k₀ =>
    (run step k₀ [KernelEvent.svc .fork .zero, KernelEvent.svc .fork .zero]).bind fun k₁ =>
      (run step k₁ [KernelEvent.timer .zero, KernelEvent.svc .fork .zero,
        KernelEvent.timer .zero]).map fun _ =>
          (k₁.s.queue .READY).head.map (fun p => (k₁.s.element p).pcb) !=
            (k₁.s.queue .READY).tail.map fun p => (k₁.s.element p).pcb) = some true := by
  decide +kernel

/-- The process behind the first ready one, over a fork by that one. -/
theorem ready_runs_in_turn_sample : ∃ (k₁ k₂ : Kernel bumpObjects) (t : Nat)
    (es₁ es₂ : List KernelEvent) (regs : ContextCpu),
    [KernelEvent.timer .zero, KernelEvent.svc .fork .zero, KernelEvent.timer .zero] =
        es₁ ++ .timer regs :: es₂ ∧ es₁.countP KernelEvent.isTimer = 1 ∧
      run step k₁ (es₁ ++ [KernelEvent.timer regs]) = some k₂ ∧ schedGetRunning k₂.s = .ok t := by
  obtain ⟨k₀, hinit, hrest⟩ := Option.bind_eq_some_iff.1 forked_returns
  obtain ⟨k₁, hrun, hrest⟩ := Option.bind_eq_some_iff.1 hrest
  obtain ⟨k', hrun', hends⟩ := Option.map_eq_some_iff.1 hrest
  have hinit := Res.toOption_eq_some.1 hinit
  obtain ⟨L₀, p₀, h₀⟩ := initSched_live hinit
  obtain ⟨L, p, h⟩ := h₀.entries (by simp [IsExit]) hrun
  have hqueues := h.settled.queues
  obtain ⟨t, ht⟩ : ∃ t, (L .READY)[1]? = some t := by
    rw [hqueues.head_eq, hqueues.tail_eq] at hends
    cases hready : L .READY with
    | nil =>
        rw [hready] at hends
        exact absurd hends (by decide)
    | cons a rest =>
        cases rest with
        | nil =>
            rw [hready] at hends
            exact absurd rfl (bne_iff_ne.1 hends)
        | cons t rest => exact ⟨t, rfl⟩
  obtain ⟨es₁, regs, es₂, k₂, hes, hcount, hturn, hgets, -⟩ := ready_runs_in_turn hinit hrun
    (hqueues.mono (Set.empty_subset _)) ht hrun' (by decide)
  exact ⟨k₁, k₂, t, es₁, es₂, regs, hes, hcount, hturn, hgets⟩

end Kernel

end Aimv6.Sched
