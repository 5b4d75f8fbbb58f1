import Aimv6.Sched.Queues
import Aimv6.Support.Runs

/-! # Runs of the scheduling policy

The life cycle of `policy_rr.h`: each operation is called for a process in its
source status. Along every such run a process that was entered and not freed is
in the queue its status names, and nowhere else.
-/

namespace Aimv6.Sched

open Support

variable {A : SlabObjects} {T : Set Nat} {s s' : SchedState A} {L : Queues}

inductive SchedCall where
  | new
  | mature
  | allow
  | block
  | preempt
  | wake
  | finish
  | kill
  | free
deriving DecidableEq, Repr

namespace SchedCall

def call : SchedCall → SchedState A → Nat → Res (SchedState A)
  | .new => schedNew
  | .mature => schedMature
  | .allow => schedAllow
  | .block => schedBlock
  | .preempt => schedPreempt
  | .wake => schedWake
  | .finish => schedFinish
  | .kill => schedKill
  | .free => schedFree

/-- The statuses from which the life cycle has the call. `sched_new` is for a process that is in
no queue. -/
def sources : SchedCall → List ProcStatus
  | .new => []
  | .mature => [.NEW]
  | .allow => [.READY]
  | .block => [.RUNNING]
  | .preempt => [.RUNNING]
  | .wake => [.WAIT]
  | .finish => [.RUNNING]
  | .kill => [.NEW, .READY, .RUNNING, .WAIT]
  | .free => [.ZOMBIE]

def target : SchedCall → Option ProcStatus
  | .new => some .NEW
  | .mature => some .READY
  | .allow => some .RUNNING
  | .block => some .WAIT
  | .preempt => some .READY
  | .wake => some .READY
  | .finish => some .ZOMBIE
  | .kill => some .ABORT
  | .free => none

/-- The process leaves its queue and goes behind all others of the target. -/
def after (c : SchedCall) (L : Queues) (task : Nat) : Queues :=
  match c.target with
  | some q => (L.take task).put q task
  | none => L.take task

/-- The call finds the process where the life cycle has it. -/
def Source (c : SchedCall) (L : Queues) (task : Nat) : Prop :=
  if c = .new then ∀ q, task ∉ L q else ∃ q ∈ c.sources, task ∈ L q

end SchedCall

/-- On a process in one of its four sources `sched_kill` is a move to `queue_abort`. -/
theorem schedKill_eq {task : Nat} {q : ProcStatus} (hstatus : (s.pcb task).status = q)
    (hq : q ∈ SchedCall.kill.sources) : schedKill s task = schedMove q .ABORT s task := by
  unfold schedKill schedMove
  rw [hstatus]
  cases q with
  | NEW => rfl
  | READY => rfl
  | RUNNING => rfl
  | WAIT => rfl
  | ZOMBIE => exact absurd hq (by decide)
  | ABORT => exact absurd hq (by decide)

/-- On a process in a source status every call but `sched_free` is a move. -/
theorem SchedCall.call_eq_move {c : SchedCall} {task : Nat}
    (hsource : (s.pcb task).status ∈ c.sources) (hfree : c ≠ .free) : ∃ dst,
      c.target = some dst ∧ c.call s task = schedMove (s.pcb task).status dst s task := by
  cases c with
  | new => exact absurd hsource List.not_mem_nil
  | free => exact absurd rfl hfree
  | kill => exact ⟨.ABORT, rfl, schedKill_eq rfl hsource⟩
  | mature | allow | block | preempt | wake | finish =>
      rw [List.mem_singleton.1 hsource]
      exact ⟨_, rfl, rfl⟩

theorem SchedCall.allow_of_target {c : SchedCall} (h : c.target = some .RUNNING) : c = .allow := by
  cases c with
  | allow => rfl
  | new | mature | block | preempt | wake | finish | kill | free => exact absurd h (by decide)

theorem SchedCall.call_spec (h : Represents T s L) (hL : L.Once)
    (hstatus : ∀ q, ∀ t ∈ L q, (s.pcb t).status = q) {c : SchedCall} {task : Nat}
    (hsource : c.Source L task) :
    OutOfMemory A s.heap (c.call s task) ∨
      ∃ s', c.call s task = .ok s' ∧ Represents T s' (c.after L task) ∧
        ∀ t, (s'.pcb t).status = if t = task then c.target.getD (s.pcb t).status
          else (s.pcb t).status := by
  have hmove : ∀ src dst, task ∈ L src → c.target = some dst →
      c.call s task = schedMove src dst s task → OutOfMemory A s.heap (c.call s task) ∨
      ∃ s', c.call s task = .ok s' ∧ Represents T s' (c.after L task) ∧
        ∀ t, (s'.pcb t).status = if t = task then c.target.getD (s.pcb t).status
          else (s.pcb t).status := by
    intro src dst hsrc htarget hcall
    unfold SchedCall.after
    rw [hcall, htarget]
    rcases schedMove_spec h hL dst hsrc with hfail | ⟨s', hok, hrep, hpcb⟩
    · exact Or.inl hfail
    · refine Or.inr ⟨s', hok, hrep, fun t => ?_⟩
      rw [hpcb]
      by_cases ht : t = task
      · rw [ht, Function.update_self, if_pos rfl]
        rfl
      · rw [Function.update_of_ne ht, if_neg ht]
  cases c with
  | new =>
      have hnew : ∀ q, task ∉ L q := hsource
      unfold SchedCall.after SchedCall.call schedNew SchedCall.target
      dsimp only
      rw [Queues.take_of_not_mem hnew]
      rcases queuePush_spec h .NEW task with hfail | ⟨s', hok, hrep, hpcb⟩
      · exact Or.inl (hfail.bind _)
      · right
        rw [hok, Res.ok_bind]
        refine ⟨_, rfl, hrep.setStatus task .NEW, fun t => ?_⟩
        unfold SchedState.setStatus SchedState.setPcb
        dsimp only
        rw [hpcb]
        by_cases ht : t = task
        · rw [ht, Function.update_self, if_pos rfl]
          rfl
        · rw [Function.update_of_ne ht, if_neg ht]
  | free =>
      obtain ⟨q, hq, hmem⟩ : ∃ q ∈ SchedCall.free.sources, task ∈ L q := hsource
      obtain rfl : q = .ZOMBIE := by simpa [sources] using hq
      obtain ⟨s', hok, hrep, hpcb⟩ := queuePop_spec h .ZOMBIE task (hL.nodup _)
      rw [Queues.update_take fun q hq hq' => hL.apart q .ZOMBIE hq hq' hmem] at hrep
      refine Or.inr ⟨s', hok, hrep, fun t => ?_⟩
      rw [hpcb]
      split <;> rfl
  | mature | allow | block | preempt | wake | finish | kill =>
      obtain ⟨q, hq, hmem⟩ : ∃ q ∈ SchedCall.sources _, task ∈ L q := hsource
      rw [← hstatus q task hmem] at hq hmem
      obtain ⟨dst, htarget, hcall⟩ := SchedCall.call_eq_move hq (by decide)
      exact hmove _ dst hmem htarget hcall

/-- The scheduler and the processes entered and not yet freed. -/
structure SchedSystem (A : SlabObjects) where
  s : SchedState A
  entered : List Nat

namespace SchedSystem

/-- The call is made on a process in the source status the life cycle gives it. -/
def Allowed (S : SchedSystem A) (c : SchedCall) (task : Nat) : Prop :=
  if c = .new then task ∉ S.entered
  else task ∈ S.entered ∧ (S.s.pcb task).status ∈ c.sources

instance (S : SchedSystem A) (c : SchedCall) (task : Nat) : Decidable (S.Allowed c task) :=
  inferInstanceAs (Decidable (if c = .new then task ∉ S.entered
    else task ∈ S.entered ∧ (S.s.pcb task).status ∈ c.sources))

def record (entered : List Nat) (task : Nat) : SchedCall → List Nat
  | .new => task :: entered
  | .free => entered.erase task
  | _ => entered

def step (S : SchedSystem A) (e : SchedCall × Nat) : Option (SchedSystem A) :=
  if S.Allowed e.1 e.2 then
    (e.1.call S.s e.2).toOption.map fun s => ⟨s, record S.entered e.2 e.1⟩
  else none

/-- `init_rr()` -/
def init (s : SchedState A) : SchedSystem A := ⟨initRr s, []⟩

/-- The queues hold the processes `L`, each entered one in the queue its status names. -/
structure Queued (S : SchedSystem A) (L : Queues) : Prop where
  /-- each queue is a chain of elements from `head`, and `tail` designates the last one -/
  queues : Represents ∅ S.s L
  empty : ∀ q, L q = [] → (S.s.queue q).head = none ∧ (S.s.queue q).tail = none
  once : ∀ t ∈ S.entered, ∀ q, (L q).count t = if q = (S.s.pcb t).status then 1 else 0
  freed : ∀ t, t ∉ S.entered → ∀ q, t ∉ L q

structure Inv (S : SchedSystem A) (L : Queues) : Prop where
  queues : Represents ∅ S.s L
  once : L.Once
  status : ∀ q, ∀ t ∈ L q, (S.s.pcb t).status = q
  entered : ∀ t, t ∈ S.entered ↔ ∃ q, t ∈ L q
  nodup : S.entered.Nodup

theorem Inv.queued {S : SchedSystem A} (h : S.Inv L) : S.Queued L := by
  refine ⟨h.queues, fun q hq => ?_, fun t ht q => ?_, fun t ht q hmem => ht ((h.entered t).2 ⟨q, hmem⟩)⟩
  · have hhead := h.queues.head_eq q
    have htail := h.queues.tail_eq q
    rw [hq] at hhead htail
    exact ⟨Option.map_eq_none_iff.1 hhead, Option.map_eq_none_iff.1 htail⟩
  · obtain ⟨q', hmem⟩ := (h.entered t).1 ht
    rw [h.status q' t hmem]
    by_cases hq : q = q'
    · rw [hq, if_pos rfl]
      exact List.count_eq_one_of_mem (h.once.nodup q') hmem
    · rw [if_neg hq]
      exact List.count_eq_zero_of_not_mem fun hmem' => h.once.apart q q' hq hmem' hmem

theorem Inv.source {S : SchedSystem A} (h : S.Inv L) {c : SchedCall} {task : Nat}
    (hallowed : S.Allowed c task) : c.Source L task := by
  unfold Allowed at hallowed
  unfold SchedCall.Source
  by_cases hc : c = .new
  · rw [if_pos hc] at hallowed ⊢
    exact fun q hmem => hallowed ((h.entered task).2 ⟨q, hmem⟩)
  · rw [if_neg hc] at hallowed ⊢
    obtain ⟨q, hmem⟩ := (h.entered task).1 hallowed.1
    exact ⟨q, h.status q task hmem ▸ hallowed.2, hmem⟩

theorem mem_record {entered : List Nat} (hn : entered.Nodup) {c : SchedCall} {task : Nat}
    (hin : c ≠ .new → task ∈ entered) (t : Nat) :
    t ∈ record entered task c ↔ if t = task then c.target ≠ none else t ∈ entered := by
  cases c with
  | new =>
      by_cases ht : t = task
      · simp [record, ht, SchedCall.target]
      · simp [record, ht]
  | free =>
      unfold record
      rw [hn.mem_erase_iff]
      by_cases ht : t = task
      · simp [ht, SchedCall.target]
      · simp [ht]
  | mature | allow | block | preempt | wake | finish | kill =>
      have hmem := hin (by simp)
      by_cases ht : t = task
      · simp [record, ht, hmem, SchedCall.target]
      · simp [record, ht]

theorem mem_after (hL : L.Once) {c : SchedCall} {task t : Nat} {q : ProcStatus} :
    t ∈ c.after L task q ↔ if t = task then c.target = some q else t ∈ L q := by
  unfold SchedCall.after
  cases c.target with
  | none =>
      dsimp only
      rw [Queues.mem_take hL]
      by_cases ht : t = task <;> simp [ht]
  | some q' =>
      dsimp only
      rw [Queues.mem_put, Queues.mem_take hL]
      by_cases ht : t = task
      · simp [ht, eq_comm]
      · simp [ht]

theorem Inv.call {S : SchedSystem A} (h : S.Inv L) {c : SchedCall} {task : Nat}
    (hallowed : S.Allowed c task) :
    OutOfMemory A S.s.heap (c.call S.s task) ∨
      ∃ S', step S (c, task) = some S' ∧ S'.Inv (c.after L task) := by
  have hin : c ≠ .new → task ∈ S.entered := by
    intro hc
    unfold Allowed at hallowed
    rw [if_neg hc] at hallowed
    exact hallowed.1
  rcases SchedCall.call_spec h.queues h.once h.status (h.source hallowed) with
    hfail | ⟨s', hok, hrep, hstatus⟩
  · exact Or.inl hfail
  · right
    refine ⟨⟨s', record S.entered task c⟩, ?_, hrep, ?_, ?_, ?_, ?_⟩
    · unfold step
      rw [if_pos hallowed, hok]
      rfl
    · unfold SchedCall.after
      cases c.target with
      | none => exact h.once.take task
      | some q => exact h.once.move q task
    · intro q t ht
      rw [mem_after h.once] at ht
      dsimp only
      rw [hstatus]
      by_cases htask : t = task
      · rw [if_pos htask] at ht ⊢
        rw [ht]
        rfl
      · rw [if_neg htask] at ht ⊢
        exact h.status q t ht
    · intro t
      rw [mem_record h.nodup hin]
      simp only [mem_after h.once]
      by_cases htask : t = task
      · simp only [if_pos htask, Option.ne_none_iff_exists']
      · simp only [if_neg htask]
        exact h.entered t
    · cases c with
      | new => exact List.nodup_cons.2 ⟨hallowed, h.nodup⟩
      | free => exact h.nodup.erase task
      | mature | allow | block | preempt | wake | finish | kill => exact h.nodup

theorem init_inv (s : SchedState A) : (init s).Inv fun _ => [] :=
  ⟨represents_initRr s, ⟨by simp, by simp⟩, by simp, by simp [init], List.nodup_nil⟩

theorem step_allowed {S S' : SchedSystem A} {e : SchedCall × Nat} (h : step S e = some S') :
    S.Allowed e.1 e.2 := by
  unfold step at h
  by_contra hno
  rw [if_neg hno] at h
  exact absurd h (by simp)

theorem run_inv {S S' : SchedSystem A} {es : List (SchedCall × Nat)} (h : ∃ L, S.Inv L)
    (hrun : run step S es = some S') : ∃ L, S'.Inv L := by
  refine @run_invariant _ _ step (fun S => ∃ L, S.Inv L) ?_ _ _ _ h hrun
  intro S e S' hS hstep
  obtain ⟨L, hL⟩ := hS
  have hallowed := step_allowed hstep
  rcases hL.call hallowed with ⟨m, n, err, -, -, herr⟩ | ⟨S₁, hok, hinv⟩
  · unfold step at hstep
    rw [if_pos hallowed, herr] at hstep
    exact absurd hstep (by simp [Res.toOption])
  · obtain rfl : S₁ = S' := Option.some.inj (hok.symm.trans hstep)
    exact ⟨_, hinv⟩

/-- Along every run that follows the life cycle from empty queues the processes entered and not
freed are each in the queue of their status, once, and the next call moves its process to the end
of its target queue and keeps the order of all others. -/
theorem sched_run_queued {s : SchedState A} {es : List (SchedCall × Nat)} {S : SchedSystem A}
    (hrun : run step (init s) es = some S) :
    ∃ L, S.Queued L ∧ ∀ c task, S.Allowed c task → OutOfMemory A S.s.heap (c.call S.s task) ∨
      ∃ S', step S (c, task) = some S' ∧ S'.Queued (c.after L task) := by
  obtain ⟨L, hL⟩ := run_inv ⟨_, init_inv s⟩ hrun
  refine ⟨L, hL.queued, fun c task hallowed => ?_⟩
  rcases hL.call hallowed with hfail | ⟨S', hok, hinv⟩
  · exact Or.inl hfail
  · exact Or.inr ⟨S', hok, hinv.queued⟩

/-- Zeroed memory behind an allocator whose first object is at 4096. -/
def blank : SchedState bumpObjects :=
  ⟨(4096 : Nat), fun _ => ⟨0, none⟩, fun _ => ⟨none, none⟩,
    fun _ => ⟨0, 0, .NEW, 0, ⟨0, 0, 0, 0, 0, 0, 0, 0, 0, 0, 0, 0, 0, 0, 0, 0, 0, 0⟩⟩⟩

/-- Three processes, the middle one of which is killed while it is ready. -/
def sampleRun : List (SchedCall × Nat) :=
  [(.new, 16), (.mature, 16), (.new, 48), (.new, 32), (.mature, 32), (.mature, 48), (.allow, 16),
    (.kill, 32), (.block, 16), (.allow, 48), (.wake, 16), (.finish, 48), (.free, 48)]

theorem sampleRun_returns : (run step (init blank) sampleRun).isSome = true := by decide +kernel

theorem sched_run_queued_sample : ∃ S : SchedSystem bumpObjects, ∃ L, S.Queued L ∧
    ∀ c task, S.Allowed c task → OutOfMemory bumpObjects S.s.heap (c.call S.s task) ∨
      ∃ S', step S (c, task) = some S' ∧ S'.Queued (c.after L task) := by
  obtain ⟨S, hrun⟩ := Option.isSome_iff_exists.1 sampleRun_returns
  exact ⟨S, sched_run_queued hrun⟩

end SchedSystem

end Aimv6.Sched
