import Aimv6.Sched.NewProcess
import Mathlib.Data.List.Rotate

/-! # Ticks

`sched_main` called again and again: the running process and the ready ones
behind it form a list that each call rotates by one place.
-/

namespace Aimv6.Sched

open Support

variable {A : SlabObjects} {k k' : Kernel A} {L L' : Queues} {r t : Nat} {l : List Nat} {m n : Nat}

/-- `n` calls of `sched_main`. -/
def ticks : Nat → Kernel A → Res (Kernel A)
  | 0, k => .ok k
  | n + 1, k => schedMain k >>= ticks n

/-- The process that runs after `n` calls. -/
def runningAt (k : Kernel A) (n : Nat) : Option Nat :=
  (ticks n k).toOption.bind fun k => (schedGetRunning k.s).toOption

/-- One process runs, and it and the ready ones are `l`. -/
structure Turn (L : Queues) (l : List Nat) : Prop where
  one : ∃ t, L .RUNNING = [t]
  order : L .RUNNING ++ L .READY = l

/-- After a call of `sched_preempt` on the running process, `sched_pick` finds a process. -/
def Picks (k : Kernel A) : Prop :=
  ∀ t s, schedGetRunning k.s = .ok t → schedPreempt k.s t = .ok s → ∃ p, schedPick s = .ok p

theorem Turn.cons (h : Turn L l) : ∃ t, L .RUNNING = [t] ∧ l = t :: L .READY := by
  obtain ⟨t, ht⟩ := h.one
  refine ⟨t, ht, ?_⟩
  rw [← h.order, ht]
  rfl

theorem Switched.turn {p next : Nat} (h : Switched k L p k' L' next) (hrun : L .RUNNING = [p]) :
    Turn L' ((L .RUNNING ++ L .READY).rotate 1) := by
  refine ⟨⟨next, h.running⟩, ?_⟩
  rw [h.running, hrun]
  show next :: L' .READY = (p :: L .READY).rotate 1
  rw [List.rotate_cons_succ, List.rotate_zero]
  exact h.ready.symm

theorem Settled.picks (h : Settled k.s L) : Picks k := by
  intro t s hrun hpreempt
  rw [h.queues.getRunning] at hrun
  cases hhead : (L .RUNNING).head? with
  | none =>
      rw [hhead] at hrun
      simp at hrun
  | some t' =>
      rw [hhead] at hrun
      obtain rfl := Except.ok.inj hrun
      have hmem : t' ∈ L .RUNNING := List.mem_of_mem_head? hhead
      rw [(h.move_ok hmem hpreempt).1.queues.pick, Queues.put_self]
      cases hlist : (L.take t') .READY with
      | nil => exact ⟨_, rfl⟩
      | cons a rest => exact ⟨_, rfl⟩

theorem ticks_add (k : Kernel A) (m n : Nat) : ticks (m + n) k = ticks m k >>= ticks n := by
  induction m generalizing k with
  | zero =>
      rw [Nat.zero_add]
      rfl
  | succ m ih =>
      rw [Nat.add_right_comm, ticks, ticks]
      cases schedMain k with
      | error e => rfl
      | ok k₁ => exact ih k₁

theorem ticks_spec (h : Settled k.s L) (hturn : Turn L l) (n : Nat) :
    OutOfMemory A k.s.heap (ticks n k) ∨ ∃ k' L', ticks n k = .ok k' ∧ Settled k'.s L' ∧
      Turn L' (l.rotate n) ∧ ∀ q, q ≠ .READY → q ≠ .RUNNING → L' q = L q := by
  induction n generalizing k L l with
  | zero =>
      rw [List.rotate_zero]
      exact Or.inr ⟨k, L, rfl, h, hturn, fun _ _ _ => rfl⟩
  | succ n ih =>
      obtain ⟨p, hp, -⟩ := hturn.cons
      rw [ticks]
      rcases schedMain_spec h hp with hfail | ⟨k₁, L₁, next, hmain, hset₁, hsw⟩
      · exact Or.inl (hfail.bind _)
      · rw [hmain, Res.ok_bind]
        have hturn₁ := hsw.turn hp
        rw [hturn.order] at hturn₁
        rcases ih hset₁ hturn₁ with hfail | ⟨k', L', hok, hset, hturn', hothers⟩
        · exact Or.inl (hfail.later (schedMain_leads k k₁ hmain))
        · rw [List.rotate_rotate, Nat.add_comm] at hturn'
          exact Or.inr ⟨k', L', hok, hset, hturn', fun q h₁ h₂ =>
            (hothers q h₁ h₂).trans (hsw.others q h₁ h₂)⟩

theorem ticks_ok (h : Settled k.s L) (hturn : Turn L l) (hok : ticks n k = .ok k') :
    ∃ L', Settled k'.s L' ∧ Turn L' (l.rotate n) ∧ ∀ q, q ≠ .READY → q ≠ .RUNNING → L' q = L q := by
  rcases ticks_spec h hturn n with hfail | ⟨k₁, L₁, hk₁, hspec⟩
  · exact absurd hok (hfail.ne_ok k')
  · obtain rfl := Except.ok.inj (hk₁.symm.trans hok)
    exact ⟨L₁, hspec⟩

theorem ticks_ok_of_le {j : Nat} (h : ∃ k', ticks n k = .ok k') (hj : j ≤ n) :
    ∃ k', ticks j k = .ok k' := by
  obtain ⟨k', hok⟩ := h
  rw [← Nat.add_sub_of_le hj, ticks_add] at hok
  obtain ⟨k₁, hk₁, -⟩ := Res.bind_eq_ok.1 hok
  exact ⟨k₁, hk₁⟩

theorem runningAt_eq (h : Settled k.s L) (hturn : Turn L l) (hok : ∃ k', ticks n k = .ok k') :
    runningAt k n = (l.rotate n).head? := by
  obtain ⟨k', hk'⟩ := hok
  obtain ⟨L', hset, hturn', -⟩ := ticks_ok h hturn hk'
  obtain ⟨p, hp, hl⟩ := hturn'.cons
  unfold runningAt
  rw [hk', hl]
  show (schedGetRunning k'.s).toOption = some p
  rw [hset.queues.getRunning_eq hp]
  rfl

/-- The processes that run after `m`, `m + 1`, ... calls, one round of them. -/
theorem runningAt_round (h : Settled k.s L) (hturn : Turn L l)
    (hok : ∃ k', ticks (m + l.length) k = .ok k') :
    (List.range l.length).map (fun i => runningAt k (m + i)) = (l.rotate m).map some := by
  apply List.ext_getElem?
  intro i
  rw [List.getElem?_map, List.getElem?_map]
  by_cases hi : i < l.length
  · have hrot : i < (l.rotate m).length := by
      rw [List.length_rotate]
      exact hi
    rw [List.getElem?_range hi, List.getElem?_eq_getElem hrot, Option.map_some, Option.map_some,
      runningAt_eq h hturn (ticks_ok_of_le hok (by omega)), ← List.rotate_rotate,
      List.head?_rotate hrot, List.getElem?_eq_getElem hrot]
  · rw [List.getElem?_eq_none (by rw [List.length_range]; omega),
      List.getElem?_eq_none (by rw [List.length_rotate]; omega)]
    rfl

/-- Calls of `sched_main` in state `k`, where `r` runs and `l` are ready. -/
structure RoundRobin (k : Kernel A) (L : Queues) (r : Nat) (l : List Nat) : Prop where
  order : ∀ n, OutOfMemory A k.s.heap (ticks n k) ∨ ∃ k' L', ticks n k = .ok k' ∧ Settled k'.s L' ∧
    Turn L' ((r :: l).rotate n) ∧ (∀ q, q ≠ .READY → q ≠ .RUNNING → L' q = L q) ∧ Picks k'
  /-- in one round, from any call on, every process runs once -/
  round : ∀ m, (∃ k', ticks (m + (l.length + 1)) k = .ok k') → ∀ t ∈ r :: l,
    ((List.range (l.length + 1)).map fun i => runningAt k (m + i)).count (some t) = 1
  again : ∀ k', ticks (l.length + 1) k = .ok k' → Settled k'.s L

/-- `sched_main` rotates the processes of every settled state in which one process runs. -/
theorem sched_main_rotates (h : Settled k.s L) (hrun : L .RUNNING = [r]) (hready : L .READY = l) :
    RoundRobin k L r l := by
  have hturn : Turn L (r :: l) := by
    refine ⟨⟨r, hrun⟩, ?_⟩
    rw [hrun, hready]
    rfl
  have hnodup : (r :: l).Nodup := by
    rw [← hready]
    refine List.nodup_cons.2 ⟨fun hmem => ?_, h.once.nodup .READY⟩
    exact h.once.apart .RUNNING .READY (by decide) (Queues.mem_running hrun) hmem
  refine ⟨fun n => ?_, fun m hok t ht => ?_, fun k' hok => ?_⟩
  · rcases ticks_spec h hturn n with hfail | ⟨k', L', hok, hset, hturn', hothers⟩
    · exact Or.inl hfail
    · exact Or.inr ⟨k', L', hok, hset, hturn', hothers, hset.picks⟩
  · have hround := runningAt_round (m := m) h hturn hok
    rw [List.length_cons] at hround
    rw [hround, List.count_map_of_injective _ some (Option.some_injective _),
      (List.rotate_perm (r :: l) m).count_eq]
    exact List.count_eq_one_of_mem hnodup ht
  · obtain ⟨L', hset, hturn', hothers⟩ := ticks_ok h hturn hok
    rw [← List.length_cons (a := r), List.rotate_length] at hturn'
    obtain ⟨p, hp, hl⟩ := hturn'.cons
    obtain ⟨hrp, hll⟩ := List.cons.inj hl
    have hsame : L' = L := by
      funext q
      cases q with
      | READY => rw [← hll, hready]
      | RUNNING => rw [hp, hrun, hrp]
      | NEW | WAIT | ZOMBIE | ABORT => exact hothers _ (by decide) (by decide)
    rw [← hsame]
    exact hset

theorem booted_fork_returns : ((initSched Kernel.blank).toOption.bind fun k =>
    (fork k).toOption).isSome = true := by decide +kernel

theorem sched_main_rotates_sample : ∃ (k : Kernel bumpObjects) (L : Queues) (r a : Nat),
    RoundRobin k L r [a] := by
  obtain ⟨k', hk'⟩ := Option.isSome_iff_exists.1 booted_fork_returns
  obtain ⟨k, hboot, hfork⟩ := Option.bind_eq_some_iff.1 hk'
  have hboot := Res.toOption_eq_some.1 hboot
  have hfork := Res.toOption_eq_some.1 hfork
  obtain ⟨c, d, -, hset, -, -⟩ := initSched_ok blank_settled hboot
  have hrun := Queues.booted_running c d
  obtain ⟨a, -, hset', -⟩ := fork_ok hset hrun hfork
  refine ⟨k', (Queues.booted c d).put .READY a, c, a, sched_main_rotates hset' ?_ ?_⟩
  · rw [Queues.put_of_ne (by decide)]
    exact hrun
  · rw [Queues.put_self]
    unfold Queues.booted
    rw [Queues.put_of_ne (by decide), Queues.put_of_ne (by decide)]
    rfl

end Aimv6.Sched
