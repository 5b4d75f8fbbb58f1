import Aimv6.Drivers.GlobalTimer
import Aimv6.Support.Runs

/-! # The counter beside its reader

The counter and a call of `gtc_get_time`, step by step: between any two steps of
the call the counter may go up, by as much and as often as it likes. What a call
returns is what `gtcGetTime` returns for a counter that shows, at its instants,
the values that were read.
-/

namespace Aimv6.Drivers

open Support

/-- What a call of `gtc_get_time` does next: one of its three reads, or the test of its loop. -/
inductive GtcPoint where
  | readHi
  | readLo
  | readTmp
  | test
deriving DecidableEq, Repr

/-- A call of `gtc_get_time` that has not returned, with its variables. -/
structure GtcCall where
  point : GtcPoint
  hi : Nat
  lo : Nat
  tmp : Nat
deriving DecidableEq, Repr

/-- The counter and its reader: the call that is on its way, and the times that the calls before it
have returned, the last one in front. -/
structure Timer where
  counter : Nat
  counter_lt : counter < 18446744073709551616
  call : Option GtcCall
  times : List Nat
deriving DecidableEq, Repr

/-- The counter goes up, `gtc_get_time` is called, or the call goes on by a step. -/
inductive TimerEvent where
  | tick (n : Nat)
  | enter
  | proceed
deriving DecidableEq, Repr

namespace Timer

def in32 (T : Timer) (offset : Nat) : Nat :=
  if offset = GTC_COUNTER_HI_OFFSET then T.counter / 4294967296 else T.counter % 4294967296

def proceed (T : Timer) (k : GtcCall) : Timer :=
  match k.point with
  | .readHi => { T with call := some ⟨.readLo, T.in32 GTC_COUNTER_HI_OFFSET, k.lo, k.tmp⟩ }
  | .readLo => { T with call := some ⟨.readTmp, k.hi, T.in32 GTC_COUNTER_LO_OFFSET, k.tmp⟩ }
  | .readTmp => { T with call := some ⟨.test, k.hi, k.lo, T.in32 GTC_COUNTER_HI_OFFSET⟩ }
  | .test =>
      if k.hi ≠ k.tmp then { T with call := some ⟨.readHi, k.hi, k.lo, k.tmp⟩ }
      else
        { T with
          call := none
          times := (k.hi <<< 32 ||| k.lo) :: T.times }

def step (T : Timer) : TimerEvent → Option Timer
  | .tick n =>
      if h : T.counter + n < 18446744073709551616 then
        some { T with
          counter := T.counter + n
          counter_lt := h }
      else none
  | .enter =>
      match T.call with
      | none => some { T with call := some ⟨.readHi, 0, 0, 0⟩ }
      | some _ => none
  | .proceed => T.call.map T.proceed

def start (counter : Nat) (h : counter < 18446744073709551616) : Timer := ⟨counter, h, none, []⟩

/-- The counter holds `x` in a state that the run along `es` passes. -/
def Holds (T : Timer) (es : List TimerEvent) (x : Nat) : Prop :=
  Passes step T es fun T' => T'.counter = x

end Timer

/-- The variables of `gtcGetTime` behind the pass `m`, for a call from the instant 0 on. -/
def passOf (c : Counter) (m : Nat) : GtcVars := GtcVars.pass c ⟨0, 0, 0, 3 * m⟩

/-- The loop of `gtcGetTime` from the pass `m` on. -/
def passesFrom (c : Counter) (fuel m : Nat) : Option GtcVars :=
  whileLoop (fun v => decide (v.hi ≠ v.tmp)) (fun v => some (v.pass c)) fuel (passOf c m)

/-- The call has read as `gtcGetTime` up to the instant `n`, which lies in the pass `m`. -/
inductive Samples (c : Counter) (m : Nat) : GtcCall → Nat → Prop where
  | readHi (hi lo tmp : Nat) : Samples c m ⟨.readHi, hi, lo, tmp⟩ (3 * m)
  | readLo (lo tmp : Nat) : Samples c m ⟨.readLo, (passOf c m).hi, lo, tmp⟩ (3 * m + 1)
  | readTmp (tmp : Nat) : Samples c m ⟨.readTmp, (passOf c m).hi, (passOf c m).lo, tmp⟩ (3 * m + 2)
  | test : Samples c m ⟨.test, (passOf c m).hi, (passOf c m).lo, (passOf c m).tmp⟩ (3 * m + 3)

/-- The passes in front of `m` have found the upper half changed. -/
def Torn (c : Counter) (m : Nat) : Prop := ∀ j < m, (passOf c j).hi ≠ (passOf c j).tmp

/-- The call reads as `gtcGetTime` does for a counter that was at values in `H` and is not yet above
the value `last`. -/
def GtcCall.Sampled (k : GtcCall) (H : Set Nat) (last : Nat) : Prop :=
  ∃ c m n, Samples c m k n ∧ Torn c m ∧ (∀ i ≤ n, c.value i ∈ H) ∧ c.value n ≤ last

/-- A call on its way has read values that the counter held in states that the run along `es` from
`T₀` passes. -/
def Timer.Reads (T₀ : Timer) (es : List TimerEvent) (T : Timer) : Prop :=
  ∀ k, T.call = some k → k.Sampled {x | T₀.Holds es x} T.counter

/-- The values from the last time returned up to the one the counter is at. -/
def Timer.window (T : Timer) : Set Nat := {x | (∀ t ∈ T.times, t ≤ x) ∧ x ≤ T.counter}

/-- The times returned so far do not decrease, and the call on its way reads behind them. -/
structure Timer.Ordered (T : Timer) : Prop where
  times : T.times.Pairwise (· ≥ ·)
  behind : ∀ t ∈ T.times, t ≤ T.counter
  call : ∀ k, T.call = some k → k.Sampled T.window T.counter

/-- `gtcGetTime` returns `time` for a counter that was at values in `H`. -/
def Returns (H : Set Nat) (time : Nat) : Prop :=
  ∃ c fuel n, gtcGetTime c fuel 0 = some (time, n) ∧ ∀ i ≤ n, c.value i ∈ H

/-! ## The passes of `gtcGetTime` -/

section Passes

variable {c c' : Counter} {m n : Nat}

theorem passOf_hi (c : Counter) (m : Nat) : (passOf c m).hi = c.value (3 * m + 1) / 4294967296 :=
  c.in32_hi _

theorem passOf_lo (c : Counter) (m : Nat) : (passOf c m).lo = c.value (3 * m + 2) % 4294967296 :=
  c.in32_lo _

theorem passOf_tmp (c : Counter) (m : Nat) : (passOf c m).tmp = c.value (3 * m + 3) / 4294967296 :=
  c.in32_hi _

theorem passesFrom_last {fuel : Nat} (h : (passOf c m).hi = (passOf c m).tmp) :
    passesFrom c (fuel + 1) m = some (passOf c m) :=
  whileLoop_of_false (decide_eq_false (not_not.2 h))

theorem passesFrom_next {fuel : Nat} (h : (passOf c m).hi ≠ (passOf c m).tmp) :
    passesFrom c (fuel + 1) m = passesFrom c fuel (m + 1) :=
  whileLoop_of_true (decide_eq_true h) rfl

theorem gtcGetTime_eq (c : Counter) (fuel : Nat) :
    gtcGetTime c fuel 0 = (passesFrom c fuel 0).map fun v => (v.hi <<< 32 ||| v.lo, v.now) := rfl

theorem Torn.succ (h : Torn c m) (hm : (passOf c m).hi ≠ (passOf c m).tmp) : Torn c (m + 1) := by
  intro j hj
  by_cases hjm : j < m
  · exact h j hjm
  · obtain rfl : j = m := by omega
    exact hm

/-- The loop goes on up to the first pass that finds the upper half unchanged. -/
theorem passesFrom_torn (hend : (passOf c m).hi = (passOf c m).tmp) {j d : Nat} (hj : j + d = m)
    (htorn : Torn c m) : passesFrom c (d + 1) j = some (passOf c m) := by
  induction d generalizing j with
  | zero =>
      obtain rfl : j = m := hj
      exact passesFrom_last hend
  | succ d ih =>
      rw [passesFrom_next (htorn j (by omega))]
      exact ih (by omega)

theorem gtcGetTime_torn (htorn : Torn c m) (hend : (passOf c m).hi = (passOf c m).tmp) :
    gtcGetTime c (m + 1) 0 = some ((passOf c m).hi <<< 32 ||| (passOf c m).lo, 3 * m + 3) := by
  rw [gtcGetTime_eq, passesFrom_torn hend (Nat.zero_add m) htorn]
  rfl

theorem passesFrom_some {fuel j : Nat} {v : GtcVars} (htorn : Torn c j)
    (h : passesFrom c fuel j = some v) :
    ∃ m, v = passOf c m ∧ Torn c m ∧ (passOf c m).hi = (passOf c m).tmp := by
  induction fuel generalizing j with
  | zero => contradiction
  | succ fuel ih =>
      by_cases hsame : (passOf c j).hi = (passOf c j).tmp
      · rw [passesFrom_last hsame] at h
        exact ⟨j, (Option.some.inj h).symm, htorn, hsame⟩
      · rw [passesFrom_next hsame] at h
        exact ih (htorn.succ hsame) h

/-- What `gtcGetTime` returns is what its first pass with the upper half unchanged has read. -/
theorem gtcGetTime_passes {fuel time : Nat} (h : gtcGetTime c fuel 0 = some (time, n)) :
    ∃ m, Torn c m ∧ (passOf c m).hi = (passOf c m).tmp ∧
      time = (passOf c m).hi <<< 32 ||| (passOf c m).lo ∧ n = 3 * m + 3 := by
  rw [gtcGetTime_eq] at h
  obtain ⟨v, hloop, hv⟩ := Option.map_eq_some_iff.1 h
  have hnone : Torn c 0 := fun j hj => absurd hj (Nat.not_lt_zero j)
  obtain ⟨m, rfl, htorn, hsame⟩ := passesFrom_some hnone hloop
  obtain ⟨rfl, rfl⟩ := Prod.mk.inj hv
  exact ⟨m, htorn, hsame, rfl, rfl⟩

end Passes

/-! ## One step of a call -/

section Step

variable {c : Counter} {m n v last : Nat} {H H' : Set Nat} {k : GtcCall} {T T' : Timer}

/-- The counter that is at `v` behind the instant `n`. -/
def Counter.hold (c : Counter) (n v : Nat) (hle : c.value n ≤ v) (hv : v < 18446744073709551616) :
    Counter where
  value i := if i ≤ n then c.value i else v
  bounded i := by
    split
    · exact c.bounded i
    · exact hv
  monotone := by
    intro i j hij
    dsimp only
    by_cases hj : j ≤ n
    · rw [if_pos hj, if_pos (hij.trans hj)]
      exact c.monotone hij
    · rw [if_neg hj]
      split
      case isTrue hi => exact (c.monotone hi).trans hle
      case isFalse => exact Nat.le_refl v

theorem Counter.hold_of_le {hle : c.value n ≤ v} {hv : v < 18446744073709551616} {i : Nat}
    (h : i ≤ n) : (c.hold n v hle hv).value i = c.value i := if_pos h

theorem Counter.hold_succ {hle : c.value n ≤ v} {hv : v < 18446744073709551616} :
    (c.hold n v hle hv).value (n + 1) = v := if_neg (by omega)

theorem hold_hi {hle : c.value n ≤ v} {hv : v < 18446744073709551616} (h : 3 * m + 1 ≤ n) :
    (passOf (c.hold n v hle hv) m).hi = (passOf c m).hi := by
  rw [passOf_hi, Counter.hold_of_le h, ← passOf_hi]

theorem hold_lo {hle : c.value n ≤ v} {hv : v < 18446744073709551616} (h : 3 * m + 2 ≤ n) :
    (passOf (c.hold n v hle hv) m).lo = (passOf c m).lo := by
  rw [passOf_lo, Counter.hold_of_le h, ← passOf_lo]

theorem hold_tmp {hle : c.value n ≤ v} {hv : v < 18446744073709551616} (h : 3 * m + 3 ≤ n) :
    (passOf (c.hold n v hle hv) m).tmp = (passOf c m).tmp := by
  rw [passOf_tmp, Counter.hold_of_le h, ← passOf_tmp]

theorem GtcCall.Sampled.of_hold (hle : c.value n ≤ v) (hv : v < 18446744073709551616)
    (hk : Samples (c.hold n v hle hv) m k (n + 1)) (hm : 3 * m ≤ n) (htorn : Torn c m)
    (hH : ∀ i ≤ n, c.value i ∈ H) (hmem : v ∈ H) : k.Sampled H v := by
  refine ⟨_, m, n + 1, hk, fun j hj => ?_, fun i hi => ?_, ?_⟩
  · rw [hold_hi (by omega), hold_tmp (by omega)]
    exact htorn j hj
  · by_cases hin : i ≤ n
    · rw [Counter.hold_of_le hin]
      exact hH i hin
    · obtain rfl : i = n + 1 := by omega
      rw [Counter.hold_succ]
      exact hmem
  · rw [Counter.hold_succ]

theorem GtcCall.Sampled.mono (h : k.Sampled H v) (hsub : H ⊆ H') (hle : v ≤ last) :
    k.Sampled H' last := by
  obtain ⟨c, m, n, hk, htorn, hH, hlast⟩ := h
  exact ⟨c, m, n, hk, htorn, fun i hi => hsub (hH i hi), hlast.trans hle⟩

theorem GtcCall.Sampled.enter (hmem : T.counter ∈ H) :
    GtcCall.Sampled ⟨.readHi, 0, 0, 0⟩ H T.counter := by
  refine ⟨⟨fun _ => T.counter, fun _ => T.counter_lt, monotone_const⟩, 0, 0, .readHi 0 0 0,
    fun j hj => absurd hj (Nat.not_lt_zero j), fun _ _ => hmem, Nat.le_refl _⟩

/-- A step keeps a call to what `gtcGetTime` reads, and where the call returns `gtcGetTime` does. -/
theorem proceed_sampled (hmem : T.counter ∈ H) (h : k.Sampled H T.counter) :
    (∃ k', T.proceed k = { T with call := some k' } ∧ k'.Sampled H T.counter) ∨
      ∃ time, T.proceed k = { T with call := none, times := time :: T.times } ∧ Returns H time := by
  obtain ⟨c, m, n, hk, htorn, hH, hle⟩ := h
  cases hk with
  | readHi hi lo tmp =>
      have hread : T.in32 GTC_COUNTER_HI_OFFSET = (passOf (c.hold _ _ hle T.counter_lt) m).hi := by
        rw [passOf_hi, Counter.hold_succ]
        exact if_pos rfl
      refine Or.inl ⟨_, rfl, .of_hold hle T.counter_lt ?_ (Nat.le_refl _) htorn hH hmem⟩
      rw [hread]
      exact .readLo lo tmp
  | readLo lo tmp =>
      have hread : T.in32 GTC_COUNTER_LO_OFFSET = (passOf (c.hold _ _ hle T.counter_lt) m).lo := by
        rw [passOf_lo, Counter.hold_succ]
        exact if_neg (by decide)
      refine Or.inl ⟨_, rfl, .of_hold hle T.counter_lt ?_ (Nat.le_add_right _ _) htorn hH hmem⟩
      rw [hread, ← hold_hi (Nat.le_refl _)]
      exact .readTmp tmp
  | readTmp tmp =>
      have hread : T.in32 GTC_COUNTER_HI_OFFSET = (passOf (c.hold _ _ hle T.counter_lt) m).tmp := by
        rw [passOf_tmp, Counter.hold_succ]
        exact if_pos rfl
      refine Or.inl ⟨_, rfl, .of_hold hle T.counter_lt ?_ (Nat.le_add_right _ _) htorn hH hmem⟩
      rw [hread, ← hold_hi (Nat.le_succ _), ← hold_lo (Nat.le_refl _)]
      exact .test
  | test =>
      unfold Timer.proceed
      dsimp only
      by_cases hsame : (passOf c m).hi = (passOf c m).tmp
      · rw [if_neg (not_not.2 hsame)]
        exact Or.inr ⟨_, rfl, c, m + 1, 3 * m + 3, gtcGetTime_torn htorn hsame, hH⟩
      · rw [if_pos hsame]
        exact Or.inl ⟨_, rfl, c, m + 1, 3 * m + 3, .readHi _ _ _, htorn.succ hsame, hH, hle⟩

end Step

/-! ## Runs -/

section Run

variable {T T' T₂ T₃ T₄ : Timer} {es : List TimerEvent} {e : TimerEvent} {time : Nat} {H : Set Nat}

theorem Returns.mem (h : Returns H time) : time ∈ H := by
  obtain ⟨c, fuel, n, hread, hH⟩ := h
  obtain ⟨i, -, hi, rfl⟩ := gtcGetTime_spec hread
  exact hH i hi

theorem step_cases (h : T.step e = some T') :
    (∃ n hn, e = .tick n ∧ T' = { T with counter := T.counter + n, counter_lt := hn }) ∨
    (e = .enter ∧ T.call = none ∧ T' = { T with call := some ⟨.readHi, 0, 0, 0⟩ }) ∨
    ∃ k, e = .proceed ∧ T.call = some k ∧ T' = T.proceed k := by
  cases e with
  | tick n =>
      unfold Timer.step at h
      dsimp only at h
      by_cases hn : T.counter + n < 18446744073709551616
      · rw [dif_pos hn] at h
        exact Or.inl ⟨n, hn, rfl, (Option.some.inj h).symm⟩
      · rw [dif_neg hn] at h
        contradiction
  | enter =>
      unfold Timer.step at h
      dsimp only at h
      cases hcall : T.call with
      | none =>
          rw [hcall] at h
          exact Or.inr (Or.inl ⟨rfl, rfl, (Option.some.inj h).symm⟩)
      | some k =>
          rw [hcall] at h
          contradiction
  | proceed =>
      obtain ⟨k, hcall, hk⟩ := Option.map_eq_some_iff.1 h
      exact Or.inr (Or.inr ⟨k, rfl, hcall, hk.symm⟩)

theorem run_reads (hrun : run Timer.step T₂ es = some T)
    (hcall : T₂.call = some ⟨.readHi, 0, 0, 0⟩) : T₂.Reads es T := by
  refine run_history (fun es T e T' hrun ih hstep => ?_) ?_ hrun
  · have hheld : T₂.Holds es T.counter := Passes.of_run hrun rfl
    have hafter : T₂.Holds (es ++ [e]) T'.counter :=
      Passes.of_run (run_concat.2 ⟨T, hrun, hstep⟩) rfl
    have hmore : {x | T₂.Holds es x} ⊆ {x | T₂.Holds (es ++ [e]) x} := fun x hx => Passes.append hx [e]
    intro k' hk'
    obtain ⟨n, hn, rfl, rfl⟩ | ⟨rfl, -, rfl⟩ | ⟨k, rfl, hk, rfl⟩ := step_cases hstep
    · exact (ih k' hk').mono hmore (Nat.le_add_right _ _)
    · obtain rfl := Option.some.inj hk'
      exact GtcCall.Sampled.enter hafter
    · cases proceed_sampled hheld (ih k hk) with
      | inl hgoes =>
          obtain ⟨k₁, hproceed, hk₁⟩ := hgoes
          rw [hproceed] at hk' ⊢
          obtain rfl := Option.some.inj hk'
          exact hk₁.mono hmore (Nat.le_refl _)
      | inr hends =>
          obtain ⟨time, hproceed, -⟩ := hends
          rw [hproceed] at hk'
          contradiction
  · intro k hk
    obtain rfl := Option.some.inj (hcall.symm.trans hk)
    exact GtcCall.Sampled.enter (Passes.of_run rfl rfl)

/-- Where a call returns, `gtcGetTime` returns the same time for a counter that was at values which
the counter has held since the call was entered. -/
theorem call_returns (henter : T.step .enter = some T₂) (hrun : run Timer.step T₂ es = some T₃)
    (hreturn : T₃.step .proceed = some T₄) (htime : T₄.times = time :: T₃.times) :
    Returns {x | T₂.Holds es x} time := by
  have hcall : T₂.call = some ⟨.readHi, 0, 0, 0⟩ := by
    obtain ⟨n, hn, he, -⟩ | ⟨-, -, rfl⟩ | ⟨k, he, -⟩ := step_cases henter
    · contradiction
    · rfl
    · contradiction
  obtain ⟨k, hk, rfl⟩ := Option.map_eq_some_iff.1 hreturn
  have hheld : T₂.Holds es T₃.counter := Passes.of_run hrun rfl
  cases proceed_sampled hheld (run_reads hrun hcall k hk) with
  | inl hgoes =>
      obtain ⟨k', hproceed, -⟩ := hgoes
      rw [hproceed] at htime
      exact absurd htime.symm (List.cons_ne_self _ _)
  | inr hends =>
      obtain ⟨time', hproceed, hreturns⟩ := hends
      rw [hproceed] at htime
      obtain rfl := (List.cons.inj htime).1
      exact hreturns

theorem Timer.Ordered.step (h : T.Ordered) (hstep : T.step e = some T') : T'.Ordered := by
  have hmem : T.counter ∈ T.window := ⟨h.behind, Nat.le_refl _⟩
  obtain ⟨n, hn, rfl, rfl⟩ | ⟨rfl, -, rfl⟩ | ⟨k, rfl, hk, rfl⟩ := step_cases hstep
  · have hle : T.counter ≤ T.counter + n := Nat.le_add_right _ _
    refine ⟨h.times, fun t ht => (h.behind t ht).trans hle, fun k hk => ?_⟩
    exact (h.call k hk).mono (fun x hx => ⟨hx.1, hx.2.trans hle⟩) hle
  · refine ⟨h.times, h.behind, fun k hk => ?_⟩
    obtain rfl := Option.some.inj hk
    exact GtcCall.Sampled.enter hmem
  · cases proceed_sampled hmem (h.call k hk) with
    | inl hgoes =>
        obtain ⟨k', hproceed, hk'⟩ := hgoes
        rw [hproceed]
        refine ⟨h.times, h.behind, fun k₁ hk₁ => ?_⟩
        obtain rfl := Option.some.inj hk₁
        exact hk'
    | inr hends =>
        obtain ⟨time, hproceed, hreturns⟩ := hends
        obtain ⟨hlater, hle⟩ := hreturns.mem
        rw [hproceed]
        refine ⟨List.pairwise_cons.2 ⟨hlater, h.times⟩, fun t ht => ?_, fun k' hk' => ?_⟩
        · cases List.mem_cons.1 ht with
          | inl heq => exact heq.trans_le hle
          | inr hold => exact h.behind t hold
        · contradiction

/-- The counter goes on by an instant, and then the call by a step. -/
theorem run_tick_proceed (c : Counter) (i : Nat) (k : GtcCall) (times : List Nat) :
    run Timer.step ⟨c.value i, c.bounded i, some k, times⟩
        [.tick (c.value (i + 1) - c.value i), .proceed] =
      some (Timer.proceed ⟨c.value (i + 1), c.bounded (i + 1), some k, times⟩ k) := by
  have hsum : c.value i + (c.value (i + 1) - c.value i) = c.value (i + 1) :=
    Nat.add_sub_of_le (c.monotone (Nat.le_succ i))
  have htick : Timer.step ⟨c.value i, c.bounded i, some k, times⟩
      (.tick (c.value (i + 1) - c.value i)) =
      some ⟨c.value (i + 1), c.bounded (i + 1), some k, times⟩ := by
    unfold Timer.step
    simp only [hsum]
    exact dif_pos (c.bounded (i + 1))
  rw [run_cons]
  exact ⟨_, htick, rfl⟩

theorem run_pass (c : Counter) (m hi lo tmp : Nat) (times : List Nat) :
    ∃ es, run Timer.step ⟨c.value (3 * m), c.bounded _, some ⟨.readHi, hi, lo, tmp⟩, times⟩ es =
      some ⟨c.value (3 * m + 3), c.bounded _,
        some ⟨.test, (passOf c m).hi, (passOf c m).lo, (passOf c m).tmp⟩, times⟩ := by
  have hhi := run_tick_proceed c (3 * m) ⟨.readHi, hi, lo, tmp⟩ times
  have hlo := run_tick_proceed c (3 * m + 1) ⟨.readLo, (passOf c m).hi, lo, tmp⟩ times
  have htmp := run_tick_proceed c (3 * m + 2)
    ⟨.readTmp, (passOf c m).hi, (passOf c m).lo, tmp⟩ times
  exact ⟨_, run_append.2 ⟨_, run_append.2 ⟨_, hhi, hlo⟩, htmp⟩⟩

theorem run_torn (c : Counter) {m : Nat} (htorn : Torn c m) :
    ∃ es hi lo tmp, run Timer.step (Timer.start (c.value 0) (c.bounded 0)) (.enter :: es) =
      some ⟨c.value (3 * m), c.bounded _, some ⟨.readHi, hi, lo, tmp⟩, []⟩ := by
  induction m with
  | zero => exact ⟨[], 0, 0, 0, rfl⟩
  | succ m ih =>
      obtain ⟨es, hi, lo, tmp, hrun⟩ := ih fun j hj => htorn j (by omega)
      obtain ⟨es', hpass⟩ := run_pass c m hi lo tmp []
      have hagain : run Timer.step ⟨c.value (3 * m + 3), c.bounded _,
          some ⟨.test, (passOf c m).hi, (passOf c m).lo, (passOf c m).tmp⟩, []⟩ [.proceed] =
          some ⟨c.value (3 * m + 3), c.bounded _,
            some ⟨.readHi, (passOf c m).hi, (passOf c m).lo, (passOf c m).tmp⟩, []⟩ :=
        congrArg some (if_pos (htorn m (Nat.lt_succ_self m)))
      refine ⟨es ++ (es' ++ [.proceed]), (passOf c m).hi, (passOf c m).lo, (passOf c m).tmp, ?_⟩
      rw [← List.cons_append]
      exact run_append.2 ⟨_, hrun, run_append.2 ⟨_, hpass, hagain⟩⟩

/-- Each call of `gtcGetTime` is a call beside a counter that goes on between any two reads. -/
theorem run_of_gtcGetTime {c : Counter} {fuel n : Nat} (h : gtcGetTime c fuel 0 = some (time, n)) :
    ∃ es, run Timer.step (Timer.start (c.value 0) (c.bounded 0)) (.enter :: es) =
      some ⟨c.value n, c.bounded n, none, [time]⟩ := by
  obtain ⟨m, htorn, hsame, rfl, rfl⟩ := gtcGetTime_passes h
  obtain ⟨es, hi, lo, tmp, hrun⟩ := run_torn c htorn
  obtain ⟨es', hpass⟩ := run_pass c m hi lo tmp []
  have hreturn : run Timer.step ⟨c.value (3 * m + 3), c.bounded _,
      some ⟨.test, (passOf c m).hi, (passOf c m).lo, (passOf c m).tmp⟩, []⟩ [.proceed] =
      some ⟨c.value (3 * m + 3), c.bounded _, none,
        [(passOf c m).hi <<< 32 ||| (passOf c m).lo]⟩ :=
    congrArg some (if_neg (not_not.2 hsame))
  refine ⟨es ++ (es' ++ [.proceed]), ?_⟩
  rw [← List.cons_append]
  exact run_append.2 ⟨_, hrun, run_append.2 ⟨_, hpass, hreturn⟩⟩

/-- What a call of `gtc_get_time` returns the counter has held in a state between the entry and the
return of the call, however the two interleave, and the times of calls one after another do not
decrease. -/
theorem split_read_consistent :
    (∀ (T₁ T₂ T₃ T₄ : Timer) (es : List TimerEvent) (time : Nat), T₁.step .enter = some T₂ →
      run Timer.step T₂ es = some T₃ → T₃.step .proceed = some T₄ → T₄.times = time :: T₃.times →
      T₂.Holds es time) ∧
    ∀ (counter : Nat) (h : counter < 18446744073709551616) (es : List TimerEvent) (T : Timer),
      run Timer.step (Timer.start counter h) es = some T → T.times.Pairwise (· ≥ ·) := by
  constructor
  · intro T₁ T₂ T₃ T₄ es time henter hrun hreturn htime
    exact (call_returns henter hrun hreturn htime).mem
  · intro counter h es T hrun
    have hstart : (Timer.start counter h).Ordered := by
      refine ⟨List.Pairwise.nil, fun t ht => absurd ht List.not_mem_nil, fun k hk => ?_⟩
      contradiction
    exact (run_invariant (fun T e T' hT hstep => hT.step hstep) hstart hrun).times

/-- The counter leaves the lower half between the first two reads of a call. -/
def carryEvents : List TimerEvent :=
  [.proceed, .tick 1, .proceed, .proceed, .proceed, .tick 5, .proceed, .proceed, .tick 1, .proceed]

def beforeCarry : Timer := ⟨4294967295, by decide, some ⟨.readHi, 0, 0, 0⟩, []⟩

def carryCalls : List TimerEvent :=
  .enter :: carryEvents ++ [.proceed, .tick 1, .enter, .proceed, .proceed, .proceed, .proceed]

theorem split_read_consistent_sample :
    beforeCarry.Holds carryEvents 4294967301 ∧
      ∃ T, run Timer.step (Timer.start 4294967295 (by decide)) carryCalls = some T ∧
        T.times = [4294967303, 4294967301] ∧ T.times.Pairwise (· ≥ ·) :=
  ⟨split_read_consistent.1 (Timer.start 4294967295 (by decide)) beforeCarry _ _ carryEvents
    4294967301 rfl rfl rfl rfl, _, rfl, rfl,
    split_read_consistent.2 4294967295 (by decide) carryCalls _ rfl⟩

end Run

end Aimv6.Drivers
