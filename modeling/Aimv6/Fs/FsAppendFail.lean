import Aimv6.Fs.FsRun

/-! # Appends that fail

`append_file` takes its blocks off the free list before it looks the file up.
Without enough blocks it changes nothing; where there are enough of them and the
file is missing or held by another process, the blocks are on no list afterwards.
-/

namespace Aimv6.Fs

open Support

/-- One call of `append_file`. -/
structure AppendCall where
  pid : Nat
  index : Nat
  addr : Nat
  size : Int
  io : Nat → Int

/-- The free list, the links, the entries and the disk are as they were. -/
structure Untouched (w w' : World) : Prop where
  free_head : w'.fs.freeHead = w.fs.freeHead
  links : w'.fs.nextBlock = w.fs.nextBlock
  entries : w'.fs.fentry = w.fs.fentry
  file_list : w'.fs.fentryHead = w.fs.fentryHead
  disk : w'.disk = w.disk

namespace AppendCall

def perform (a : AppendCall) (w : World) : Res (Int × World) :=
  appendFile w a.pid a.index a.addr a.size a.io

/-- A negative code comes with an unchanged file system. -/
def FailsClean (a : AppendCall) (w : World) : Prop :=
  ∀ c w', a.perform w = .ok (c, w') → c < 0 → Untouched w w'

/-- The lookup by number finds an entry that the process may write. -/
def Permitted (a : AppendCall) (fs : FsState) : Prop :=
  ∃ x, fs.findIndex a.index = .ok (some x) ∧ ¬ fs.heldByOther x a.pid

/-- Wherever the free list has the blocks, the process may write the file. -/
def Served (a : AppendCall) (fs : FsState) (free : List Nat) : Prop :=
  0 < a.size → a.size ≤ free.length → a.Permitted fs

/-- The state behind a call that returns a negative code. -/
def failed (w : World) (a : AppendCall) : Option World :=
  (a.perform w).toOption.bind fun r => if r.1 < 0 then some r.2 else none

theorem failed_eq_some {a : AppendCall} {w w' : World} :
    failed w a = some w' ↔ ∃ c, a.perform w = .ok (c, w') ∧ c < 0 := by
  unfold failed
  rw [Option.bind_eq_some_iff]
  constructor
  · intro h
    obtain ⟨⟨c, t⟩, hcall, hneg⟩ := h
    by_cases hc : c < 0
    · rw [if_pos hc] at hneg
      obtain rfl : t = w' := Option.some.inj hneg
      exact ⟨c, Res.toOption_eq_some.1 hcall, hc⟩
    · rw [if_neg hc] at hneg
      exact absurd hneg (by simp)
  · intro h
    obtain ⟨c, hcall, hc⟩ := h
    exact ⟨(c, w'), Res.toOption_eq_some.2 hcall, if_pos hc⟩

end AppendCall

theorem Untouched.refl (w : World) : Untouched w w := ⟨rfl, rfl, rfl, rfl, rfl⟩

namespace Owned

variable {w w' : World} {files free : List Nat} {chain : Nat → List Nat} {a : AppendCall}

theorem perform_short (h : Owned w.fs files free chain)
    (hshort : a.size ≤ 0 ∨ (free.length : Int) < a.size) : a.perform w = .ok (-1, w) := by
  unfold AppendCall.perform appendFile
  rcases h.dataAlloc_spec a.size with hok | hno
  · obtain ⟨pre, post, p, fs₁, hfree, hlen, -⟩ := hok
    have hsplit := congrArg List.length hfree
    rw [List.length_append] at hsplit
    have hsome : 0 < (p :: pre).length := Nat.succ_pos pre.length
    omega
  · rw [hno.2]

/-- Blocks for a file that the process may not write leave the free list. -/
theorem perform_loses (h : Owned w.fs files free chain) (hpos : 0 < a.size)
    (hlen : a.size ≤ free.length) (hno : ¬ a.Permitted w.fs) :
    ∃ c w', a.perform w = .ok (c, w') ∧ c < 0 ∧ w'.fs.freeHead ≠ w.fs.freeHead := by
  unfold AppendCall.perform appendFile
  rcases h.dataAlloc_spec a.size with hok | hshort
  · obtain ⟨pre, post, p, fs₁, hfree, -, halloc, hown, -, hentry, hsame⟩ := hok
    have hhead : fs₁.freeHead ≠ w.fs.freeHead := by
      rw [Chain.head_eq hown.free_list, Chain.head_eq h.free_list, hfree]
      intro hc
      have hp : p ∈ post := List.mem_of_mem_head? hc
      have hnodup := (List.nodup_append.1 h.once).1
      rw [hfree] at hnodup
      exact (List.nodup_append.1 hnodup).2.2 p (List.mem_cons_self ..) p hp rfl
    rw [halloc]
    dsimp only
    rcases hown.findIndex_spec a.index with hfound | hnone
    · obtain ⟨x, -, -, hfind⟩ := hfound
      have hheld : fs₁.heldByOther x a.pid := by
        by_contra hpermitted
        unfold FsState.heldByOther FsState.occupied at hpermitted
        rw [hentry] at hpermitted
        exact hno ⟨x, (congrFun (find_congr hentry hsame) _).symm.trans hfind, hpermitted⟩
      rw [hfind, Res.ok_bind]
      dsimp only
      rw [if_pos hheld]
      exact ⟨-3, _, rfl, by decide, hhead⟩
    · rw [hnone.2, Res.ok_bind]
      exact ⟨-2, _, rfl, by decide, hhead⟩
  · omega

theorem perform_done (h : Owned w.fs files free chain) (hpos : 0 < a.size)
    (hlen : a.size ≤ free.length) (hyes : a.Permitted w.fs) {c : Int}
    (hrun : a.perform w = .ok (c, w')) : c = 0 := by
  obtain ⟨x, hfind, hheld⟩ := hyes
  unfold AppendCall.perform appendFile at hrun
  rcases h.dataAlloc_spec a.size with hok | hshort
  · obtain ⟨pre, post, p, fs₁, -, -, halloc, -, -, hentry, hsame⟩ := hok
    have hfind₁ : fs₁.findIndex a.index = .ok (some x) :=
      (congrFun (find_congr hentry hsame) _).trans hfind
    have hheld₁ : ¬ fs₁.heldByOther x a.pid := by
      unfold FsState.heldByOther FsState.occupied at hheld ⊢
      rw [hentry]
      exact hheld
    rw [halloc] at hrun
    dsimp only at hrun
    rw [hfind₁, Res.ok_bind] at hrun
    dsimp only at hrun
    rw [if_neg hheld₁] at hrun
    obtain ⟨fs₂, -, hrun⟩ := Res.bind_eq_ok.1 hrun
    obtain ⟨disk, -, hrun⟩ := Res.bind_eq_ok.1 hrun
    exact (Prod.mk.inj (Except.ok.inj hrun)).1.symm
  · omega

theorem served_fails (h : Owned w.fs files free chain) (hserved : a.Served w.fs free) {c : Int}
    (hrun : a.perform w = .ok (c, w')) (hc : c < 0) : w' = w := by
  by_cases hshort : a.size ≤ 0 ∨ (free.length : Int) < a.size
  · have hsame := (h.perform_short hshort).symm.trans hrun
    exact (Prod.mk.inj (Except.ok.inj hsame)).2.symm
  · have hdone := h.perform_done (by omega) (by omega) (hserved (by omega) (by omega)) hrun
    omega

theorem failsClean_iff (h : Owned w.fs files free chain) :
    a.FailsClean w ↔ a.Served w.fs free := by
  constructor
  · intro hclean hpos hlen
    by_contra hno
    obtain ⟨c, w', hrun, hc, hhead⟩ := h.perform_loses hpos hlen hno
    exact hhead (hclean c w' hrun hc).free_head
  · intro hserved c w' hrun hc
    rw [h.served_fails hserved hrun hc]
    exact Untouched.refl w

end Owned

/-- A failed append leaves the file system alone unless its blocks were there and the file was not
for the process; runs of other failed appends leave it alone too. -/
theorem append_fails_clean_iff {w : World} {files free : List Nat} {chain : Nat → List Nat}
    (h : Owned w.fs files free chain) :
    (∀ a : AppendCall, a.FailsClean w ↔ a.Served w.fs free) ∧
      ∀ (calls : List AppendCall) (w' : World), (∀ a ∈ calls, a.Served w.fs free) →
        run AppendCall.failed w calls = some w' → Untouched w w' := by
  refine ⟨fun a => h.failsClean_iff, fun calls w' hserved hrun => ?_⟩
  have hstep : ∀ t a t', a.Served w.fs free → t = w → AppendCall.failed t a = some t' →
      t' = w := by
    intro t a t' ha ht hcall
    subst ht
    obtain ⟨c, hperform, hc⟩ := AppendCall.failed_eq_some.1 hcall
    exact h.served_fails ha hperform hc
  rw [run_invariant_of hstep hserved rfl hrun]
  exact Untouched.refl w

def AppendCall.tooLong : AppendCall where
  pid := 7
  index := 1
  addr := 0
  size := 40000
  io := fun _ => 0

theorem append_fails_clean_iff_tooLong : ∃ w : World, AppendCall.tooLong.FailsClean w ∧
    ∀ w', run AppendCall.failed w [.tooLong, .tooLong] = some w' → Untouched w w' := by
  have hown := owned_buildFs FsSystem.blank.fs fun _ => []
  have hserved : AppendCall.tooLong.Served (buildFs FsSystem.blank.fs) (List.range' 0 NBLOCKS) := by
    intro _ hlen
    rw [List.length_range'] at hlen
    exact absurd hlen (by decide)
  obtain ⟨hcall, hruns⟩ := @append_fails_clean_iff (FsSystem.init FsSystem.blank).w [] _ _ hown
  refine ⟨(FsSystem.init FsSystem.blank).w, (hcall _).2 hserved, fun w' hrun => ?_⟩
  refine hruns _ w' (fun a ha => ?_) hrun
  obtain rfl : a = .tooLong := by simpa using ha
  exact hserved

/-- One block for a file that nobody created. -/
theorem append_fails_clean_fails : ∃ (w : World) (files free : List Nat) (chain : Nat → List Nat)
    (a : AppendCall), Owned w.fs files free chain ∧ ¬ a.FailsClean w := by
  have hown := owned_buildFs FsSystem.blank.fs fun _ => []
  refine ⟨(FsSystem.init FsSystem.blank).w, [], _, _, ⟨7, 1, 0, 1, fun _ => 0⟩, hown, fun hclean => ?_⟩
  obtain ⟨x, hfind, -⟩ := hown.failsClean_iff.1 hclean (by decide) (by
    rw [List.length_range']
    decide)
  rcases hown.findIndex_spec 1 with hfound | hnone
  · obtain ⟨y, hy, -⟩ := hfound
    exact absurd hy (by simp)
  · exact absurd (hnone.2.symm.trans hfind) (by simp)

end Aimv6.Fs
