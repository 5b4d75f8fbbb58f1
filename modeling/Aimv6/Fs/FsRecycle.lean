import Aimv6.Fs.FsReadCall
import Mathlib.Data.List.Basic

/-! # Deleting a file

`recycle_file` takes an entry behind another one off the file list and hands the
first block of its chain to `recycle_blocks`, which clears the disk addresses and
puts the last block of the chain alone in front of the free list.
-/

namespace Aimv6.Fs

open Support

/-- The free list and the chains of the files end in `NULL` and have no block in common. -/
structure Tidy (fs : FsState) (files free : List Nat) (chain : Nat → List Nat) : Prop where
  listed : FileList fs files
  unique : (files.map fs.indexNumber).Nodup
  free_list : Chain fs.nextBlock fs.freeHead free
  chains : ∀ x ∈ files, Chain fs.nextBlock (fs.firstBlock x) (chain x)
  once : (free ++ files.flatMap chain).Nodup
  inside : ∀ b ∈ free ++ files.flatMap chain, b < NBLOCKS

theorem Owned.tidy {fs : FsState} {files free : List Nat} {chain : Nat → List Nat}
    (h : Owned fs files free chain) (hnum : Numbered fs files) : Tidy fs files free chain :=
  ⟨h.fileList, hnum.indices, h.free_list, h.chains, h.once, h.inside⟩

/-- The entry `x` is gone and its blocks are free. -/
structure Deleted (fs fs' : FsState) (files free : List Nat) (chain : Nat → List Nat) (x : Nat) :
    Prop where
  unlinked : Chain fs'.nextEntry fs'.fentryHead (files.erase x)
  freed : ∃ free', Chain fs'.nextBlock fs'.freeHead free' ∧ free'.Perm (chain x ++ free)
  addresses : ∀ b, (fs'.dbTable b).ondiskAddr = (fs.dbTable b).ondiskAddr
  kept : ∀ y ∈ files, y ≠ x → Chain fs'.nextBlock (fs'.firstBlock y) (chain y)

/-- A file that the process may delete is deleted, and another code than 0 comes with an unchanged
file system. -/
structure Recycles (fs : FsState) (files free : List Nat) (chain : Nat → List Nat)
    (pid index : Nat) : Prop where
  deletes : ∀ x ∈ files, fs.indexNumber x = index → ¬ fs.heldByOther x pid →
    ∃ fs', recycleFile fs pid index = .ok (0, fs') ∧ Deleted fs fs' files free chain x
  refuses : ∀ c fs', recycleFile fs pid index = .ok (c, fs') → c ≠ 0 → fs' = fs

/-- A single block without a disk address, in a file behind another one. -/
structure Recyclable (fs : FsState) (files : List Nat) (chain : Nat → List Nat) (x : Nat) : Prop where
  behind : files.head? ≠ some x
  blank : ∃ b, chain x = [b] ∧ (fs.dbTable b).ondiskAddr = 0

/-! ## The blocks -/

theorem setOndiskAddr_nextBlock (fs : FsState) (b a : Nat) :
    (fs.setOndiskAddr b a).nextBlock = fs.nextBlock := by
  funext c
  unfold FsState.nextBlock FsState.setOndiskAddr
  dsimp only
  by_cases hc : c = b
  · rw [if_pos hc, hc]
  · rw [if_neg hc]

theorem setOndiskAddr_addr (fs : FsState) (b a c : Nat) :
    ((fs.setOndiskAddr b a).dbTable c).ondiskAddr = if c = b then a else (fs.dbTable c).ondiskAddr := by
  unfold FsState.setOndiskAddr
  dsimp only
  by_cases hc : c = b
  · rw [if_pos hc, if_pos hc]
  · rw [if_neg hc, if_neg hc]

/-- What the loop of `recycle_blocks` leaves: the disk addresses of the chain are cleared. -/
structure Cleared (fs fs' : FsState) (l : List Nat) : Prop where
  links : fs'.nextBlock = fs.nextBlock
  free_head : fs'.freeHead = fs.freeHead
  entries : fs'.fentry = fs.fentry
  file_list : fs'.fentryHead = fs.fentryHead
  cleared : ∀ b ∈ l, (fs'.dbTable b).ondiskAddr = 0
  others : ∀ b, b ∉ l → (fs'.dbTable b).ondiskAddr = (fs.dbTable b).ondiskAddr

theorem recycleWalk_spec {fs : FsState} {fuel x a : Nat} {l : List Nat}
    (h : Chain fs.nextBlock (some x) (l ++ [a])) (hf : l.length < fuel) :
    ∃ fs', recycleWalk fuel fs x = some (fs', a) ∧ Cleared fs fs' (l ++ [a]) := by
  induction l generalizing fs x fuel with
  | nil =>
      obtain ⟨fuel, rfl⟩ : ∃ k, fuel = k + 1 := ⟨fuel - 1, by simp at hf; omega⟩
      obtain ⟨hx, ha⟩ := h
      obtain rfl : x = a := Option.some.inj hx
      have hnone : (fs.setOndiskAddr x 0).nextBlock x = none := by
        rw [setOndiskAddr_nextBlock]
        exact ha
      refine ⟨fs.setOndiskAddr x 0, ?_, setOndiskAddr_nextBlock fs x 0, rfl, rfl, rfl, fun b hb => ?_,
        fun b hb => ?_⟩
      · rw [recycleWalk, hnone]
      · rw [setOndiskAddr_addr, if_pos (by simpa using hb)]
      · rw [setOndiskAddr_addr, if_neg (by simpa using hb)]
  | cons b l ih =>
      obtain ⟨fuel, rfl⟩ : ∃ k, fuel = k + 1 := ⟨fuel - 1, by simp at hf; omega⟩
      obtain ⟨hx, hl⟩ := h
      obtain rfl : x = b := Option.some.inj hx
      obtain ⟨y, hy⟩ : ∃ y, fs.nextBlock x = some y := by
        have hhead := Chain.head_eq hl
        cases l with
        | nil => exact ⟨a, hhead⟩
        | cons c l => exact ⟨c, hhead⟩
      rw [hy, ← setOndiskAddr_nextBlock fs x 0] at hl
      obtain ⟨fs', hwalk, hclear⟩ := @ih (fs.setOndiskAddr x 0) fuel y hl (by simpa using hf)
      refine ⟨fs', ?_, hclear.links.trans (setOndiskAddr_nextBlock fs x 0), hclear.free_head,
        hclear.entries, hclear.file_list, fun c hc => ?_, fun c hc => ?_⟩
      · rw [recycleWalk, setOndiskAddr_nextBlock, hy]
        exact hwalk
      · by_cases hmem : c ∈ l ++ [a]
        · exact hclear.cleared c hmem
        · rw [hclear.others c hmem, setOndiskAddr_addr, if_pos]
          exact (List.mem_cons.1 hc).resolve_right hmem
      · rw [hclear.others c (List.not_mem_of_not_mem_cons hc), setOndiskAddr_addr,
          if_neg (List.ne_of_not_mem_cons hc)]

/-- What `recycle_blocks` leaves of a chain that ends in `a`. -/
structure Spliced (fs fs' : FsState) (l : List Nat) (a : Nat) : Prop where
  free_head : fs'.freeHead = some a
  last : fs'.nextBlock a = fs.freeHead
  links : ∀ b, b ≠ a → fs'.nextBlock b = fs.nextBlock b
  entries : fs'.fentry = fs.fentry
  file_list : fs'.fentryHead = fs.fentryHead
  cleared : ∀ b ∈ l, (fs'.dbTable b).ondiskAddr = 0
  others : ∀ b, b ∉ l → (fs'.dbTable b).ondiskAddr = (fs.dbTable b).ondiskAddr

theorem recycleBlocks_spec {fs : FsState} {p : Option Nat} {a : Nat} {l : List Nat}
    (h : Chain fs.nextBlock p (l ++ [a])) (hin : ∀ b ∈ l ++ [a], b < NBLOCKS) :
    ∃ fs', recycleBlocks fs p = .ok fs' ∧ Spliced fs fs' (l ++ [a]) a := by
  obtain ⟨x, rfl⟩ : ∃ x, p = some x := by
    have hhead := Chain.head_eq h
    cases l with
    | nil => exact ⟨a, hhead⟩
    | cons c l => exact ⟨c, hhead⟩
  have hlen : l.length < walkFuel := by
    have hle : (l ++ [a]).length ≤ NBLOCKS := nodup_length_le h.nodup hin
    rw [nblocks_eq] at hle
    unfold walkFuel
    simp only [List.length_append, List.length_singleton] at hle
    omega
  obtain ⟨fs', hwalk, hclear⟩ := recycleWalk_spec h hlen
  refine ⟨{ fs'.setNextBlock a fs'.freeHead with freeHead := some a }, ?_, rfl, ?_, fun b hb => ?_,
    hclear.entries, hclear.file_list, fun b hb => ?_, fun b hb => ?_⟩
  · unfold recycleBlocks
    dsimp only
    rw [hwalk]
    rfl
  · rw [← hclear.free_head]
    exact setNextBlock_same fs' a fs'.freeHead
  · rw [← hclear.links]
    exact setNextBlock_ne fs' fs'.freeHead hb
  · exact (setNextBlock_addr fs' a b fs'.freeHead).trans (hclear.cleared b hb)
  · exact (setNextBlock_addr fs' a b fs'.freeHead).trans (hclear.others b hb)

/-! ## The entry -/

/-- The store that takes the entry behind `px` off the list. -/
def unlinkEntry (fs : FsState) (x : Nat) : Option Nat → FsState
  | some px => fs.setEntry px { fs.fentry px with nextEntry := fs.nextEntry x }
  | none => fs

theorem unlinkEntry_entry (fs : FsState) (x : Nat) (px : Option Nat) (y : Nat) :
    ∃ q, (unlinkEntry fs x px).fentry y = { fs.fentry y with nextEntry := q } := by
  cases px with
  | none => exact ⟨_, rfl⟩
  | some p =>
      by_cases hy : y = p
      · rw [hy]
        exact ⟨fs.nextEntry x, if_pos rfl⟩
      · exact ⟨_, if_neg hy⟩

theorem unlinkEntry_firstBlock (fs : FsState) (x : Nat) (px : Option Nat) :
    (unlinkEntry fs x px).firstBlock = fs.firstBlock := by
  funext y
  obtain ⟨q, hq⟩ := unlinkEntry_entry fs x px y
  unfold FsState.firstBlock
  rw [hq]

theorem unlinkEntry_dbTable (fs : FsState) (x : Nat) (px : Option Nat) :
    (unlinkEntry fs x px).dbTable = fs.dbTable := by
  cases px <;> rfl

theorem unlinkEntry_nextBlock (fs : FsState) (x : Nat) (px : Option Nat) :
    (unlinkEntry fs x px).nextBlock = fs.nextBlock := by
  cases px <;> rfl

theorem unlinkEntry_freeHead (fs : FsState) (x : Nat) (px : Option Nat) :
    (unlinkEntry fs x px).freeHead = fs.freeHead := by
  cases px <;> rfl

theorem unlinkEntry_fentryHead (fs : FsState) (x : Nat) (px : Option Nat) :
    (unlinkEntry fs x px).fentryHead = fs.fentryHead := by
  cases px <;> rfl

theorem unlinkEntry_chain {fs : FsState} {l₁ l₂ : List Nat} {p x : Nat}
    (h : Chain fs.nextEntry fs.fentryHead (l₁ ++ p :: x :: l₂)) :
    Chain (unlinkEntry fs x (some p)).nextEntry (unlinkEntry fs x (some p)).fentryHead
      (l₁ ++ p :: l₂) := by
  have hnodup := h.nodup
  have hp : ∀ c ∈ l₁ ++ l₂, c ≠ p := by
    intro c hc hcp
    have hsub : (p :: (l₁ ++ l₂)).Sublist (p :: (l₁ ++ x :: l₂)) :=
      ((List.sublist_cons_self x l₂).append_left l₁).cons_cons p
    have hn := (List.perm_middle.nodup_iff.1 hnodup).sublist hsub
    exact (List.nodup_cons.1 hn).1 (hcp ▸ hc)
  refine Chain.unlink h ?_ fun c hc => ?_
  · have hself : (unlinkEntry fs x (some p)).fentry p =
        { fs.fentry p with nextEntry := fs.nextEntry x } := if_pos rfl
    show ((unlinkEntry fs x (some p)).fentry p).nextEntry = fs.nextEntry x
    rw [hself]
  · have hother : (unlinkEntry fs x (some p)).fentry c = fs.fentry c := if_neg (hp c hc)
    exact congrArg Fentry.nextEntry hother

theorem bind_ok_map {α β : Type} (r : Res α) (f : α → β) :
    (r >>= fun a => (.ok (f a) : Res β)) = r.map f := by
  cases r <;> rfl

theorem recycleFile_refuses {fs fs' : FsState} {pid index : Nat} {c : Int}
    (hrun : recycleFile fs pid index = .ok (c, fs')) (hc : c ≠ 0) : fs' = fs := by
  unfold recycleFile at hrun
  obtain ⟨⟨px, x⟩, -, hrun⟩ := Res.bind_eq_ok.1 hrun
  cases x with
  | none => exact (Prod.mk.inj (Except.ok.inj hrun)).2.symm
  | some x =>
      dsimp only at hrun
      by_cases hheld : fs.heldByOther x pid
      · rw [if_pos hheld] at hrun
        exact (Prod.mk.inj (Except.ok.inj hrun)).2.symm
      · rw [if_neg hheld] at hrun
        obtain ⟨fs₁, -, hrun⟩ := Res.bind_eq_ok.1 hrun
        exact absurd (Prod.mk.inj (Except.ok.inj hrun)).1.symm hc

namespace Tidy

variable {fs : FsState} {files free : List Nat} {chain : Nat → List Nat} {pid index x : Nat}

/-- A file that the process may delete is found with the entry in front of it. -/
theorem recycleFile_eq (h : Tidy fs files free chain) (hx : x ∈ files)
    (hidx : fs.indexNumber x = index) (hheld : ¬ fs.heldByOther x pid) :
    ∃ l₁ l₂, files = l₁ ++ x :: l₂ ∧ recycleFile fs pid index =
      (recycleBlocks (unlinkEntry fs x l₁.getLast?) (fs.firstBlock x)).map fun fs' => (0, fs') := by
  obtain ⟨l₁, l₂, rfl, h₁, h₂, hscan⟩ := @scan_chain Nat fs.nextEntry
    (fun x => decide (fs.indexNumber x = index)) walkFuel none fs.fentryHead files h.listed.file_list
    h.listed.length_lt
  cases l₂ with
  | nil => exact absurd hidx (of_decide_eq_false (h₁ x (by simpa using hx)))
  | cons y l₂ =>
      have hy : fs.indexNumber y = index := of_decide_eq_true (h₂ y rfl)
      obtain rfl : x = y := List.inj_on_of_nodup_map h.unique hx (by simp) (hidx.trans hy.symm)
      refine ⟨l₁, l₂, rfl, ?_⟩
      unfold recycleFile
      rw [hscan, Option.or_none, Res.ofFuel_some, Res.ok_bind]
      dsimp only [List.head?_cons]
      rw [if_neg hheld]
      rw [← unlinkEntry_firstBlock fs x l₁.getLast?]
      cases l₁.getLast? with
      | none => exact bind_ok_map _ _
      | some px => exact bind_ok_map _ _

theorem not_free (h : Tidy fs files free chain) {b : Nat} (hx : x ∈ files) (hb : b ∈ chain x) :
    b ∉ free := fun hc =>
  (List.nodup_append.1 h.once).2.2 b hc b (mem_flatMap_of_mem hx hb) rfl

theorem apart (h : Tidy fs files free chain) {y b : Nat} (hx : x ∈ files) (hy : y ∈ files)
    (hne : y ≠ x) (hb : b ∈ chain x) : b ∉ chain y := by
  intro hc
  have hpw := (List.nodup_flatMap.1 (List.nodup_append.1 h.once).2.1).2
  have hsymm : Std.Symm fun x y => List.Disjoint (chain x) (chain y) := ⟨fun _ _ hd => hd.symm⟩
  exact hpw.forall hy hx hne hc hb

theorem recycleFile_blocks (h : Tidy fs files free chain) {l₁ l₂ l : List Nat} {a : Nat}
    (hfiles : files = l₁ ++ x :: l₂) (hl : chain x = l ++ [a]) :
    ∃ fs', recycleBlocks (unlinkEntry fs x l₁.getLast?) (fs.firstBlock x) = .ok fs' ∧
      Spliced (unlinkEntry fs x l₁.getLast?) fs' (l ++ [a]) a := by
  have hx : x ∈ files := by simp [hfiles]
  have hchain := h.chains x hx
  rw [hl] at hchain
  refine recycleBlocks_spec ?_ fun b hb => ?_
  · rw [unlinkEntry_nextBlock]
    exact hchain
  · exact h.inside b (List.mem_append_right _ (mem_flatMap_of_mem hx (hl ▸ hb)))

/-- The free list behind the call: only the last block of the file has come to it. -/
theorem spliced_free (h : Tidy fs files free chain) {fs' : FsState} {px : Option Nat} {l : List Nat}
    {a : Nat} (hx : x ∈ files) (hl : chain x = l ++ [a])
    (hs : Spliced (unlinkEntry fs x px) fs' (l ++ [a]) a) :
    Chain fs'.nextBlock fs'.freeHead (a :: free) := by
  refine ⟨hs.free_head, ?_⟩
  rw [hs.last, unlinkEntry_freeHead]
  refine Seg.congr h.free_list fun b hb => ?_
  have hne : b ≠ a := by
    intro hba
    exact h.not_free hx (b := a) (by simp [hl]) (hba ▸ hb)
  rw [hs.links b hne, unlinkEntry_nextBlock]

theorem deletes (h : Tidy fs files free chain) (hx : x ∈ files) (hidx : fs.indexNumber x = index)
    (hheld : ¬ fs.heldByOther x pid) (hr : Recyclable fs files chain x) :
    ∃ fs', recycleFile fs pid index = .ok (0, fs') ∧ Deleted fs fs' files free chain x := by
  obtain ⟨b, hb, haddr⟩ := hr.blank
  obtain ⟨l₁, l₂, hfiles, hcall⟩ := h.recycleFile_eq hx hidx hheld
  obtain ⟨fs', hblocks, hs⟩ := h.recycleFile_blocks (l := []) hfiles hb
  rw [hblocks] at hcall
  refine ⟨fs', hcall, ?_, ⟨b :: free, h.spliced_free hx hb hs, by rw [hb]; rfl⟩, fun c => ?_,
    fun y hy hne => ?_⟩
  · rcases List.eq_nil_or_concat l₁ with hnil | ⟨k, p, hk⟩
    · exact absurd (by rw [hfiles, hnil]; rfl) hr.behind
    · rw [List.concat_eq_append] at hk
      have hlast : l₁.getLast? = some p := by rw [hk, List.getLast?_concat]
      have hlist := h.listed.file_list
      rw [hfiles, hk, List.append_assoc, List.singleton_append] at hlist
      have hnodup := hlist.nodup
      have herase : files.erase x = k ++ p :: l₂ := by
        rw [hfiles, hk, List.append_assoc, List.singleton_append]
        rw [List.nodup_append] at hnodup
        have hnot : x ∉ k := fun hc => hnodup.2.2 x hc x (by simp) rfl
        have hpx : p ≠ x := fun hc => (List.nodup_cons.1 hnodup.2.1).1 (by simp [hc])
        rw [List.erase_append_right _ hnot, List.erase_cons_tail (by simpa using hpx),
          List.erase_cons_head]
      have hchain := unlinkEntry_chain hlist
      rw [← hlast] at hchain
      rw [herase, hs.file_list]
      have hnext : fs'.nextEntry = (unlinkEntry fs x l₁.getLast?).nextEntry := by
        funext y
        exact congrArg Fentry.nextEntry (congrFun hs.entries y)
      rw [hnext]
      exact hchain
  · by_cases hc : c = b
    · rw [hs.cleared c (by simp [hc]), hc, haddr]
    · rw [hs.others c (by simpa using hc), unlinkEntry_dbTable]
  · have hfirst : fs'.firstBlock = fs.firstBlock := by
      rw [← unlinkEntry_firstBlock fs x l₁.getLast?]
      funext y
      exact congrArg Fentry.firstBlock (congrFun hs.entries y)
    rw [hfirst]
    refine Seg.congr (h.chains y hy) fun c hc => ?_
    have hcb : c ≠ b := by
      intro hcb
      exact h.apart hx hy hne (b := b) (by simp [hb]) (hcb ▸ hc)
    rw [hs.links c hcb, unlinkEntry_nextBlock]

theorem recyclable (h : Tidy fs files free chain) (hx : x ∈ files) (hidx : fs.indexNumber x = index)
    (hheld : ¬ fs.heldByOther x pid) {fs' : FsState} (hrun : recycleFile fs pid index = .ok (0, fs'))
    (hd : Deleted fs fs' files free chain x) : Recyclable fs files chain x := by
  obtain ⟨l₁, l₂, hfiles, hcall⟩ := h.recycleFile_eq hx hidx hheld
  rw [hrun] at hcall
  rcases List.eq_nil_or_concat (chain x) with hnil | ⟨l, a, hl⟩
  · have hfirst := h.chains x hx
    rw [hnil] at hfirst
    rw [show fs.firstBlock x = none from hfirst] at hcall
    exact absurd hcall (by simp [recycleBlocks, Except.map])
  · rw [List.concat_eq_append] at hl
    obtain ⟨fs₁, hblocks, hs⟩ := h.recycleFile_blocks hfiles hl
    rw [hblocks] at hcall
    obtain rfl : fs' = fs₁ := (Prod.mk.inj (Except.ok.inj hcall)).2
    constructor
    · intro hhead
      -- the head of the list is still the entry
      have hstay : fs'.fentryHead = some x := by
        rw [hs.file_list, unlinkEntry_fentryHead, Chain.head_eq h.listed.file_list, hhead]
      have hmem : x ∈ files.erase x :=
        List.mem_of_mem_head? ((Chain.head_eq hd.unlinked).symm.trans hstay)
      exact (h.listed.file_list.nodup.not_mem_erase) hmem
    · obtain ⟨free', hfree', hperm⟩ := hd.freed
      have hsame := Chain.unique hfree' (h.spliced_free hx hl hs)
      have hlen := hperm.length_eq
      rw [hsame, hl, List.length_cons, List.length_append, List.length_append,
        List.length_singleton] at hlen
      have hnil : l = [] := List.length_eq_zero_iff.1 (by omega)
      subst hnil
      refine ⟨a, hl, ?_⟩
      rw [← hd.addresses a]
      exact hs.cleared a (by simp)

theorem recycles_iff (h : Tidy fs files free chain) : Recycles fs files free chain pid index ↔
    ∀ x ∈ files, fs.indexNumber x = index → ¬ fs.heldByOther x pid →
      Recyclable fs files chain x := by
  constructor
  · intro hr x hx hidx hheld
    obtain ⟨fs', hrun, hd⟩ := hr.deletes x hx hidx hheld
    exact h.recyclable hx hidx hheld hrun hd
  · intro hr
    exact ⟨fun x hx hidx hheld => h.deletes hx hidx hheld (hr x hx hidx hheld),
      fun c fs' hrun hc => recycleFile_refuses hrun hc⟩

end Tidy

/-- A file is deleted as it should be exactly where it is not the first one and has one block, whose
disk address is 0 already. -/
theorem recycle_file_iff {fs : FsState} {files free : List Nat} {chain : Nat → List Nat}
    (h : Tidy fs files free chain) (pid index : Nat) : Recycles fs files free chain pid index ↔
    ∀ x ∈ files, fs.indexNumber x = index → ¬ fs.heldByOther x pid →
      Recyclable fs files chain x := h.recycles_iff

/-- With the disk addresses of `build_fs` no file is deleted as it should be. -/
theorem Owned.not_recycles {fs : FsState} {files free : List Nat} {chain : Nat → List Nat}
    {pid x : Nat} (h : Owned fs files free chain) (hnum : Numbered fs files) (hx : x ∈ files)
    (hheld : ¬ fs.heldByOther x pid) : ¬ Recycles fs files free chain pid (fs.indexNumber x) := by
  intro hr
  obtain ⟨b, hb, haddr⟩ := ((h.tidy hnum).recycles_iff.1 hr x hx rfl hheld).blank
  rw [h.addr b (h.chain_lt hx (by simp [hb]))] at haddr
  unfold STORAGE_BASE at haddr
  omega

/-- Two files of one block each, whose blocks have been recycled before. -/
def FsState.twoFiles : FsState where
  dbTable := fun _ => { nextBlock := none, ondiskAddr := 0 }
  freeHead := some 2
  fentry := fun x =>
    if x = 4096 then
      { indexNumber := 1, fileName := fun _ => 0, firstBlock := some 0, nextEntry := some 8192
        occupied := MINUS_ONE }
    else
      { indexNumber := 2, fileName := fun _ => 0, firstBlock := some 1, nextEntry := none
        occupied := MINUS_ONE }
  fentryHead := some 4096

def FsState.twoFilesChain (x : Nat) : List Nat := if x = 4096 then [0] else [1]

theorem FsState.twoFiles_tidy : Tidy FsState.twoFiles [4096, 8192] [2] FsState.twoFilesChain :=
  ⟨⟨by decide, by decide⟩, by decide, by decide, by decide, by decide, by decide⟩

theorem recycle_file_iff_twoFiles :
    Recycles FsState.twoFiles [4096, 8192] [2] FsState.twoFilesChain 7 2 := by
  refine (recycle_file_iff FsState.twoFiles_tidy 7 2).2 fun x hx hidx _ => ?_
  rcases List.mem_cons.1 hx with rfl | hx
  · exact absurd hidx (by decide)
  · obtain rfl : x = 8192 := by simpa using hx
    exact ⟨by decide, 1, by decide, by decide⟩

/-- A process creates a file, appends blocks to it and deletes it. -/
theorem recycle_file_fails : ∃ (S : FsSystem) (files free : List Nat) (chain : Nat → List Nat),
    run FsSystem.step (FsSystem.init FsSystem.blank) FsSystem.sampleRun = some S ∧
    Tidy S.w.fs files free chain ∧ ¬ Recycles S.w.fs files free chain 7 1 := by
  obtain ⟨S, files, chain, hS, h, hx, -⟩ := sampleRun_readable
  obtain ⟨files', free, chain', hI⟩ := FsSystem.run_inv hS
  obtain rfl := Chain.unique h.listed.file_list hI.owned.file_list
  have hno := hI.owned.not_recycles hI.numbered hx.listed hx.free
  rw [hx.index] at hno
  exact ⟨S, files, free, chain', hS, hI.owned.tidy hI.numbered, hno⟩

end Aimv6.Fs
