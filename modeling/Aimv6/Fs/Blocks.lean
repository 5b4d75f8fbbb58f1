import Aimv6.Fs.FsManage
import Mathlib.Data.List.Perm.Basic
import Mathlib.Logic.Function.Basic

/-! # Who owns the blocks

Every block of the table is on the free list, in the chain of one file, or lost
to a failed append. `Owned` carries the free list and all chains together: they
end in `NULL`, and no block occurs twice over all of them. `data_alloc` cuts a
prefix off the free list and `append_file` joins it to one chain.
-/

namespace Aimv6.Fs

open Support

/-- The file list is `files`, of entries at nonzero words. -/
structure FileList (fs : FsState) (files : List Nat) : Prop where
  file_list : Chain fs.nextEntry fs.fentryHead files
  addresses : ∀ x ∈ files, 0 < x ∧ x < 4294967296

/-- The file list `files`, the free list `free` and the chain of every file. -/
structure Owned (fs : FsState) (files free : List Nat) (chain : Nat → List Nat) : Prop where
  file_list : Chain fs.nextEntry fs.fentryHead files
  addresses : ∀ x ∈ files, 0 < x ∧ x < 4294967296
  free_list : Chain fs.nextBlock fs.freeHead free
  chains : ∀ x ∈ files, Chain fs.nextBlock (fs.firstBlock x) (chain x)
  once : (free ++ files.flatMap chain).Nodup
  inside : ∀ b ∈ free ++ files.flatMap chain, b < NBLOCKS
  links : ∀ b < NBLOCKS, ∀ c ∈ fs.nextBlock b, c < NBLOCKS
  addr : ∀ i < NBLOCKS, (fs.dbTable i).ondiskAddr = STORAGE_BASE + 512 * i

/-- Files are counted from 1, without one number given twice. -/
structure Numbered (fs : FsState) (files : List Nat) : Prop where
  indices : (files.map fs.indexNumber).Nodup
  bounds : ∀ x ∈ files, 1 ≤ fs.indexNumber x ∧ fs.indexNumber x ≤ files.length

theorem nblocks_eq : NBLOCKS = 32768 := rfl

theorem mem_flatMap_of_mem {files : List Nat} {chain : Nat → List Nat} {x b : Nat} (hx : x ∈ files)
    (hb : b ∈ chain x) : b ∈ files.flatMap chain := List.mem_flatMap.2 ⟨x, hx, hb⟩

theorem flatMap_update_append {files pre : List Nat} {chain : Nat → List Nat} {x : Nat}
    (hnodup : files.Nodup) (hx : x ∈ files) :
    (files.flatMap (Function.update chain x (chain x ++ pre))).Perm
      (pre ++ files.flatMap chain) := by
  obtain ⟨f₁, f₂, rfl⟩ := List.append_of_mem hx
  obtain ⟨-, hx₂, hdis⟩ := List.nodup_append.1 hnodup
  have hsame : ∀ l : List Nat, x ∉ l →
      l.flatMap (Function.update chain x (chain x ++ pre)) = l.flatMap chain := by
    intro l hl
    refine List.flatMap_congr fun y hy => Function.update_of_ne (fun hc => hl ?_) _ _
    exact hc ▸ hy
  have h₁ : x ∉ f₁ := fun hc => hdis x hc x (by simp) rfl
  have h₂ : x ∉ f₂ := (List.nodup_cons.1 hx₂).1
  rw [List.flatMap_append, List.flatMap_append, List.flatMap_cons, List.flatMap_cons, hsame f₁ h₁,
    hsame f₂ h₂, Function.update_self]
  have hmove : ((f₁.flatMap chain ++ chain x) ++ (pre ++ f₂.flatMap chain)).Perm
      ((f₁.flatMap chain ++ chain x) ++ (f₂.flatMap chain ++ pre)) :=
    List.Perm.append_left _ List.perm_append_comm
  have hfront : ((f₁.flatMap chain ++ (chain x ++ f₂.flatMap chain)) ++ pre).Perm
      (pre ++ (f₁.flatMap chain ++ (chain x ++ f₂.flatMap chain))) := List.perm_append_comm
  simp only [List.append_assoc] at hmove hfront ⊢
  exact hmove.trans hfront

theorem find_congr {fs fs' : FsState} (hentry : fs'.fentry = fs.fentry)
    (hhead : fs'.fentryHead = fs.fentryHead) : fs'.find = fs.find := by
  funext stop
  unfold FsState.find FsState.nextEntry
  rw [hentry, hhead]

namespace FileList

variable {fs : FsState} {files : List Nat}

theorem length_lt (h : FileList fs files) : files.length < walkFuel :=
  h.file_list.length_lt (by decide) h.addresses

theorem find_spec (h : FileList fs files) (stop : Fentry → Bool) :
    ∃ l₁ l₂, files = l₁ ++ l₂ ∧ (∀ x ∈ l₁, stop (fs.fentry x) = false) ∧
      (∀ x ∈ l₂.head?, stop (fs.fentry x) = true) ∧ fs.find stop = .ok l₂.head? := by
  obtain ⟨l₁, l₂, heq, h₁, h₂, hscan⟩ := @scan_chain Nat fs.nextEntry
    (fun x => stop (fs.fentry x)) walkFuel none fs.fentryHead files h.file_list h.length_lt
  refine ⟨l₁, l₂, heq, h₁, h₂, ?_⟩
  unfold FsState.find
  rw [hscan]
  rfl

theorem findIndex_spec (h : FileList fs files) (index : Nat) :
    (∃ x ∈ files, fs.indexNumber x = index ∧ fs.findIndex index = .ok (some x)) ∨
      ((∀ x ∈ files, fs.indexNumber x ≠ index) ∧ fs.findIndex index = .ok none) := by
  obtain ⟨l₁, l₂, rfl, h₁, h₂, hfind⟩ := h.find_spec fun e => decide (e.indexNumber = index)
  cases l₂ with
  | nil =>
      refine Or.inr ⟨fun x hx => ?_, hfind⟩
      exact of_decide_eq_false (h₁ x (by simpa using hx))
  | cons x l₂ =>
      exact Or.inl ⟨x, by simp, of_decide_eq_true (h₂ x rfl), hfind⟩

end FileList

namespace Owned

variable {fs fs' : FsState} {files free : List Nat} {chain : Nat → List Nat}

theorem congr (h : Owned fs files free chain) (hdb : fs'.dbTable = fs.dbTable)
    (hfree : fs'.freeHead = fs.freeHead) (hhead : fs'.fentryHead = fs.fentryHead)
    (hnext : fs'.nextEntry = fs.nextEntry) (hfirst : fs'.firstBlock = fs.firstBlock) :
    Owned fs' files free chain where
  file_list := by
    rw [hnext, hhead]
    exact h.file_list
  addresses := h.addresses
  free_list := by
    have hb : fs'.nextBlock = fs.nextBlock := by
      funext b
      exact congrArg Datablock.nextBlock (congrFun hdb b)
    rw [hb, hfree]
    exact h.free_list
  chains := by
    have hb : fs'.nextBlock = fs.nextBlock := by
      funext b
      exact congrArg Datablock.nextBlock (congrFun hdb b)
    rw [hb, hfirst]
    exact h.chains
  once := h.once
  inside := h.inside
  links := by
    intro b hb c hc
    unfold FsState.nextBlock at hc
    rw [hdb] at hc
    exact h.links b hb c hc
  addr := by
    rw [hdb]
    exact h.addr

theorem files_nodup (h : Owned fs files free chain) : files.Nodup := h.file_list.nodup

theorem fileList (h : Owned fs files free chain) : FileList fs files := ⟨h.file_list, h.addresses⟩

theorem findIndex_spec (h : Owned fs files free chain) (index : Nat) :
    (∃ x ∈ files, fs.indexNumber x = index ∧ fs.findIndex index = .ok (some x)) ∨
      ((∀ x ∈ files, fs.indexNumber x ≠ index) ∧ fs.findIndex index = .ok none) :=
  h.fileList.findIndex_spec index

/-- A block of a chain is not on the free list, nor in the chain of another file. -/
theorem chain_block (h : Owned fs files free chain) {x b : Nat} (hx : x ∈ files)
    (hb : b ∈ chain x) : b ∉ free ∧ ∀ y ∈ files, b ∈ chain y → y = x := by
  have hn := List.nodup_append.1 h.once
  refine ⟨fun hc => hn.2.2 b hc b (mem_flatMap_of_mem hx hb) rfl, fun y hy hby => ?_⟩
  by_contra hne
  have hpw := (List.nodup_flatMap.1 hn.2.1).2
  have hsymm : Std.Symm fun x y => List.Disjoint (chain x) (chain y) :=
    ⟨fun _ _ hd => hd.symm⟩
  exact hpw.forall hy hx hne hby hb

theorem chain_lt (h : Owned fs files free chain) {x b : Nat} (hx : x ∈ files) (hb : b ∈ chain x) :
    b < NBLOCKS := h.inside b (List.mem_append_right _ (mem_flatMap_of_mem hx hb))

end Owned

namespace Numbered

variable {fs fs' : FsState} {files : List Nat}

theorem inj (h : Numbered fs files) {x y : Nat} (hx : x ∈ files) (hy : y ∈ files)
    (heq : fs.indexNumber x = fs.indexNumber y) : x = y :=
  List.inj_on_of_nodup_map h.indices hx hy heq

theorem congr (h : Numbered fs files) (hindex : fs'.indexNumber = fs.indexNumber) :
    Numbered fs' files where
  indices := by
    rw [hindex]
    exact h.indices
  bounds := by
    rw [hindex]
    exact h.bounds

end Numbered

/-! ## The steps of `data_alloc` and `append_file` -/

theorem allocWalk_spec {next : Nat → Option Nat} {x px : Option Nat} {l : List Nat}
    (h : Chain next x l) (n : Nat) : allocWalk next n x px =
      if n ≤ l.length then some ((l.drop n).head?, (l.take n).getLast?.or px) else none := by
  induction n generalizing x px l with
  | zero =>
      obtain rfl : x = l.head? := Chain.head_eq h
      simp [allocWalk]
  | succ n ih =>
      cases l with
      | nil =>
          obtain rfl : x = none := h
          simp [allocWalk]
      | cons a l =>
          obtain ⟨rfl, hl⟩ := h
          have hrec := @ih (next a) (some a) l hl
          by_cases hle : n ≤ l.length
          · rw [if_pos hle] at hrec
            rw [allocWalk, hrec, if_pos (by simpa using hle)]
            cases hl' : l.take n <;> simp [hl', List.getLast?_cons]
          · rw [if_neg hle] at hrec
            rw [allocWalk, hrec, if_neg (by simpa using hle)]

theorem lastBlock_spec {next : Nat → Option Nat} {fuel x : Nat} {l : List Nat} {a : Nat}
    (h : Chain next (some x) (l ++ [a])) (hf : l.length < fuel) :
    lastBlock next fuel x = some a := by
  induction l generalizing x fuel with
  | nil =>
      obtain ⟨fuel, rfl⟩ : ∃ k, fuel = k + 1 := ⟨fuel - 1, by omega⟩
      obtain ⟨hx, ha⟩ := h
      obtain rfl : x = a := Option.some.inj hx
      have hnone : next x = none := ha
      rw [lastBlock, hnone]
  | cons b l ih =>
      obtain ⟨fuel, rfl⟩ : ∃ k, fuel = k + 1 := ⟨fuel - 1, by simp at hf; omega⟩
      obtain ⟨hx, hl⟩ := h
      obtain rfl : x = b := Option.some.inj hx
      obtain ⟨y, hy⟩ : ∃ y, next x = some y := by
        have hhead := Chain.head_eq hl
        cases l with
        | nil => exact ⟨a, hhead⟩
        | cons c l => exact ⟨c, hhead⟩
      rw [hy] at hl
      rw [lastBlock, hy]
      exact ih hl (by simpa using hf)

theorem setNextBlock_same (fs : FsState) (b : Nat) (p : Option Nat) :
    (fs.setNextBlock b p).nextBlock b = p := by
  simp [FsState.nextBlock, FsState.setNextBlock]

theorem setNextBlock_ne (fs : FsState) {b c : Nat} (p : Option Nat) (h : c ≠ b) :
    (fs.setNextBlock b p).nextBlock c = fs.nextBlock c := by
  simp [FsState.nextBlock, FsState.setNextBlock, h]

theorem setNextBlock_addr (fs : FsState) (b c : Nat) (p : Option Nat) :
    ((fs.setNextBlock b p).dbTable c).ondiskAddr = (fs.dbTable c).ondiskAddr := by
  unfold FsState.setNextBlock
  dsimp only
  by_cases h : c = b
  · rw [if_pos h, h]
  · rw [if_neg h]

theorem setNextBlock_links {fs : FsState} (h : ∀ b < NBLOCKS, ∀ c ∈ fs.nextBlock b, c < NBLOCKS)
    {t : Nat} {p : Option Nat} (hp : ∀ c ∈ p, c < NBLOCKS) :
    ∀ b < NBLOCKS, ∀ c ∈ (fs.setNextBlock t p).nextBlock b, c < NBLOCKS := by
  intro b hb c hc
  by_cases hbt : b = t
  · subst hbt
    rw [setNextBlock_same] at hc
    exact hp c hc
  · rw [setNextBlock_ne fs p hbt] at hc
    exact h b hb c hc

namespace Owned

variable {fs : FsState} {files free : List Nat} {chain : Nat → List Nat}

/-- The free list cut behind the block `a`. -/
theorem cut_free {l₁ post : List Nat} {a : Nat} (h : Owned fs files ((l₁ ++ [a]) ++ post) chain) :
    Owned { fs.setNextBlock a none with freeHead := post.head? } files post chain ∧
      Chain (fs.setNextBlock a none).nextBlock fs.freeHead (l₁ ++ [a]) := by
  have honce := h.once
  have hne : ∀ b ∈ l₁ ++ post, b ≠ a := by
    intro b hb hba
    subst hba
    have hn := (List.nodup_append.1 honce).1
    rw [List.append_assoc, List.singleton_append] at hn
    exact (List.nodup_cons.1 (List.perm_middle.nodup_iff.1 hn)).1 hb
  have hfiles : ∀ x ∈ files, ∀ b ∈ chain x, b ≠ a := by
    intro x hx b hb hba
    exact (h.chain_block hx hb).1 (by simp [hba])
  have hfree := h.free_list
  rw [List.append_assoc, List.singleton_append] at hfree
  obtain ⟨hcut, -, hrest⟩ := Chain.cut hfree (setNextBlock_same fs a none)
    fun b hb => setNextBlock_ne fs none (hne b hb)
  refine ⟨⟨h.file_list, h.addresses, hrest, fun x hx => ?_, ?_, ?_,
    setNextBlock_links h.links (by simp), fun i hi => ?_⟩, hcut⟩
  · exact Seg.congr (h.chains x hx) fun b hb => setNextBlock_ne fs none (hfiles x hx b hb)
  · rw [List.append_assoc] at honce
    exact (List.nodup_append.1 honce).2.1
  · intro b hb
    refine h.inside b ?_
    rw [List.append_assoc]
    exact List.mem_append_right _ hb
  · exact (setNextBlock_addr fs a i none).trans (h.addr i hi)

/-- `data_alloc` cuts off the first blocks of the free list, or leaves everything as it is. -/
theorem dataAlloc_spec (h : Owned fs files free chain) (size : Int) :
    (∃ pre post p fs', free = (p :: pre) ++ post ∧ ((p :: pre).length : Int) = size ∧
      dataAlloc fs size = (some p, fs') ∧ Owned fs' files post chain ∧
      Chain fs'.nextBlock (some p) (p :: pre) ∧ fs'.fentry = fs.fentry ∧
      fs'.fentryHead = fs.fentryHead) ∨
    ((size ≤ 0 ∨ (free.length : Int) < size) ∧ dataAlloc fs size = (none, fs)) := by
  by_cases hpos : size ≤ 0
  · exact Or.inr ⟨Or.inl hpos, if_pos hpos⟩
  · have hwalk := @allocWalk_spec fs.nextBlock fs.freeHead none free h.free_list size.toNat
    by_cases hle : size.toNat ≤ free.length
    · rw [if_pos hle] at hwalk
      have hlen : (free.take size.toNat).length = size.toNat := List.length_take_of_le hle
      obtain ⟨post, hpost⟩ : ∃ post, post = free.drop size.toNat := ⟨_, rfl⟩
      have hsplit : free = free.take size.toNat ++ post := by
        rw [hpost, List.take_append_drop]
      rw [← hpost] at hwalk
      obtain ⟨first, hfirst⟩ : ∃ first, first = free.take size.toNat := ⟨_, rfl⟩
      rw [← hfirst] at hwalk hlen hsplit
      rcases List.eq_nil_or_concat first with rfl | ⟨l₁, a, rfl⟩
      · rw [List.length_nil] at hlen
        omega
      · rw [List.concat_eq_append] at hwalk hlen hsplit
        subst hsplit
        obtain ⟨howned, hcut⟩ := h.cut_free
        obtain ⟨p, pre, hpre⟩ := List.exists_cons_of_ne_nil
          (List.append_ne_nil_of_right_ne_nil l₁ (List.cons_ne_nil a []))
        have hhead : fs.freeHead = some p := by
          rw [Chain.head_eq hcut, hpre, List.head?_cons]
        simp only [List.getLast?_append, List.getLast?_singleton, Option.some_or] at hwalk
        refine Or.inl ⟨pre, post, p, { fs.setNextBlock a none with freeHead := post.head? },
          by rw [hpre], ?_, ?_, howned, ?_, rfl, rfl⟩
        · rw [← hpre, hlen]
          omega
        · unfold dataAlloc
          rw [if_neg hpos, hwalk, hhead]
        · rw [← hpre, ← hhead]
          exact hcut
    · rw [if_neg hle] at hwalk
      refine Or.inr ⟨Or.inr (by omega), ?_⟩
      unfold dataAlloc
      rw [if_neg hpos, hwalk]

/-- The blocks of the free list and of the chains, with `pre` joined to the chain of `x`. -/
theorem link_blocks (h : Owned fs files free chain) {x : Nat} {pre : List Nat} (hx : x ∈ files) :
    (free ++ files.flatMap (Function.update chain x (chain x ++ pre))).Perm
      (pre ++ (free ++ files.flatMap chain)) := by
  have hperm := @flatMap_update_append files pre chain x h.files_nodup hx
  refine (List.Perm.append_left free hperm).trans ?_
  rw [← List.append_assoc, ← List.append_assoc]
  exact List.Perm.append_right _ List.perm_append_comm

section Link

variable {x p : Nat} {pre : List Nat}

theorem link_first (h : Owned fs files free chain) (hx : x ∈ files) (hnil : chain x = [])
    (hpre : Chain fs.nextBlock (some p) pre)
    (hfresh : (pre ++ (free ++ files.flatMap chain)).Nodup) (hin : ∀ b ∈ pre, b < NBLOCKS) :
    Owned (fs.setFirstBlock x (some p)) files free (Function.update chain x (chain x ++ pre)) := by
  have hall := @link_blocks fs files free chain h x pre hx
  refine ⟨?_, h.addresses, h.free_list, fun y hy => ?_, hall.nodup_iff.2 hfresh, fun b hb => ?_,
    h.links, h.addr⟩
  · refine Seg.congr h.file_list fun y _ => ?_
    by_cases hyx : y = x <;> simp [FsState.nextEntry, FsState.setFirstBlock, FsState.setEntry, hyx]
  · by_cases hyx : y = x
    · subst hyx
      have hset : (fs.setFirstBlock y (some p)).firstBlock y = some p := by
        simp [FsState.firstBlock, FsState.setFirstBlock, FsState.setEntry]
      rw [Function.update_self, hnil, List.nil_append, hset]
      exact hpre
    · have hset : (fs.setFirstBlock x (some p)).firstBlock y = fs.firstBlock y := by
        simp [FsState.firstBlock, FsState.setFirstBlock, FsState.setEntry, hyx]
      rw [Function.update_of_ne hyx, hset]
      exact h.chains y hy
  · rcases List.mem_append.1 (hall.mem_iff.1 hb) with hb | hb
    · exact hin b hb
    · exact h.inside b hb

theorem link_last (h : Owned fs files free chain) {l : List Nat} {t : Nat} (hx : x ∈ files)
    (hl : chain x = l ++ [t]) (hpre : Chain fs.nextBlock (some p) pre)
    (hfresh : (pre ++ (free ++ files.flatMap chain)).Nodup) (hin : ∀ b ∈ pre, b < NBLOCKS) :
    Owned (fs.setNextBlock t (some p)) files free (Function.update chain x (chain x ++ pre)) ∧
      Chain (fs.setNextBlock t (some p)).nextBlock (some p) pre := by
  have hall := @link_blocks fs files free chain h x pre hx
  have htx : t ∈ chain x := by simp [hl]
  have hchain := h.chains x hx
  rw [hl] at hchain
  have hpret : ∀ b ∈ pre, b ≠ t := fun b hb hbt => (List.nodup_append.1 hfresh).2.2 b hb t
    (List.mem_append_right _ (mem_flatMap_of_mem hx htx)) hbt
  have hlt : ∀ b ∈ l, b ≠ t := by
    intro b hb hbt
    exact (List.nodup_append.1 hchain.nodup).2.2 b hb t (by simp) hbt
  have hstep : ∀ b, b ≠ t → (fs.setNextBlock t (some p)).nextBlock b = fs.nextBlock b :=
    fun b hb => setNextBlock_ne fs (some p) hb
  refine ⟨⟨h.file_list, h.addresses, ?_, fun y hy => ?_, hall.nodup_iff.2 hfresh, fun b hb => ?_,
    setNextBlock_links h.links ?_, fun i hi => ?_⟩, Seg.congr hpre fun b hb => hstep b (hpret b hb)⟩
  · refine Seg.congr h.free_list fun b hb => hstep b ?_
    rintro rfl
    exact (h.chain_block hx htx).1 hb
  · by_cases hyx : y = x
    · subst hyx
      rw [Function.update_self, hl, List.append_assoc, List.singleton_append]
      refine Chain.join hchain hpre (setNextBlock_same fs t (some p)) fun b hb => hstep b ?_
      rcases List.mem_append.1 hb with hb | hb
      · exact hlt b hb
      · exact hpret b hb
    · rw [Function.update_of_ne hyx]
      refine Seg.congr (h.chains y hy) fun b hb => hstep b ?_
      rintro rfl
      exact hyx ((h.chain_block hx htx).2 y hy hb)
  · rcases List.mem_append.1 (hall.mem_iff.1 hb) with hb | hb
    · exact hin b hb
    · exact h.inside b hb
  · intro c hc
    have hhead := Chain.head_eq hpre
    rw [Option.mem_def.1 hc] at hhead
    exact hin c (List.mem_of_mem_head? hhead.symm)
  · exact (setNextBlock_addr fs t i (some p)).trans (h.addr i hi)

theorem linkBlocks_last (h : Owned fs files free chain) {l : List Nat} {t : Nat} (hx : x ∈ files)
    (hl : chain x = l ++ [t]) : linkBlocks fs x p = .ok (fs.setNextBlock t (some p)) := by
  have hchain := h.chains x hx
  rw [hl] at hchain
  obtain ⟨pt, hpt⟩ : ∃ pt, fs.firstBlock x = some pt := by
    have hhead := Chain.head_eq hchain
    cases l with
    | nil => exact ⟨t, hhead⟩
    | cons c l => exact ⟨c, hhead⟩
  have hlen : l.length < walkFuel := by
    have hle : (l ++ [t]).length ≤ NBLOCKS :=
      nodup_length_le hchain.nodup fun b hb => h.chain_lt hx (hl ▸ hb)
    rw [nblocks_eq] at hle
    unfold walkFuel
    simp only [List.length_append, List.length_singleton] at hle
    omega
  rw [hpt] at hchain
  unfold linkBlocks
  rw [hpt]
  dsimp only
  rw [lastBlock_spec hchain hlen]
  rfl

/-- Joining a chain of blocks that nothing owns to the chain of the file `x`. -/
theorem link (h : Owned fs files free chain) (hx : x ∈ files)
    (hpre : Chain fs.nextBlock (some p) pre)
    (hfresh : (pre ++ (free ++ files.flatMap chain)).Nodup) (hin : ∀ b ∈ pre, b < NBLOCKS) :
    ∃ fs', linkBlocks fs x p = .ok fs' ∧
      Owned fs' files free (Function.update chain x (chain x ++ pre)) ∧
      Chain fs'.nextBlock (some p) pre := by
  rcases List.eq_nil_or_concat (chain x) with hnil | ⟨l, t, hl⟩
  · have hfirst : fs.firstBlock x = none := by
      have hempty := h.chains x hx
      rw [hnil] at hempty
      exact hempty
    refine ⟨_, ?_, h.link_first hx hnil hpre hfresh hin, hpre⟩
    unfold linkBlocks
    rw [hfirst]
  · rw [List.concat_eq_append] at hl
    exact ⟨_, h.linkBlocks_last hx hl, h.link_last hx hl hpre hfresh hin⟩

end Link

end Owned

end Aimv6.Fs
