import Aimv6.Fs.FsRead
import Aimv6.Support.Runs

/-! # Runs of the file system

Processes create, open, close, append to and read files in any order, and the
kernel's memory changes between the calls. Beside the state a run keeps what the
successful appends to every descriptor were given.
-/

namespace Aimv6.Fs

open Support

inductive FsEvent where
  /-- `create_file_from_name(name, n)`; `answer` is the address that the slab allocator returns -/
  | create (name : Nat → UInt8) (n : Int) (answer : Option Nat)
  /-- `open_file(pid, index_number)` -/
  | openFile (pid index : Nat)
  /-- `close_file(pid, index_number)` -/
  | closeFile (pid index : Nat)
  /-- `append_file(pid, index_number, addr, size)` -/
  | append (pid index addr : Nat) (size : Int) (io : Nat → Int)
  /-- `read_datablock(pid, index_number, pos, size)`; `buf` is what `kmalloc` returns -/
  | read (pid index pos size buf : Nat) (io : Nat → Int)
  /-- anything else that the kernel and the processes store -/
  | memory (m : Memory)

structure FsSystem where
  w : World
  /-- what the successful appends to a descriptor were given, in order -/
  appended : Nat → List Block

/-- No file entry lies at the address `p`. -/
def FsState.unlisted (fs : FsState) (p : Nat) : Bool :=
  match scan fs.nextEntry (fun x => x == p) walkFuel none fs.fentryHead with
  | some (_, none) => true
  | _ => false

/-- The slab allocator answers with a nonzero word that is not in use. -/
def FsState.freshAnswer (fs : FsState) : Option Nat → Bool
  | none => true
  | some p => decide (0 < p ∧ p < 4294967296) && fs.unlisted p

namespace FsSystem

def call (S : FsSystem) : FsEvent → Option (Int × FsSystem)
  | .create name n answer =>
      if 0 ≤ n ∧ n ≤ 9 ∧ S.w.fs.freshAnswer answer = true then
        (createFileFromName S.w.fs name n answer).toOption.map fun r =>
          (r.1, { S with w := { S.w with fs := r.2 } })
      else none
  | .openFile pid index =>
      (openFile S.w.fs pid index).toOption.map fun r =>
        (r.1, { S with w := { S.w with fs := r.2 } })
  | .closeFile pid index =>
      (closeFile S.w.fs pid index).toOption.map fun r =>
        (r.1, { S with w := { S.w with fs := r.2 } })
  | .append pid index addr size io =>
      (appendFile S.w pid index addr size io).toOption.map fun r =>
        (r.1, ⟨r.2, if r.1 = 0 then
          Function.update S.appended index
            (S.appended index ++ bufferBlocks S.w.mem addr size.toNat)
          else S.appended⟩)
  | .read pid index pos size buf io =>
      (readDatablock S.w pid index pos size buf io).toOption.map fun r =>
        (ptrVal r.1, { S with w := r.2 })
  | .memory m => some (0, { S with w := { S.w with mem := m } })

def step (S : FsSystem) (e : FsEvent) : Option FsSystem := (S.call e).map Prod.snd

/-- The state behind `build_fs()`. -/
def init (w : World) : FsSystem := ⟨{ w with fs := buildFs w.fs }, fun _ => []⟩

/-- What one call can do to the files that exist. -/
structure Effect (S : FsSystem) (e : FsEvent) (S' : FsSystem) (files files' : List Nat)
    (chain chain' : Nat → List Nat) : Prop where
  listed : ∀ x ∈ files, x ∈ files'
  index : ∀ x ∈ files, S'.w.fs.indexNumber x = S.w.fs.indexNumber x
  occupied : ∀ x ∈ files, S'.w.fs.occupied x = S.w.fs.occupied x ∨
    ∃ pid, ¬ S.w.fs.heldByOther x pid ∧
      (e = .openFile pid (S.w.fs.indexNumber x) ∧ S'.w.fs.occupied x = pid ∨
        e = .closeFile pid (S.w.fs.indexNumber x) ∧ S'.w.fs.occupied x = MINUS_ONE)
  blocks : ∀ x ∈ files, chain' x = chain x ∨
    ∃ pid addr size io, e = .append pid (S.w.fs.indexNumber x) addr size io ∧
      ¬ S.w.fs.heldByOther x pid

/-- The blocks are owned, and every chain holds what was appended to its file. -/
structure Inv (S : FsSystem) (files free : List Nat) (chain : Nat → List Nat) : Prop where
  owned : Owned S.w.fs files free chain
  numbered : Numbered S.w.fs files
  contents : ∀ x ∈ files,
    (chain x).map (fun b => S.w.disk (sector b)) = S.appended (S.w.fs.indexNumber x)
  absent : ∀ f, (∀ x ∈ files, S.w.fs.indexNumber x ≠ f) → S.appended f = []

end FsSystem

/-! ## `build_fs` -/

theorem owned_buildFs (fs : FsState) (chain : Nat → List Nat) :
    Owned (buildFs fs) [] (List.range' 0 NBLOCKS) chain := by
  have hblock : ∀ i < NBLOCKS, (buildFs fs).dbTable i =
      { ondiskAddr := add32 STORAGE_BASE (i <<< 9)
        nextBlock := if i + 1 = NBLOCKS then none else some (i + 1) } := fun i hi => if_pos hi
  have hnext : ∀ i < NBLOCKS, (buildFs fs).nextBlock i =
      if i + 1 = NBLOCKS then none else some (i + 1) := fun i hi =>
    congrArg Datablock.nextBlock (hblock i hi)
  have hfree := @chain_range' Nat (buildFs fs).nextBlock (fun i => i) NBLOCKS hnext NBLOCKS 0
    (Nat.zero_add _)
  rw [if_neg (by decide), List.map_id'] at hfree
  refine ⟨rfl, by simp, hfree, by simp, ?_, ?_, fun b hb c hc => ?_, fun i hi => ?_⟩
  · simpa using List.nodup_range'
  · intro b hb
    rw [List.flatMap_nil, List.append_nil, List.mem_range'_1] at hb
    omega
  · rw [hnext b hb] at hc
    split at hc
    · simp at hc
    · obtain rfl := Option.mem_some.1 hc
      omega
  · rw [hblock i hi]
    show add32 STORAGE_BASE (i <<< 9) = STORAGE_BASE + 512 * i
    rw [nblocks_eq] at hi
    rw [Nat.shiftLeft_eq, show (2 : Nat) ^ 9 = 512 from rfl, Nat.mul_comm]
    unfold STORAGE_BASE
    exact add32_of_lt (by omega)

namespace FsSystem

theorem init_inv (w : World) : ∃ files free chain, (init w).Inv files free chain :=
  ⟨[], List.range' 0 NBLOCKS, fun _ => [], owned_buildFs w.fs _, ⟨by simp, by simp⟩, by simp,
    fun _ _ => rfl⟩

variable {S S' : FsSystem} {files free : List Nat} {chain : Nat → List Nat}

/-! ## Steps -/

theorem Effect.refl (e : FsEvent) (S' : FsSystem) (hentry : S'.w.fs.fentry = S.w.fs.fentry) :
    S.Effect e S' files files chain chain where
  listed := fun _ hx => hx
  index := fun x _ => congrArg Fentry.indexNumber (congrFun hentry x)
  occupied := fun x _ => Or.inl (congrArg Fentry.occupied (congrFun hentry x))
  blocks := fun _ _ => Or.inl rfl

theorem Inv.setOccupied (h : S.Inv files free chain) (x pid : Nat) :
    Inv { S with w := { S.w with fs := S.w.fs.setOccupied x pid } } files free chain := by
  have hidx := setOccupied_index S.w.fs x pid
  refine ⟨h.owned.setOccupied x pid, h.numbered.congr hidx, fun y hy => ?_, fun f hf => ?_⟩
  · show _ = S.appended ((S.w.fs.setOccupied x pid).indexNumber y)
    rw [hidx]
    exact h.contents y hy
  · refine h.absent f fun y hy => ?_
    rw [← hidx]
    exact hf y hy

theorem Effect.setOccupied {e : FsEvent} {x pid o : Nat} (hheld : ¬ S.w.fs.heldByOther x pid)
    (he : e = .openFile pid (S.w.fs.indexNumber x) ∧ o = pid ∨
      e = .closeFile pid (S.w.fs.indexNumber x) ∧ o = MINUS_ONE) :
    S.Effect e { S with w := { S.w with fs := S.w.fs.setOccupied x o } } files files chain chain where
  listed := fun _ hx => hx
  index := fun y _ => congrFun (setOccupied_index S.w.fs x o) y
  occupied := by
    intro y _
    by_cases hyx : y = x
    · subst hyx
      exact Or.inr ⟨pid, hheld, he.imp
        (fun h => ⟨h.1, (setOccupied_same S.w.fs y o).trans h.2⟩)
        fun h => ⟨h.1, (setOccupied_same S.w.fs y o).trans h.2⟩⟩
    · exact Or.inl (setOccupied_ne S.w.fs o hyx)
  blocks := fun _ _ => Or.inl rfl

/-- Opening and closing. -/
theorem Inv.occupy (h : S.Inv files free chain) {e : FsEvent} {pid index o : Nat} {c : Int}
    {fs' : FsState} (he : e = .openFile pid index ∧ o = pid ∨ e = .closeFile pid index ∧ o = MINUS_ONE)
    (hrun : S.w.fs.occupy pid index o = .ok (c, fs')) :
    Inv { S with w := { S.w with fs := fs' } } files free chain ∧
      S.Effect e { S with w := { S.w with fs := fs' } } files files chain chain := by
  rcases h.owned.occupy_spec pid index o with hfound | hnone
  · obtain ⟨x, hx, hidx, hspec⟩ := hfound
    rw [hspec] at hrun
    split at hrun
    case isTrue =>
      obtain ⟨-, rfl⟩ := Prod.mk.inj (Except.ok.inj hrun)
      exact ⟨h, Effect.refl _ _ rfl⟩
    case isFalse hheld =>
      obtain ⟨-, rfl⟩ := Prod.mk.inj (Except.ok.inj hrun)
      rw [← hidx] at he
      exact ⟨h.setOccupied x o, Effect.setOccupied hheld he⟩
  · rw [hnone.2] at hrun
    obtain ⟨-, rfl⟩ := Prod.mk.inj (Except.ok.inj hrun)
    exact ⟨h, Effect.refl _ _ rfl⟩

theorem unlisted_spec {fs : FsState} (h : FileList fs files) {p : Nat} :
    fs.unlisted p = true ↔ p ∉ files := by
  obtain ⟨l₁, l₂, rfl, h₁, h₂, hscan⟩ := @scan_chain Nat fs.nextEntry (fun x => x == p) walkFuel none
    fs.fentryHead files h.file_list h.length_lt
  unfold FsState.unlisted
  rw [hscan]
  have hleft : p ∉ l₁ := fun hc => by simpa using h₁ p hc
  cases l₂ with
  | nil => simpa using hleft
  | cons x l₂ =>
      have hx : x = p := by simpa using h₂ x rfl
      simp [hx]

theorem freshAnswer_spec {fs : FsState} (h : FileList fs files) {p : Nat}
    (hp : fs.freshAnswer (some p) = true) : (0 < p ∧ p < 4294967296) ∧ p ∉ files := by
  obtain ⟨h₁, h₂⟩ := Bool.and_eq_true_iff.1 hp
  exact ⟨of_decide_eq_true h₁, (unlisted_spec h).1 h₂⟩

theorem Inv.create (h : S.Inv files free chain) {p fd : Nat} {n : Int} (hn : 0 ≤ n) (e : FsEvent)
    (hp : p ∉ files) (hbounds : 0 < p ∧ p < 4294967296)
    (hfd : unusedFd S.w.fs walkFuel 1 = .ok fd) {S' : FsSystem}
    (hS' : S' = { S with w := { S.w with
      fs := { S.w.fs.setEntry p (newEntry S.w.fs p fd n) with fentryHead := some p } } }) :
    S'.Inv (p :: files) free (Function.update chain p []) ∧
      S.Effect e S' files (p :: files) chain (Function.update chain p []) := by
  subst hS'
  obtain ⟨-, hnew, -⟩ := h.owned.fileList.unusedFd_spec hfd
  have hself : (S.w.fs.setEntry p (newEntry S.w.fs p fd n)).indexNumber p = fd :=
    (congrArg Fentry.indexNumber (newEntry_self S.w.fs p fd n)).trans (storedNumber_of_nonneg hn)
  have hne : ∀ y ∈ files, y ≠ p := by
    rintro y hy rfl
    exact hp hy
  have hold := newEntry_others hp S.w.fs fd n
  have hidx : ∀ y ∈ files,
      (S.w.fs.setEntry p (newEntry S.w.fs p fd n)).indexNumber y = S.w.fs.indexNumber y :=
    fun y hy => congrArg Fentry.indexNumber (hold y hy)
  refine ⟨⟨h.owned.create hp hbounds, h.numbered.create h.owned.fileList hn hp hfd,
    fun y hy => ?_, fun f hf => ?_⟩,
    fun y hy => List.mem_cons_of_mem p hy, hidx,
    fun y hy => Or.inl (congrArg Fentry.occupied (hold y hy)),
    fun y hy => Or.inl (Function.update_of_ne (hne y hy) _ _)⟩
  · show _ = S.appended ((S.w.fs.setEntry p (newEntry S.w.fs p fd n)).indexNumber y)
    rcases List.mem_cons.1 hy with rfl | hy
    · rw [Function.update_self, hself, h.absent fd hnew]
      rfl
    · rw [Function.update_of_ne (hne y hy), hidx y hy]
      exact h.contents y hy
  · refine h.absent f fun y hy => ?_
    rw [← hidx y hy]
    exact hf y (List.mem_cons_of_mem p hy)

/-- Stores in the sectors of free blocks change no block of a file. -/
theorem Inv.chain_kept (h : S.Inv files free chain) {pre post : List Nat} {disk : Nat → Block}
    (hfree : free = pre ++ post)
    (hold : ∀ a, (∀ b ∈ pre, a ≠ sector b) → disk a = S.w.disk a) {y : Nat} (hy : y ∈ files) :
    (chain y).map (fun b => disk (sector b)) = (chain y).map fun b => S.w.disk (sector b) := by
  refine List.map_congr_left fun b hb => hold _ fun b' hb' heq => ?_
  rw [sector_eq, sector_eq] at heq
  obtain rfl : b = b' := by omega
  exact (h.owned.chain_block hy hb).1 (hfree ▸ List.mem_append_left _ hb')

theorem Inv.append (h : S.Inv files free chain) {pid index addr : Nat} {size c : Int}
    {io : Nat → Int} {w' : World} (hrun : appendFile S.w pid index addr size io = .ok (c, w'))
    {S' : FsSystem} (hS' : S' = ⟨w', if c = 0 then Function.update S.appended index
      (S.appended index ++ bufferBlocks S.w.mem addr size.toNat) else S.appended⟩) :
    ∃ free' chain', S'.Inv files free' chain' ∧
      S.Effect (.append pid index addr size io) S' files files chain chain' := by
  subst hS'
  rcases h.owned.appendFile_cases hrun with hfail | hdone
  · obtain ⟨hc, -, hdisk, hentry, -, free', hown⟩ := hfail
    have hidx : w'.fs.indexNumber = S.w.fs.indexNumber := by
      funext y
      exact congrArg Fentry.indexNumber (congrFun hentry y)
    rw [if_neg (by omega)]
    refine ⟨free', chain, ⟨hown, h.numbered.congr hidx, fun y hy => ?_, fun f hf => ?_⟩,
      Effect.refl _ _ hentry⟩
    · show _ = S.appended (w'.fs.indexNumber y)
      rw [hidx, ← h.contents y hy]
      show (chain y).map (fun b => w'.disk (sector b)) = _
      rw [hdisk]
    · refine h.absent f fun y hy => ?_
      rw [← hidx]
      exact hf y hy
  · obtain ⟨hc, -, x, pre, post, hx, hindex, hheld, hfree, -, hown, hentry, hold, hnew⟩ := hdone
    have hidx : w'.fs.indexNumber = S.w.fs.indexNumber := by
      funext y
      obtain ⟨q, hq⟩ := hentry y
      unfold FsState.indexNumber
      rw [hq]
    rw [if_pos hc]
    refine ⟨post, _, ⟨hown, h.numbered.congr hidx, fun y hy => ?_, fun f hf => ?_⟩,
      fun _ hy => hy, fun y _ => congrFun hidx y, fun y _ => Or.inl ?_, fun y hy => ?_⟩
    · show _ = Function.update S.appended index _ (w'.fs.indexNumber y)
      rw [hidx]
      by_cases hyx : y = x
      · subst hyx
        rw [Function.update_self, hindex, Function.update_self, List.map_append, ← hnew]
        show (chain y).map (fun b => w'.disk (sector b)) ++ _ = _
        rw [h.chain_kept hfree hold hy, h.contents y hy, hindex]
      · have hne : S.w.fs.indexNumber y ≠ index :=
          fun hc => hyx (h.numbered.inj hy hx (hc.trans hindex.symm))
        rw [Function.update_of_ne hyx, Function.update_of_ne hne]
        exact (h.chain_kept hfree hold hy).trans (h.contents y hy)
    · have hne : f ≠ index := by
        rintro rfl
        refine hf x hx ?_
        show w'.fs.indexNumber x = f
        rw [hidx]
        exact hindex
      show Function.update S.appended index _ f = []
      rw [Function.update_of_ne hne]
      refine h.absent f fun y hy => ?_
      rw [← hidx]
      exact hf y hy
    · obtain ⟨q, hq⟩ := hentry y
      show (w'.fs.fentry y).occupied = _
      rw [hq]
      rfl
    · by_cases hyx : y = x
      · subst hyx
        rw [hindex]
        exact Or.inr ⟨pid, addr, size, io, rfl, hheld⟩
      · exact Or.inl (Function.update_of_ne hyx _ _)

theorem readDatablock_frame {w w' : World} {pid index pos size buf : Nat} {io : Nat → Int}
    {r : Option Nat} (hrun : readDatablock w pid index pos size buf io = .ok (r, w')) :
    w'.fs = w.fs ∧ w'.disk = w.disk := by
  obtain ⟨p, -, hrun⟩ := Res.bind_eq_ok.1 hrun
  obtain ⟨-, rfl⟩ := Prod.mk.inj (Except.ok.inj hrun)
  exact ⟨rfl, rfl⟩

theorem Inv.congr (h : S.Inv files free chain) {w' : World} (hfs : w'.fs = S.w.fs)
    (hdisk : w'.disk = S.w.disk) : Inv { S with w := w' } files free chain := by
  obtain ⟨fs', mem', disk'⟩ := w'
  obtain rfl : fs' = S.w.fs := hfs
  obtain rfl : disk' = S.w.disk := hdisk
  exact ⟨h.owned, h.numbered, h.contents, h.absent⟩

/-- Every call keeps the invariant, and changes no more of the files than `Effect` says. -/
theorem Inv.call (hI : S.Inv files free chain) {e : FsEvent} {c : Int}
    (h : S.call e = some (c, S')) : ∃ files' free' chain', S'.Inv files' free' chain' ∧
      S.Effect e S' files files' chain chain' := by
  cases e with
  | create name n answer =>
      unfold FsSystem.call at h
      dsimp only at h
      split at h
      case isFalse => simp at h
      case isTrue hguard =>
        obtain ⟨⟨c, fs'⟩, hres, hpair⟩ := Option.map_eq_some_iff.1 h
        obtain ⟨rfl, rfl⟩ := Prod.mk.inj hpair
        rcases createFileFromName_cases (Res.toOption_eq_some.1 hres) with ⟨rfl, -⟩ | hnew
        · exact ⟨files, free, chain, hI, Effect.refl _ _ rfl⟩
        · obtain ⟨p, fd, rfl, hfd, -, -, rfl⟩ := hnew
          obtain ⟨hbounds, hp⟩ := freshAnswer_spec hI.owned.fileList hguard.2.2
          exact ⟨_, _, _, hI.create hguard.1 _ hp hbounds hfd rfl⟩
  | openFile pid index =>
      obtain ⟨⟨c, fs'⟩, hres, hpair⟩ := Option.map_eq_some_iff.1 h
      obtain ⟨rfl, rfl⟩ := Prod.mk.inj hpair
      exact ⟨files, free, chain, hI.occupy (Or.inl ⟨rfl, rfl⟩) (Res.toOption_eq_some.1 hres)⟩
  | closeFile pid index =>
      obtain ⟨⟨c, fs'⟩, hres, hpair⟩ := Option.map_eq_some_iff.1 h
      obtain ⟨rfl, rfl⟩ := Prod.mk.inj hpair
      exact ⟨files, free, chain, hI.occupy (Or.inr ⟨rfl, rfl⟩) (Res.toOption_eq_some.1 hres)⟩
  | append pid index addr size io =>
      obtain ⟨⟨c, w'⟩, hres, hpair⟩ := Option.map_eq_some_iff.1 h
      obtain ⟨rfl, rfl⟩ := Prod.mk.inj hpair
      obtain ⟨free', chain', hstep⟩ := hI.append (Res.toOption_eq_some.1 hres) rfl
      exact ⟨files, free', chain', hstep⟩
  | read pid index pos size buf io =>
      obtain ⟨⟨r, w'⟩, hres, hpair⟩ := Option.map_eq_some_iff.1 h
      obtain ⟨rfl, rfl⟩ := Prod.mk.inj hpair
      obtain ⟨hfs, hdisk⟩ := readDatablock_frame (Res.toOption_eq_some.1 hres)
      exact ⟨files, free, chain, hI.congr hfs hdisk, Effect.refl _ _ (congrArg FsState.fentry hfs)⟩
  | memory m =>
      obtain ⟨rfl, rfl⟩ := Prod.mk.inj (Option.some.inj h)
      exact ⟨files, free, chain, hI.congr rfl rfl, Effect.refl _ _ rfl⟩

theorem step_inv {e : FsEvent} (hI : ∃ files free chain, S.Inv files free chain)
    (h : S.step e = some S') : ∃ files free chain, S'.Inv files free chain := by
  obtain ⟨files, free, chain, hI⟩ := hI
  obtain ⟨⟨c, S₁⟩, hcall, rfl⟩ := Option.map_eq_some_iff.1 h
  obtain ⟨files', free', chain', hI', -⟩ := hI.call hcall
  exact ⟨files', free', chain', hI'⟩

theorem run_inv {w₀ : World} {es : List FsEvent} (hrun : run step (init w₀) es = some S) :
    ∃ files free chain, S.Inv files free chain :=
  run_invariant (fun _ _ _ hI h => step_inv hI h) (init_inv w₀) hrun

/-! ## Main results -/

/-- Along every run the free list and the chains end in `NULL` and share no block. -/
theorem fs_run_owned {w₀ : World} {es : List FsEvent} (hrun : run step (init w₀) es = some S) :
    ∃ (files free : List Nat) (chain : Nat → List Nat),
      Chain S.w.fs.nextEntry S.w.fs.fentryHead files ∧
      Chain S.w.fs.nextBlock S.w.fs.freeHead free ∧ free.Nodup ∧
      (∀ x ∈ files, Chain S.w.fs.nextBlock (S.w.fs.firstBlock x) (chain x) ∧ (chain x).Nodup ∧
        (∀ b ∈ chain x, b < NBLOCKS ∧ b ∉ free) ∧
        (∀ y ∈ files, y ≠ x → List.Disjoint (chain x) (chain y)) ∧
        ∀ p ∈ S.w.fs.firstBlock x, p < NBLOCKS) ∧
      (∀ b ∈ free, b < NBLOCKS) ∧
      ∀ i < NBLOCKS, (S.w.fs.dbTable i).ondiskAddr = STORAGE_BASE + 512 * i := by
  obtain ⟨files, free, chain, h⟩ := run_inv hrun
  have hown := h.owned
  refine ⟨files, free, chain, hown.file_list, hown.free_list, hown.free_list.nodup, fun x hx => ?_,
    fun b hb => hown.inside b (List.mem_append_left _ hb), hown.addr⟩
  refine ⟨hown.chains x hx, (hown.chains x hx).nodup,
    fun b hb => ⟨hown.chain_lt hx hb, (hown.chain_block hx hb).1⟩, fun y hy hne b hbx hby => ?_,
    fun p hp => ?_⟩
  · exact hne ((hown.chain_block hx hbx).2 y hy hby)
  · have hhead := Chain.head_eq (hown.chains x hx)
    rw [Option.mem_def.1 hp] at hhead
    exact hown.chain_lt hx (List.mem_of_mem_head? hhead.symm)

/-- A permitted read within a file returns the blocks appended to it, from the position on. -/
theorem read_returns_appended {w₀ : World} {es : List FsEvent}
    (hrun : run step (init w₀) es = some S) {pid index pos size buf x : Nat} {bs : List Nat}
    {io : Nat → Int} (hfound : S.w.fs.findIndex index = .ok (some x))
    (hpermitted : ¬ S.w.fs.heldByOther x pid)
    (hbs : Chain S.w.fs.nextBlock (S.w.fs.firstBlock x) bs) (hpos : pos ≤ bs.length)
    (hbuf : KERNEL_BASE ≤ buf) (hroom : buf + 512 * size ≤ 4294967296)
    (hio : ∀ k, 0 ≤ io k) :
    ∃ w', readDatablock S.w pid index pos size buf io = .ok (some buf, w') ∧
      (S.appended index).length = bs.length ∧
      ∀ k < min size (bs.length - pos),
        (S.appended index)[pos + k]? = some (blockAt w'.mem (buf + 512 * k)) := by
  obtain ⟨files, free, chain, h⟩ := run_inv hrun
  have hown := h.owned
  obtain ⟨hx, hindex⟩ : x ∈ files ∧ S.w.fs.indexNumber x = index := by
    rcases hown.findIndex_spec index with hsome | hnone
    · obtain ⟨y, hy, hidx, hfind⟩ := hsome
      obtain rfl : y = x := by simpa using hfind.symm.trans hfound
      exact ⟨hy, hidx⟩
    · simpa using hnone.2.symm.trans hfound
  obtain rfl : bs = chain x := Chain.unique hbs (hown.chains x hx)
  have hcontents := h.contents x hx
  rw [hindex] at hcontents
  have hpositive : 0 < buf := Nat.lt_of_lt_of_le (by decide) hbuf
  have hmin : min size ((chain x).length - pos) ≤ size := Nat.min_le_left _ _
  obtain ⟨mem', hread, -, hin⟩ := @readDatablock_spec S.w x pid index pos size buf (chain x) io
    hfound hbs hpermitted hpos hpositive
    (Nat.le_trans (Nat.add_le_add_left (Nat.mul_le_mul_left 512 hmin) buf) hroom) hio
  refine ⟨_, hread, ?_, fun k hk => ?_⟩
  · rw [← hcontents, List.length_map]
  · have hlt : pos + k < (chain x).length := by omega
    have hb := List.getElem?_eq_getElem hlt
    have hsector := hown.sector_addr (hown.chain_lt hx (List.getElem_mem hlt))
    rw [← hcontents, List.getElem?_map, hb, hin k _ (by omega) hb, hsector]
    rfl

/-! ## A run -/

def blank : World where
  fs := ⟨fun _ => ⟨none, 0⟩, none, fun _ => ⟨0, fun _ => 0, none, none, 0⟩, none⟩
  mem := fun a => UInt8.ofNat a
  disk := fun _ _ => 0

/-- A file of two blocks, appended one by one with a failing call in between. -/
def sampleRun : List FsEvent :=
  [.create (fun _ => 97) 1 (some 2155880440), .openFile 7 1,
    .append 7 1 2147483648 1 (fun _ => 0), .append 8 1 2147483648 1 (fun _ => 0),
    .append 7 1 2147484160 1 (fun _ => 0)]

theorem sampleRun_state :
    ((run step (init blank) sampleRun).map fun S =>
      decide (S.w.fs.findIndex 1 = .ok (some 2155880440) ∧ ¬ S.w.fs.heldByOther 2155880440 7 ∧
        Chain S.w.fs.nextBlock (S.w.fs.firstBlock 2155880440) [0, 2])) = some true := by
  decide +kernel

theorem fs_run_owned_sample : ∃ S : FsSystem, run step (init blank) sampleRun = some S ∧
    ∃ free, Chain S.w.fs.nextBlock S.w.fs.freeHead free ∧ free.Nodup := by
  obtain ⟨S, hS, -⟩ := Option.map_eq_some_iff.1 sampleRun_state
  obtain ⟨files, free, chain, -, hfree, hnodup, -⟩ := fs_run_owned hS
  exact ⟨S, hS, free, hfree, hnodup⟩

theorem read_returns_appended_sample : ∃ (S : FsSystem) (w' : World),
    readDatablock S.w 7 1 1 5 2149580800 (fun _ => 0) = .ok (some 2149580800, w') ∧
      (S.appended 1)[1]? = some (blockAt w'.mem 2149580800) := by
  obtain ⟨S, hS, hdec⟩ := Option.map_eq_some_iff.1 sampleRun_state
  obtain ⟨hfind, hheld, hchain⟩ := of_decide_eq_true hdec
  obtain ⟨w', hread, -, hblocks⟩ := @read_returns_appended S blank sampleRun hS 7 1 1 5 2149580800
    2155880440 [0, 2] (fun _ => 0) hfind hheld hchain (by decide) (by decide) (by decide)
    (fun _ => Int.le_refl 0)
  exact ⟨S, w', hread, hblocks 0 (by decide)⟩

end FsSystem

end Aimv6.Fs
