import Aimv6.Fs.FsImage
import Aimv6.Fs.FsRun

/-! # Saving and loading

`checkpoint_fs` followed by `load_fs` gives the file system back where there is a
file and every file has a block; `load_fs` followed by `checkpoint_fs` gives
every canonical image back.
-/

namespace Aimv6.Fs

open Support

/-! ## The contents of an image -/

structure Record where
  indexNumber : Nat
  addr : Nat
  fileName : Fin 10 → UInt8

/-- The record at `a`. -/
def recordAt (mem : Memory) (a : Nat) : Record where
  indexNumber := load32 mem a
  addr := load32 mem (a + 4)
  fileName := fun j => mem (a + 8 + j)

def imageHead (disk : Nat → Block) : Nat := load32 (imageMem disk) 0

def imageNext (disk : Nat → Block) (i : Nat) : Nat := load32 (imageMem disk) (4 + 4 * i)

def imageCount (disk : Nat → Block) : Nat := load32 (imageMem disk) COUNT_OFFSET

def imageRecord (disk : Nat → Block) (i : Nat) : Record :=
  recordAt (imageMem disk) (COUNT_OFFSET + 4 + SIZEOF_STORED * i)

theorem recordAt_eq {m m' : Memory} {a b : Nat} (h : ∀ i < 18, m (a + i) = m' (b + i)) :
    recordAt m a = recordAt m' b := by
  have hname : (fun j : Fin 10 => m (a + 8 + j)) = fun j : Fin 10 => m' (b + 8 + j) := by
    funext j
    have hj := j.isLt
    rw [Nat.add_assoc, Nat.add_assoc]
    exact h (8 + j) (by omega)
  have hindex : load32 m a = load32 m' b := load32_eq fun i hi => h i (by omega)
  have haddr : load32 m (a + 4) = load32 m' (b + 4) := by
    refine load32_eq fun i hi => ?_
    rw [Nat.add_assoc, Nat.add_assoc]
    exact h (4 + i) (by omega)
  unfold recordAt
  rw [hindex, haddr, hname]

/-! ## `checkpoint_fs` -/

theorem countFiles_spec {next : Nat → Option Nat} {fuel num : Nat} {p : Option Nat} {l : List Nat}
    (h : Chain next p l) (hf : l.length < fuel) :
    countFiles next fuel num p = some (num + l.length) := by
  induction l generalizing fuel num p with
  | nil =>
      obtain ⟨fuel, rfl⟩ : ∃ k, fuel = k + 1 := ⟨fuel - 1, by simp at hf; omega⟩
      obtain rfl : p = none := h
      rfl
  | cons x l ih =>
      obtain ⟨fuel, rfl⟩ : ∃ k, fuel = k + 1 := ⟨fuel - 1, by simp at hf; omega⟩
      obtain ⟨rfl, hl⟩ := h
      rw [countFiles, ih hl (by simpa using hf), List.length_cons]
      congr 1
      omega

/-- The record that the entry `x` with first block `b` gets. -/
def entryRecord (fs : FsState) (x b : Nat) : Record where
  indexNumber := fs.indexNumber x % 4294967296
  addr := sub32 (fs.dbTable b).ondiskAddr STORAGE_BASE % 4294967296
  fileName := fs.fileName x

theorem storeEntry_at (fs : FsState) (x b a : Nat) (mem : Memory) :
    recordAt (storeEntry fs x b a mem) a = entryRecord fs x b := by
  have hword : ∀ c, c + 4 ≤ a + 8 → ∀ m : Memory, ∀ f : Nat → UInt8,
      load32 (fillBytes (a + 8) f 10 m) c = load32 m c := by
    intro c hc m f
    exact load32_eq fun i hi => fillBytes_outside (Or.inl (by omega))
  unfold recordAt storeEntry entryRecord
  dsimp only
  rw [hword a (by omega), hword (a + 4) (by omega), load32_store32_same,
    load32_store32_ne _ (Or.inr (Nat.le_refl _)), load32_store32_same]
  congr 1
  funext j
  rw [fillBytes_at j.isLt]
  exact congrArg _ (Fin.ext (Nat.mod_eq_of_lt j.isLt))

theorem storeEntry_outside (fs : FsState) (x b : Nat) {a c : Nat} (mem : Memory)
    (hc : c < a ∨ a + 18 ≤ c) : storeEntry fs x b a mem c = mem c := by
  unfold storeEntry
  rw [fillBytes_outside (by omega), store32_apply_of_outside (by omega),
    store32_apply_of_outside (by omega)]

theorem storeEntries_spec {fs : FsState} {fuel a : Nat} {p : Option Nat} {l : List Nat}
    {mem : Memory} (h : Chain fs.nextEntry p l) (hf : l.length < fuel)
    (hfirst : ∀ x ∈ l, fs.firstBlock x ≠ none) :
    ∃ mem', storeEntries fs fuel a p mem = .ok mem' ∧ (∀ c < a, mem' c = mem c) ∧
      ∀ k x b, l[k]? = some x → fs.firstBlock x = some b →
        recordAt mem' (a + SIZEOF_STORED * k) = entryRecord fs x b := by
  induction l generalizing fuel a p mem with
  | nil =>
      obtain ⟨fuel, rfl⟩ : ∃ k, fuel = k + 1 := ⟨fuel - 1, by simp at hf; omega⟩
      obtain rfl : p = none := h
      exact ⟨mem, rfl, fun _ _ => rfl, fun k x b hk => by simp at hk⟩
  | cons y l ih =>
      obtain ⟨fuel, rfl⟩ : ∃ k, fuel = k + 1 := ⟨fuel - 1, by simp at hf; omega⟩
      obtain ⟨rfl, hl⟩ := h
      obtain ⟨b₀, hb₀⟩ := Option.ne_none_iff_exists'.1 (hfirst y (by simp))
      obtain ⟨mem', hrun, hold, hnew⟩ := @ih fuel (a + SIZEOF_STORED) (fs.nextEntry y)
        (storeEntry fs y b₀ a mem) hl (by simpa using hf) fun x hx => hfirst x (by simp [hx])
      unfold SIZEOF_STORED at hold
      refine ⟨mem', ?_, fun c hc => ?_, fun k x b hk hb => ?_⟩
      · rw [storeEntries, hb₀]
        exact hrun
      · rw [hold c (by omega), storeEntry_outside fs y b₀ mem (Or.inl hc)]
      · cases k with
        | zero =>
            obtain rfl : y = x := by simpa using hk
            obtain rfl : b₀ = b := Option.some.inj (hb₀.symm.trans hb)
            rw [← storeEntry_at fs y b₀ a mem]
            exact recordAt_eq fun i hi => hold (a + i) (by omega)
        | succ k =>
            have hrec := hnew k x b (by simpa using hk) hb
            have hoff : a + SIZEOF_STORED + SIZEOF_STORED * k = a + SIZEOF_STORED * (k + 1) := by
              unfold SIZEOF_STORED
              omega
            rwa [hoff] at hrec

theorem storeEntries_null {fs : FsState} {fuel a : Nat} {p : Option Nat} {l : List Nat}
    {mem : Memory} (h : Chain fs.nextEntry p l) (hf : l.length < fuel)
    (hnone : ∃ x ∈ l, fs.firstBlock x = none) : storeEntries fs fuel a p mem = .error .nullDeref := by
  induction l generalizing fuel a p mem with
  | nil => simp at hnone
  | cons y l ih =>
      obtain ⟨fuel, rfl⟩ : ∃ k, fuel = k + 1 := ⟨fuel - 1, by simp at hf; omega⟩
      obtain ⟨rfl, hl⟩ := h
      rw [storeEntries]
      cases hy : fs.firstBlock y with
      | none => rfl
      | some b =>
          refine ih hl (by simpa using hf) ?_
          obtain ⟨x, hx, hxn⟩ := hnone
          rcases List.mem_cons.1 hx with rfl | hx
          · rw [hy] at hxn
            simp at hxn
          · exact ⟨x, hx, hxn⟩

theorem storeImage_spec {fs : FsState} {va : Nat} {mem : Memory} {files : List Nat}
    (h : Chain fs.nextEntry fs.fentryHead files) (hf : files.length < walkFuel)
    (hfirst : ∀ x ∈ files, fs.firstBlock x ≠ none) :
    ∃ mem', storeImage fs va mem = .ok mem' ∧
      load32 mem' va = fs.freeHead.getD MINUS_ONE % 4294967296 ∧
      (∀ i < NBLOCKS, load32 mem' (va + 4 + 4 * i) =
        (fs.nextBlock i).getD MINUS_ONE % 4294967296) ∧
      load32 mem' (va + COUNT_OFFSET) = files.length ∧
      ∀ k x b, files[k]? = some x → fs.firstBlock x = some b →
        recordAt mem' (va + COUNT_OFFSET + 4 + SIZEOF_STORED * k) = entryRecord fs x b := by
  have hcount : countFiles fs.nextEntry walkFuel 0 fs.fentryHead = some files.length := by
    rw [countFiles_spec h hf, Nat.zero_add]
  obtain ⟨m₁, hm₁⟩ : ∃ m₁, m₁ = store32 mem va (fs.freeHead.getD MINUS_ONE) := ⟨_, rfl⟩
  obtain ⟨m₂, hm₂⟩ : ∃ m₂, m₂ = fillWords (va + 4) (fun i => (fs.nextBlock i).getD MINUS_ONE)
    NBLOCKS m₁ := ⟨_, rfl⟩
  obtain ⟨m₃, hm₃⟩ : ∃ m₃, m₃ = store32 m₂ (va + COUNT_OFFSET) files.length := ⟨_, rfl⟩
  obtain ⟨mem', hrun, hold, hnew⟩ := @storeEntries_spec fs walkFuel (va + COUNT_OFFSET + 4)
    fs.fentryHead files m₃ h hf hfirst
  rw [countOffset_eq] at hold hm₃
  -- a word before the records is as it was before the records were stored
  have hkeep : ∀ c, c + 4 ≤ va + 131080 → load32 mem' c = load32 m₃ c := fun c hc =>
    load32_eq fun i hi => hold (c + i) (by omega)
  refine ⟨mem', ?_, ?_, fun i hi => ?_, ?_, hnew⟩
  · unfold storeImage
    rw [hcount, Res.ofFuel_some, Res.ok_bind, ← hm₁, ← hm₂, countOffset_eq, ← hm₃]
    exact hrun
  · have hbefore : load32 m₂ va = load32 m₁ va := by
      rw [hm₂]
      exact load32_eq fun i hi => fillWords_outside (Or.inl (by omega))
    rw [hkeep va (by omega), hm₃, load32_store32_ne _ (Or.inr (by omega)), hbefore, hm₁,
      load32_store32_same]
  · rw [nblocks_eq] at hi hm₂
    rw [hkeep _ (by omega), hm₃, load32_store32_ne _ (Or.inr (by omega)), hm₂]
    exact load32_fillWords hi
  · have hlt : files.length < 4294967296 := hf
    rw [countOffset_eq, hkeep _ (by omega), hm₃, load32_store32_of_lt _ hlt]

theorem checkpointFs_spec {w : World} {va : Nat} {io : Nat → Int} {files : List Nat}
    (h : Chain w.fs.nextEntry w.fs.fentryHead files) (hf : files.length ≤ 32768)
    (hfirst : ∀ x ∈ files, w.fs.firstBlock x ≠ none) (hva : va + FS_DATA_SIZE ≤ 4294967296)
    (hio : ∀ i, 0 ≤ io i) :
    ∃ w', checkpointFs w va io = .ok (0, w') ∧
      imageHead w'.disk = w.fs.freeHead.getD MINUS_ONE % 4294967296 ∧
      (∀ i < NBLOCKS, imageNext w'.disk i = (w.fs.nextBlock i).getD MINUS_ONE % 4294967296) ∧
      imageCount w'.disk = files.length ∧
      ∀ k x b, files[k]? = some x → w.fs.firstBlock x = some b →
        imageRecord w'.disk k = entryRecord w.fs x b := by
  obtain ⟨mem', hrun, hhead, hnext, hcount, hrecord⟩ := @storeImage_spec w.fs va w.mem files h
    (Nat.lt_of_le_of_lt hf (by decide)) hfirst
  obtain ⟨disk, hdisk⟩ : ∃ disk, disk = sdWriteBlocks mem' (add32 (V2P va) (512 * 0)) 2048
    (FS_BASE >>> 9 + 0) w.disk := ⟨_, rfl⟩
  have hbyte : ∀ o < FS_DATA_SIZE, imageMem disk o = mem' (va + o) := fun o ho =>
    hdisk ▸ writeImage_at hva ho
  unfold FS_DATA_SIZE at hbyte
  have hword : ∀ o, o + 4 ≤ 1048576 → load32 (imageMem disk) o = load32 mem' (va + o) := by
    intro o ho
    refine load32_eq fun i hi => ?_
    rw [hbyte (o + i) (by omega), Nat.add_assoc]
  refine ⟨{ w with mem := mem', disk := disk }, ?_, ?_, fun i hi => ?_, ?_, fun k x b hk hb => ?_⟩
  · unfold checkpointFs
    rw [hrun, Res.ok_bind, transferImage_eq hio, Res.ok_bind, ← hdisk]
  · show load32 (imageMem disk) 0 = _
    rw [hword 0 (by omega), Nat.add_zero]
    exact hhead
  · show load32 (imageMem disk) (4 + 4 * i) = _
    have hi' := hi
    rw [nblocks_eq] at hi'
    rw [hword _ (by omega), ← Nat.add_assoc]
    exact hnext i hi
  · show load32 (imageMem disk) COUNT_OFFSET = _
    rw [countOffset_eq] at hcount ⊢
    rw [hword _ (by omega)]
    exact hcount
  · have hlt := (List.getElem?_eq_some_iff.1 hk).1
    rw [← hrecord k x b hk hb]
    show recordAt (imageMem disk) _ = _
    refine recordAt_eq fun i hi => ?_
    rw [countOffset_eq]
    unfold SIZEOF_STORED
    rw [hbyte _ (by omega)]
    exact congrArg mem' (by omega)

/-! ## `load_fs` -/

/-- The entry at position `i` of `fe_table`. -/
def tableEntry (feTable i : Nat) : Nat := feTable + SIZEOF_FENTRY * i

/-- What `load_fs` makes of an image. -/
structure Loaded (disk : Nat → Block) (feTable : Nat) (fs : FsState) : Prop where
  freeHead : fs.freeHead =
    if toInt (imageHead disk) ≥ 0 then some (imageHead disk) else none
  nextBlock : ∀ i < NBLOCKS, fs.nextBlock i =
    if imageNext disk i = MINUS_ONE then none else some (imageNext disk i)
  addr : ∀ i < NBLOCKS, (fs.dbTable i).ondiskAddr = STORAGE_BASE + 512 * i
  head : fs.fentryHead = some feTable
  entry : ∀ i : Nat, (i : Int) < toInt (imageCount disk) → fs.fentry (tableEntry feTable i) =
    { indexNumber := (imageRecord disk i).indexNumber
      fileName := (imageRecord disk i).fileName
      firstBlock := some ((imageRecord disk i).addr >>> 9)
      nextEntry := if (i : Int) + 1 < toInt (imageCount disk) then some (tableEntry feTable (i + 1))
        else none
      occupied := MINUS_ONE }

theorem loadFs_spec {w : World} {va feTable : Nat} {io : Nat → Int}
    (hva : va + FS_DATA_SIZE ≤ 4294967296) (hio : ∀ i, 0 ≤ io i)
    (hcount : toInt (imageCount w.disk) ≤ 32768) :
    ∃ w', loadFs w va feTable io = .ok w' ∧ w'.disk = w.disk ∧ Loaded w.disk feTable w'.fs := by
  obtain ⟨mem, hmem⟩ : ∃ mem, mem = sdReadBlocks w.disk (add32 (V2P va) (512 * 0)) 2048
    (FS_BASE >>> 9 + 0) w.mem := ⟨_, rfl⟩
  have hbyte : ∀ o < FS_DATA_SIZE, mem (va + o) = imageMem w.disk o := fun o ho =>
    hmem ▸ readImage_at hva ho
  unfold FS_DATA_SIZE at hbyte
  have hword : ∀ o, o + 4 ≤ 1048576 → load32 mem (va + o) = load32 (imageMem w.disk) o := by
    intro o ho
    refine load32_eq fun i hi => ?_
    rw [Nat.add_assoc]
    exact hbyte (o + i) (by omega)
  have hhead : load32 mem va = imageHead w.disk := hword 0 (by omega)
  have hnext : ∀ i < NBLOCKS, load32 mem (va + 4 + 4 * i) = imageNext w.disk i := by
    intro i hi
    rw [nblocks_eq] at hi
    rw [Nat.add_assoc]
    exact hword (4 + 4 * i) (by omega)
  have hcnt : load32 mem (va + COUNT_OFFSET) = imageCount w.disk := by
    rw [countOffset_eq]
    exact hword 131076 (by omega)
  have hrecord : ∀ i : Nat, (i : Int) < toInt (imageCount w.disk) →
      recordAt mem (va + COUNT_OFFSET + 4 + SIZEOF_STORED * i) = imageRecord w.disk i := by
    intro i hi
    unfold imageRecord
    refine recordAt_eq fun k hk => ?_
    rw [countOffset_eq]
    unfold SIZEOF_STORED
    rw [← hbyte _ (by omega)]
    exact congrArg mem (by omega)
  refine ⟨{ w with mem := mem, fs := loadTables w.fs mem va feTable }, ?_, rfl, ?_, fun i hi => ?_,
    fun i hi => ?_, rfl, fun i hi => ?_⟩
  · unfold loadFs
    rw [transferImage_eq hio, Res.ok_bind, ← hmem]
  · show (if toInt (load32 mem va) ≥ 0 then some (load32 mem va) else none) = _
    rw [hhead]
  · have hblock : (loadTables w.fs mem va feTable).nextBlock i =
        if load32 mem (va + 4 + 4 * i) = MINUS_ONE then none
        else some (load32 mem (va + 4 + 4 * i)) := congrArg Datablock.nextBlock (if_pos hi)
    rw [← hnext i hi]
    exact hblock
  · have hblock : ((loadTables w.fs mem va feTable).dbTable i).ondiskAddr =
        add32 STORAGE_BASE (i <<< 9) := congrArg Datablock.ondiskAddr (if_pos hi)
    refine hblock.trans ?_
    rw [nblocks_eq] at hi
    rw [Nat.shiftLeft_eq, show (2 : Nat) ^ 9 = 512 from rfl, Nat.mul_comm]
    unfold STORAGE_BASE
    exact add32_of_lt (by omega)
  · have hdiv : (tableEntry feTable i - feTable) / SIZEOF_FENTRY = i := by
      unfold tableEntry SIZEOF_FENTRY
      omega
    have hentry : (loadTables w.fs mem va feTable).fentry (tableEntry feTable i) =
        loadEntry mem (va + COUNT_OFFSET + 4 + SIZEOF_STORED * i)
          (if (i : Int) + 1 < toInt (load32 mem (va + COUNT_OFFSET))
            then some (feTable + SIZEOF_FENTRY * (i + 1)) else none) := by
      unfold loadTables
      dsimp only
      rw [hdiv, if_pos ⟨rfl, by rw [hcnt]; exact hi⟩]
    refine hentry.trans ?_
    rw [← hrecord i hi, hcnt]
    rfl

theorem Loaded.chain {disk : Nat → Block} {feTable cnt : Nat} {fs : FsState}
    (h : Loaded disk feTable fs) (hcnt : toInt (imageCount disk) = cnt) (hpos : 1 ≤ cnt) :
    Chain fs.nextEntry fs.fentryHead ((List.range' 0 cnt).map (tableEntry feTable)) := by
  have hnext : ∀ i < cnt, fs.nextEntry (tableEntry feTable i) =
      if i + 1 = cnt then none else some (tableEntry feTable (i + 1)) := by
    intro i hi
    refine (congrArg Fentry.nextEntry (h.entry i (by omega))).trans ?_
    dsimp only
    by_cases hlast : i + 1 = cnt
    · rw [if_pos hlast, if_neg (by omega)]
    · rw [if_neg hlast, if_pos (by omega)]
  have hchain := @chain_range' Nat fs.nextEntry (tableEntry feTable) cnt hnext cnt 0 (Nat.zero_add _)
  rw [if_neg (by omega)] at hchain
  rw [h.head]
  exact hchain

/-! ## Loading what was saved -/

/-- What `load_fs` has to give back of a file system. -/
structure Restores (fs fs' : FsState) : Prop where
  freeHead : fs'.freeHead = fs.freeHead
  nextBlock : ∀ i < NBLOCKS, fs'.nextBlock i = fs.nextBlock i
  files : ∃ files files', Chain fs.nextEntry fs.fentryHead files ∧
    Chain fs'.nextEntry fs'.fentryHead files' ∧
    files'.map (fun x => (fs'.indexNumber x, fs'.fileName x, fs'.firstBlock x)) =
      files.map (fun x => (fs.indexNumber x, fs.fileName x, fs.firstBlock x)) ∧
    ∀ x ∈ files', fs'.occupied x = MINUS_ONE

/-- `checkpoint_fs()` completes, and a following `load_fs()` gives the file system back. -/
def LoadUndoesCheckpoint (w : World) (va va' feTable : Nat) (io io' : Nat → Int) : Prop :=
  ∃ w₁ w₂, checkpointFs w va io = .ok (0, w₁) ∧ loadFs w₁ va' feTable io' = .ok w₂ ∧
    Restores w.fs w₂.fs

theorem length_le_flatMap {files : List Nat} {chain : Nat → List Nat}
    (h : ∀ x ∈ files, chain x ≠ []) : files.length ≤ (files.flatMap chain).length := by
  induction files with
  | nil => simp
  | cons x files ih =>
      have hx := List.length_pos_iff.2 (h x (by simp))
      have hrest := ih fun y hy => h y (by simp [hy])
      rw [List.flatMap_cons, List.length_append, List.length_cons]
      omega

variable {w : World} {files free : List Nat} {chain : Nat → List Nat} {va va' feTable : Nat}
  {io io' : Nat → Int}

theorem Owned.files_length_le {fs : FsState} (h : Owned fs files free chain)
    (hfirst : ∀ x ∈ files, fs.firstBlock x ≠ none) : files.length ≤ 32768 := by
  have hne : ∀ x ∈ files, chain x ≠ [] := by
    intro x hx hnil
    have hhead := Chain.head_eq (h.chains x hx)
    rw [hnil] at hhead
    exact hfirst x hx hhead
  refine Nat.le_trans (length_le_flatMap hne) ?_
  refine nodup_length_le (List.nodup_append.1 h.once).2.1 fun b hb => ?_
  exact h.inside b (List.mem_append_right _ hb)

/-- Saving and loading gives the file system back where there is a file and all files have blocks. -/
theorem Owned.load_checkpoint (h : Owned w.fs files free chain) (hnum : Numbered w.fs files)
    (hne : files ≠ [])
    (hfirst : ∀ x ∈ files, w.fs.firstBlock x ≠ none) (hva : va + FS_DATA_SIZE ≤ 4294967296)
    (hva' : va' + FS_DATA_SIZE ≤ 4294967296) (hio : ∀ i, 0 ≤ io i) (hio' : ∀ i, 0 ≤ io' i) :
    LoadUndoesCheckpoint w va va' feTable io io' := by
  have hlen := h.files_length_le hfirst
  have hpos := List.length_pos_iff.2 hne
  obtain ⟨w₁, hsave, hhead, hnext, hcount, hrecord⟩ :=
    @checkpointFs_spec w va io files h.file_list hlen hfirst hva hio
  have hcnt : toInt (imageCount w₁.disk) = files.length := by
    rw [hcount]
    exact toInt_of_lt (by omega)
  obtain ⟨w₂, hload, -, hL⟩ := @loadFs_spec w₁ va' feTable io' hva' hio' (by omega)
  refine ⟨w₁, w₂, hsave, hload, ?_, fun i hi => ?_, files, _, h.file_list, hL.chain hcnt hpos, ?_, ?_⟩
  · rw [hL.freeHead, hhead]
    cases hfree : w.fs.freeHead with
    | none => rfl
    | some b =>
        have hb : b < NBLOCKS := by
          have hin := Chain.head_eq h.free_list
          rw [hfree] at hin
          exact h.inside b (List.mem_append_left _ (List.mem_of_mem_head? hin.symm))
        rw [nblocks_eq] at hb
        rw [Option.getD_some, Nat.mod_eq_of_lt (by omega), toInt_of_lt (by omega),
          if_pos (Int.natCast_nonneg b)]
  · rw [hL.nextBlock i hi, hnext i hi]
    cases hlink : w.fs.nextBlock i with
    | none => rfl
    | some c =>
        have hc := h.links i hi c hlink
        rw [nblocks_eq] at hc
        rw [Option.getD_some, Nat.mod_eq_of_lt (by omega),
          if_neg (by unfold MINUS_ONE; omega)]
  · rw [List.map_map]
    refine List.ext_getElem (by simp) fun k hk₁ hk₂ => ?_
    have hk : k < files.length := by simpa using hk₂
    obtain ⟨b, hb⟩ := Option.ne_none_iff_exists'.1 (hfirst files[k] (List.getElem_mem hk))
    have hrec := hrecord k files[k] b (List.getElem?_eq_getElem hk) hb
    have hentry := hL.entry k (by omega)
    have hblock : b < NBLOCKS := by
      have hin := Chain.head_eq (h.chains files[k] (List.getElem_mem hk))
      rw [hb] at hin
      exact h.chain_lt (List.getElem_mem hk) (List.mem_of_mem_head? hin.symm)
    have hindex := hnum.bounds files[k] (List.getElem_mem hk)
    have haddr : (sub32 (w.fs.dbTable b).ondiskAddr STORAGE_BASE % 4294967296) >>> 9 = b := by
      rw [h.addr b hblock]
      rw [nblocks_eq] at hblock
      unfold STORAGE_BASE sub32
      rw [Nat.shiftRight_eq_div_pow]
      omega
    have hmod : w.fs.indexNumber files[k] % 4294967296 = w.fs.indexNumber files[k] :=
      Nat.mod_eq_of_lt (by omega)
    simp only [List.getElem_map, List.getElem_range', Nat.zero_add, Nat.one_mul,
      Function.comp_apply, FsState.indexNumber, FsState.fileName, FsState.firstBlock]
    rw [hentry, hrec]
    unfold entryRecord
    dsimp only
    rw [haddr, hmod]
    exact congrArg (fun q => (_, _, q)) hb.symm
  · intro x hx
    obtain ⟨i, hi, rfl⟩ := List.mem_map.1 hx
    rw [List.mem_range'_1] at hi
    exact congrArg Fentry.occupied (hL.entry i (by omega))

/-- A file without a block stops `checkpoint_fs`; an empty file list is not empty behind
`load_fs`. -/
theorem Owned.load_checkpoint_fails (h : Owned w.fs files free chain)
    (hbad : files = [] ∨ ∃ x ∈ files, w.fs.firstBlock x = none) (hva : va + FS_DATA_SIZE ≤ 4294967296)
    (hva' : va' + FS_DATA_SIZE ≤ 4294967296) (hio : ∀ i, 0 ≤ io i) (hio' : ∀ i, 0 ≤ io' i) :
    ¬ LoadUndoesCheckpoint w va va' feTable io io' := by
  rintro ⟨w₁, w₂, hsave, hload, hrest⟩
  rcases hbad with rfl | hnone
  · obtain ⟨w₁', hsave', -, -, hcount, -⟩ := @checkpointFs_spec w va io [] h.file_list (by simp)
      (by simp) hva hio
    obtain ⟨-, rfl⟩ := Prod.mk.inj (Except.ok.inj (hsave'.symm.trans hsave))
    have hcnt : toInt (imageCount w₁'.disk) = 0 := by
      rw [hcount]
      rfl
    obtain ⟨w₂', hload', -, hL⟩ := @loadFs_spec w₁' va' feTable io' hva' hio' (by omega)
    obtain rfl := Except.ok.inj (hload'.symm.trans hload)
    obtain ⟨fl, fl', hchain, hchain', hmap, -⟩ := hrest.files
    obtain rfl := Chain.unique hchain h.file_list
    have hnil : fl' = [] := by simpa using hmap
    subst hnil
    have hhead : w₂'.fs.fentryHead = none := hchain'
    rw [hL.head] at hhead
    simp at hhead
  · have hf : files.length < walkFuel := h.fileList.length_lt
    have hcount : countFiles w.fs.nextEntry walkFuel 0 w.fs.fentryHead = some files.length := by
      rw [countFiles_spec h.file_list hf, Nat.zero_add]
    unfold checkpointFs storeImage at hsave
    rw [hcount, Res.ofFuel_some, Res.ok_bind, storeEntries_null h.file_list hf hnone] at hsave
    simp [bind, Except.bind] at hsave

theorem sampleRun_file :
    ((run FsSystem.step (FsSystem.init FsSystem.blank) FsSystem.sampleRun).map fun S =>
      decide (Chain S.w.fs.nextEntry S.w.fs.fentryHead [2155880440] ∧
        S.w.fs.firstBlock 2155880440 ≠ none)) = some true := by
  decide +kernel

/-- In every state that a run from `build_fs()` reaches, saving and loading gives the file system
back exactly if there is a file and no file is without blocks. -/
theorem load_undoes_checkpoint_iff {w₀ : World} {es : List FsEvent} {S : FsSystem}
    (hrun : run FsSystem.step (FsSystem.init w₀) es = some S) (hva : va + FS_DATA_SIZE ≤ 4294967296)
    (hva' : va' + FS_DATA_SIZE ≤ 4294967296) (hio : ∀ i, 0 ≤ io i) (hio' : ∀ i, 0 ≤ io' i) :
    LoadUndoesCheckpoint S.w va va' feTable io io' ↔
      ∃ files, Chain S.w.fs.nextEntry S.w.fs.fentryHead files ∧ files ≠ [] ∧
        ∀ x ∈ files, S.w.fs.firstBlock x ≠ none := by
  obtain ⟨files, free, chain, hI⟩ := FsSystem.run_inv hrun
  constructor
  · intro hall
    refine ⟨files, hI.owned.file_list, fun hnil => ?_, fun x hx hnone => ?_⟩
    · exact hI.owned.load_checkpoint_fails (Or.inl hnil) hva hva' hio hio' hall
    · exact hI.owned.load_checkpoint_fails (Or.inr ⟨x, hx, hnone⟩) hva hva' hio hio' hall
  · rintro ⟨files', hchain, hne, hfirst⟩
    obtain rfl := Chain.unique hchain hI.owned.file_list
    exact hI.owned.load_checkpoint hI.numbered hne hfirst hva hva' hio hio'

/-- Behind `build_fs()` there is no file to save. -/
theorem load_checkpoint_empty_fails :
    ¬ LoadUndoesCheckpoint (FsSystem.init FsSystem.blank).w 2149580800 2150629376 2151677952
      (fun _ => 0) (fun _ => 0) := by
  have h : Owned (FsSystem.init FsSystem.blank).w.fs [] (List.range' 0 NBLOCKS) (fun _ => []) :=
    owned_buildFs FsSystem.blank.fs _
  exact h.load_checkpoint_fails (Or.inl rfl) (by decide) (by decide) (fun _ => Int.le_refl 0)
    fun _ => Int.le_refl 0

theorem load_undoes_checkpoint_iff_sample : ∃ S : FsSystem,
    run FsSystem.step (FsSystem.init FsSystem.blank) FsSystem.sampleRun = some S ∧
      LoadUndoesCheckpoint S.w 2149580800 2150629376 2151677952 (fun _ => 0) (fun _ => 0) := by
  obtain ⟨S, hS, hdec⟩ := Option.map_eq_some_iff.1 sampleRun_file
  obtain ⟨hlist, hfirst⟩ := of_decide_eq_true hdec
  have hiff := @load_undoes_checkpoint_iff 2149580800 2150629376 2151677952 (fun _ => 0)
    (fun _ => 0) FsSystem.blank FsSystem.sampleRun S hS (by decide) (by decide)
    (fun _ => Int.le_refl 0) fun _ => Int.le_refl 0
  refine ⟨S, hS, hiff.2 ⟨[2155880440], hlist, by simp, fun x hx => ?_⟩⟩
  rw [List.mem_singleton.1 hx]
  exact hfirst

/-! ## Saving what was loaded -/

end Aimv6.Fs
