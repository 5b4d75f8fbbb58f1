import Aimv6.Fs.Blocks
import Mathlib.Data.List.Perm.Subperm

/-! # What one call of the file system does

Each call on a table whose blocks are owned leaves a table whose blocks are
owned. `append_file` gives the blocks it cut off to one file and stores the
buffer in their sectors; on `-2` and `-3` it loses them.
-/

namespace Aimv6.Fs

open Support

variable {fs fs' : FsState} {files free : List Nat} {chain : Nat → List Nat}

/-- The sector of block `b`. -/
def sector (b : Nat) : Nat := (STORAGE_BASE + 512 * b) >>> 9

theorem sector_eq (b : Nat) : sector b = 6291456 + b := by
  unfold sector STORAGE_BASE
  rw [Nat.shiftRight_eq_div_pow, show (2 : Nat) ^ 9 = 512 from rfl]
  omega

theorem Owned.sector_addr (h : Owned fs files free chain) {b : Nat} (hb : b < NBLOCKS) :
    (fs.dbTable b).ondiskAddr >>> 9 = sector b := by
  rw [h.addr b hb]
  rfl

/-- The first `n` blocks of a buffer. -/
def bufferBlocks (mem : Memory) (addr n : Nat) : List Block :=
  (List.range n).map fun i => blockAt mem (add32 addr (512 * i))

/-! ## `open_file` and `close_file` -/

theorem Owned.setOccupied (h : Owned fs files free chain) (x pid : Nat) :
    Owned (fs.setOccupied x pid) files free chain := by
  have hentry : ∀ {β : Type} (g : Fentry → β), (∀ e o, g { e with occupied := o } = g e) →
      (fun y => g ((fs.setOccupied x pid).fentry y)) = fun y => g (fs.fentry y) := by
    intro β g hg
    funext y
    unfold FsState.setOccupied FsState.setEntry
    dsimp only
    by_cases hyx : y = x
    · rw [if_pos hyx, hg, hyx]
    · rw [if_neg hyx]
  exact h.congr rfl rfl rfl (hentry Fentry.nextEntry fun _ _ => rfl)
    (hentry Fentry.firstBlock fun _ _ => rfl)

theorem setOccupied_index (fs : FsState) (x pid : Nat) :
    (fs.setOccupied x pid).indexNumber = fs.indexNumber := by
  funext y
  by_cases hyx : y = x <;>
    simp [FsState.indexNumber, FsState.setOccupied, FsState.setEntry, hyx]

theorem setOccupied_same (fs : FsState) (x pid : Nat) : (fs.setOccupied x pid).occupied x = pid := by
  simp [FsState.occupied, FsState.setOccupied, FsState.setEntry]

theorem setOccupied_ne (fs : FsState) {x y : Nat} (pid : Nat) (h : y ≠ x) :
    (fs.setOccupied x pid).occupied y = fs.occupied y := by
  simp [FsState.occupied, FsState.setOccupied, FsState.setEntry, h]

/-- What opening and closing have in common: the entry with that number gets the holder `o`, if no
one else holds it. -/
def FsState.occupy (fs : FsState) (pid index o : Nat) : Res (Int × FsState) := do
  match ← fs.findIndex index with
  | none => .ok (-1, fs)
  | some x => if fs.heldByOther x pid then .ok (-2, fs) else .ok (0, fs.setOccupied x o)

theorem Owned.occupy_spec (h : Owned fs files free chain) (pid index o : Nat) :
    (∃ x ∈ files, fs.indexNumber x = index ∧ fs.occupy pid index o =
      if fs.heldByOther x pid then .ok (-2, fs) else .ok (0, fs.setOccupied x o)) ∨
    ((∀ x ∈ files, fs.indexNumber x ≠ index) ∧ fs.occupy pid index o = .ok (-1, fs)) := by
  unfold FsState.occupy
  rcases h.findIndex_spec index with hfound | hnone
  · obtain ⟨x, hx, hidx, hfind⟩ := hfound
    rw [hfind]
    exact Or.inl ⟨x, hx, hidx, rfl⟩
  · rw [hnone.2]
    exact Or.inr ⟨hnone.1, rfl⟩

theorem Owned.openFile_spec (h : Owned fs files free chain) (pid index : Nat) :
    (∃ x ∈ files, fs.indexNumber x = index ∧ openFile fs pid index =
      if fs.heldByOther x pid then .ok (-2, fs) else .ok (0, fs.setOccupied x pid)) ∨
    ((∀ x ∈ files, fs.indexNumber x ≠ index) ∧ openFile fs pid index = .ok (-1, fs)) :=
  h.occupy_spec pid index pid

/-! ## `create_file_from_name` -/

theorem FileList.unusedFd_spec (h : FileList fs files) {fuel fd r : Nat}
    (hrun : unusedFd fs fuel fd = .ok r) :
    fd ≤ r ∧ (∀ x ∈ files, fs.indexNumber x ≠ r) ∧
      ∀ k, fd ≤ k → k < r → k ∈ files.map fs.indexNumber := by
  induction fuel generalizing fd with
  | zero => simp [unusedFd] at hrun
  | succ fuel ih =>
      rcases h.findIndex_spec fd with hfound | hnone
      · obtain ⟨x, hx, hidx, hfind⟩ := hfound
        rw [unusedFd, hfind, Res.ok_bind] at hrun
        obtain ⟨h₁, h₂, h₃⟩ := ih hrun
        refine ⟨by omega, h₂, fun k hk hkr => ?_⟩
        by_cases hkf : k = fd
        · rw [hkf, ← hidx]
          exact List.mem_map_of_mem hx
        · exact h₃ k (by omega) hkr
      · obtain ⟨hno, hfind⟩ := hnone
        rw [unusedFd, hfind, Res.ok_bind] at hrun
        obtain rfl := Except.ok.inj hrun
        exact ⟨Nat.le_refl _, hno, fun k h₁ h₂ => absurd h₁ (Nat.not_le.2 h₂)⟩

theorem FileList.unusedFd_returns (h : FileList fs files) (fd : Nat) :
    ∃ r, unusedFd fs walkFuel fd = .ok r := by
  have hsearch : ∀ fuel fd, (∃ r, unusedFd fs fuel fd = .ok r) ∨
      List.range' fd fuel ⊆ files.map fs.indexNumber := by
    intro fuel
    induction fuel with
    | zero => exact fun fd => Or.inr (by simp)
    | succ fuel ih =>
        intro fd
        rw [unusedFd]
        rcases h.findIndex_spec fd with hfound | hnone
        · obtain ⟨x, hx, hidx, hfind⟩ := hfound
          rw [hfind, Res.ok_bind]
          refine (ih (fd + 1)).imp_right fun hall => ?_
          rw [List.range'_succ]
          exact List.cons_subset.2 ⟨hidx ▸ List.mem_map_of_mem hx, hall⟩
        · rw [hnone.2, Res.ok_bind]
          exact Or.inl ⟨fd, rfl⟩
  rcases hsearch walkFuel fd with hfound | hall
  · exact hfound
  · have hlen := (List.subperm_of_subset List.nodup_range' hall).length_le
    rw [List.length_range', List.length_map] at hlen
    exact absurd h.length_lt (Nat.not_lt.2 hlen)

theorem FileList.unusedFd_le (h : FileList fs files) {fuel fd : Nat}
    (hrun : unusedFd fs fuel 1 = .ok fd) : fd ≤ files.length + 1 := by
  obtain ⟨-, -, hbelow⟩ := h.unusedFd_spec hrun
  have hsub : List.range' 1 (fd - 1) ⊆ files.map fs.indexNumber := by
    intro k hk
    rw [List.mem_range'_1] at hk
    exact hbelow k hk.1 (by omega)
  have hlen := (List.subperm_of_subset List.nodup_range' hsub).length_le
  rw [List.length_range', List.length_map] at hlen
  omega

theorem clearByte_le (a i : Nat) : clearByte a i ≤ a := Nat.sub_le _ _

theorem clearByte_eq_self {a i : Nat} : clearByte a i = a ↔ a / 256 ^ i % 256 = 0 := by
  have hle : a / 256 ^ i % 256 * 256 ^ i ≤ a :=
    (Nat.mul_le_mul_right _ (Nat.mod_le _ _)).trans (Nat.div_mul_le_self _ _)
  have hpos : 0 < 256 ^ i := Nat.pow_pos (by decide)
  unfold clearByte
  constructor
  · intro heq
    have hzero : a / 256 ^ i % 256 * 256 ^ i = 0 := by omega
    exact (Nat.mul_eq_zero.1 hzero).resolve_right (Nat.ne_of_gt hpos)
  · intro hzero
    rw [hzero, Nat.zero_mul, Nat.sub_zero]

/-- The number that a new file gets, found as `fd`. -/
def storedNumber (fd : Nat) (n : Int) : Nat :=
  if n < 0 then clearByte fd (n + 4).toNat else fd

theorem storedNumber_of_nonneg {fd : Nat} {n : Int} (hn : 0 ≤ n) : storedNumber fd n = fd :=
  if_neg (by omega)

theorem storedNumber_le (fd : Nat) (n : Int) : storedNumber fd n ≤ fd := by
  unfold storedNumber
  split
  · exact clearByte_le fd _
  · exact Nat.le_refl fd

def newEntry (fs : FsState) (p fd : Nat) (n : Int) : Fentry where
  indexNumber := storedNumber fd n
  fileName := fun j => if (j.val : Int) ≤ n then 0 else (fs.fentry p).fileName j
  firstBlock := none
  nextEntry := fs.fentryHead
  occupied := MINUS_ONE

theorem clearNameByte_newEntry (fs : FsState) (p fd : Nat) {n : Int} (hn : n < 10) :
    Fentry.clearNameByte
      { indexNumber := fd
        fileName := fun j => if (j.val : Int) < n then 0 else (fs.fentry p).fileName j
        firstBlock := none
        nextEntry := fs.fentryHead
        occupied := MINUS_ONE } n = newEntry fs p fd n := by
  unfold Fentry.clearNameByte newEntry storedNumber
  split
  case isTrue hneg =>
    have hname : ∀ j : Fin 10, ¬ (j.val : Int) < n ∧ ¬ (j.val : Int) ≤ n := fun j => by omega
    simp only [(hname _).1, (hname _).2, if_false]
  case isFalse hneg =>
    have hlast : ∀ j : Fin 10, j = Fin.ofNat 10 n.toNat ↔ (j.val : Int) = n := by
      intro j
      rw [Fin.ext_iff, Fin.val_ofNat]
      omega
    congr 1
    funext j
    dsimp only
    by_cases hj : (j.val : Int) = n
    · rw [if_pos ((hlast j).2 hj), if_pos (Int.le_of_eq hj)]
    · rw [if_neg (mt (hlast j).1 hj)]
      by_cases hlt : (j.val : Int) < n
      · rw [if_pos hlt, if_pos (by omega)]
      · rw [if_neg hlt, if_neg (by omega)]

theorem createFileFromName_cases {name : Nat → UInt8} {n : Int} {answer : Option Nat} {c : Int}
    (hrun : createFileFromName fs name n answer = .ok (c, fs')) :
    fs' = fs ∧ (answer = none ∨ 10 ≤ n ∨ fnameToFd fs name n = .ok 0) ∨
    ∃ p fd, answer = some p ∧ unusedFd fs walkFuel 1 = .ok fd ∧ c = fd ∧ -4 ≤ n ∧
      fs' = { fs.setEntry p (newEntry fs p fd n) with fentryHead := some p } := by
  unfold createFileFromName at hrun
  split at hrun
  case isTrue hlen => exact Or.inl ⟨(Prod.mk.inj (Except.ok.inj hrun)).2.symm, Or.inr (Or.inl hlen)⟩
  case isFalse hlen =>
    obtain ⟨same, hsame, hrun⟩ := Res.bind_eq_ok.1 hrun
    split at hrun
    case isTrue hzero =>
      rw [hzero] at hsame
      exact Or.inl ⟨(Prod.mk.inj (Except.ok.inj hrun)).2.symm, Or.inr (Or.inr hsame)⟩
    case isFalse =>
      obtain ⟨fd, hfd, hrun⟩ := Res.bind_eq_ok.1 hrun
      cases answer with
      | none => exact Or.inl ⟨(Prod.mk.inj (Except.ok.inj hrun)).2.symm, Or.inl rfl⟩
      | some p =>
          dsimp only at hrun
          split at hrun
          · simp at hrun
          · rw [clearNameByte_newEntry fs p fd (by omega)] at hrun
            obtain ⟨h₁, h₂⟩ := Prod.mk.inj (Except.ok.inj hrun)
            exact Or.inr ⟨p, fd, rfl, hfd, h₁.symm, by omega, h₂.symm⟩

section Create

variable {p fd : Nat} {n : Int}

theorem newEntry_self (fs : FsState) (p fd : Nat) (n : Int) :
    (fs.setEntry p (newEntry fs p fd n)).fentry p = newEntry fs p fd n := if_pos rfl

theorem newEntry_others (hp : p ∉ files) (fs : FsState) (fd : Nat) (n : Int) :
    ∀ y ∈ files, (fs.setEntry p (newEntry fs p fd n)).fentry y = fs.fentry y := by
  intro y hy
  apply if_neg
  rintro rfl
  exact hp hy

theorem FileList.create (h : FileList fs files) (hp : p ∉ files)
    (hbounds : 0 < p ∧ p < 4294967296) :
    FileList { fs.setEntry p (newEntry fs p fd n) with fentryHead := some p } (p :: files) := by
  refine ⟨⟨rfl, ?_⟩, fun y hy => ?_⟩
  · show Seg (fs.setEntry p (newEntry fs p fd n)).nextEntry
      ((fs.setEntry p (newEntry fs p fd n)).fentry p).nextEntry files none
    rw [newEntry_self]
    exact Seg.congr h.file_list fun y hy =>
      congrArg Fentry.nextEntry (newEntry_others hp fs fd n y hy)
  · cases List.mem_cons.1 hy with
    | inl hyp => exact hyp ▸ hbounds
    | inr hy => exact h.addresses y hy

theorem Owned.create (h : Owned fs files free chain) (hp : p ∉ files)
    (hbounds : 0 < p ∧ p < 4294967296) :
    Owned { fs.setEntry p (newEntry fs p fd n) with fentryHead := some p } (p :: files) free
      (Function.update chain p []) := by
  have hne : ∀ y ∈ files, y ≠ p := fun y hy hc => hp (hc ▸ hy)
  have hlisted := @FileList.create fs files p fd n h.fileList hp hbounds
  have hchain : files.flatMap (Function.update chain p []) = files.flatMap chain :=
    List.flatMap_congr fun y hy => Function.update_of_ne (hne y hy) _ _
  have hall : (p :: files).flatMap (Function.update chain p []) = files.flatMap chain := by
    rw [List.flatMap_cons, Function.update_self, hchain, List.nil_append]
  refine ⟨hlisted.file_list, hlisted.addresses, h.free_list, ?_, ?_, ?_, h.links, h.addr⟩
  · intro y hy
    rcases List.mem_cons.1 hy with rfl | hy
    · rw [Function.update_self]
      exact congrArg Fentry.firstBlock (newEntry_self fs y fd n)
    · have hfirst : (fs.setEntry p (newEntry fs p fd n)).firstBlock y = fs.firstBlock y :=
        congrArg Fentry.firstBlock (newEntry_others hp fs fd n y hy)
      rw [Function.update_of_ne (hne y hy)]
      show Chain fs.nextBlock ((fs.setEntry p (newEntry fs p fd n)).firstBlock y) (chain y)
      rw [hfirst]
      exact h.chains y hy
  · rw [hall]
    exact h.once
  · rw [hall]
    exact h.inside

theorem Numbered.create (h : Numbered fs files) (hlisted : FileList fs files) (hn : 0 ≤ n)
    (hp : p ∉ files) (hfd : unusedFd fs walkFuel 1 = .ok fd) :
    Numbered { fs.setEntry p (newEntry fs p fd n) with fentryHead := some p } (p :: files) := by
  obtain ⟨hpos, hnew, -⟩ := hlisted.unusedFd_spec hfd
  have hle := hlisted.unusedFd_le hfd
  have hidx : ∀ y ∈ files,
      (fs.setEntry p (newEntry fs p fd n)).indexNumber y = fs.indexNumber y := fun y hy =>
    congrArg Fentry.indexNumber (newEntry_others hp fs fd n y hy)
  have hidxp : (fs.setEntry p (newEntry fs p fd n)).indexNumber p = fd :=
    (congrArg Fentry.indexNumber (newEntry_self fs p fd n)).trans (storedNumber_of_nonneg hn)
  constructor
  · show ((fs.setEntry p (newEntry fs p fd n)).indexNumber p :: files.map
      (fs.setEntry p (newEntry fs p fd n)).indexNumber).Nodup
    rw [hidxp, List.map_congr_left hidx]
    refine List.nodup_cons.2 ⟨fun hc => ?_, h.indices⟩
    obtain ⟨y, hy, hyi⟩ := List.mem_map.1 hc
    exact hnew y hy hyi
  · intro y hy
    show 1 ≤ (fs.setEntry p (newEntry fs p fd n)).indexNumber y ∧
      (fs.setEntry p (newEntry fs p fd n)).indexNumber y ≤ (p :: files).length
    rw [List.length_cons]
    rcases List.mem_cons.1 hy with rfl | hy
    · rw [hidxp]
      exact ⟨hpos, hle⟩
    · have hbound := h.bounds y hy
      rw [hidx y hy]
      omega

end Create

/-! ## `append_file` -/

/-- The transfers of `append_file` store the buffer in the sectors of the new blocks, in order. -/
theorem writeBlocks_spec {mem : Memory} {addr n i : Nat} {io : Nat → Int} {p : Option Nat}
    {l : List Nat} {disk disk' : Nat → Block} (hchain : Chain fs.nextBlock p l) (hlen : l.length = n)
    (haddr : ∀ b ∈ l, (fs.dbTable b).ondiskAddr >>> 9 = sector b) (hnodup : l.Nodup)
    (hrun : writeBlocks fs mem addr io n i p disk = .ok disk') :
    (∀ t, (∀ b ∈ l, t ≠ sector b) → disk' t = disk t) ∧
      l.map (fun b => disk' (sector b)) =
        (List.range n).map fun k => blockAt mem (add32 addr (512 * (i + k))) := by
  induction n generalizing i p l disk with
  | zero =>
      obtain rfl := List.length_eq_zero_iff.1 hlen
      obtain rfl := Except.ok.inj hrun
      exact ⟨fun _ _ => rfl, rfl⟩
  | succ n ih =>
      cases l with
      | nil => simp at hlen
      | cons b l =>
          obtain ⟨rfl, hl⟩ := hchain
          obtain ⟨hb, hnodup⟩ := List.nodup_cons.1 hnodup
          rw [writeBlocks] at hrun
          split at hrun
          · simp at hrun
          · have hpa : P2V (V2P (add32 addr (STORAGE_BLOCK_SIZE * i))) = add32 addr (512 * i) := by
              rw [show STORAGE_BLOCK_SIZE = 512 from rfl]
              exact P2V_V2P (add32_lt _ _)
            obtain ⟨h₁, h₂⟩ := ih hl (by simpa using hlen) (fun c hc => haddr c (by simp [hc]))
              hnodup hrun
            have hsame : ∀ c ∈ l, sector c ≠ sector b := by
              intro c hc heq
              rw [sector_eq, sector_eq] at heq
              exact hb ((by omega : c = b) ▸ hc)
            have hwrite : ∀ t, sdWriteBlock disk mem (V2P (add32 addr (STORAGE_BLOCK_SIZE * i)))
                ((fs.dbTable b).ondiskAddr >>> 9) t =
                if t = sector b then blockAt mem (add32 addr (512 * i)) else disk t := by
              intro t
              unfold sdWriteBlock
              rw [haddr b (by simp), hpa]
            constructor
            · intro t ht
              rw [h₁ t fun c hc => ht c (by simp [hc]), hwrite, if_neg (ht b (by simp))]
            · rw [List.map_cons, List.range_succ_eq_map, List.map_cons, h₂,
                h₁ (sector b) fun c hc => (hsame c hc).symm, hwrite, if_pos rfl, List.map_map,
                Nat.add_zero]
              refine congrArg (List.cons _) (List.map_congr_left fun k _ => ?_)
              rw [Function.comp_apply, Nat.succ_eq_add_one, Nat.add_right_comm i 1 k,
                Nat.add_assoc i k 1]

theorem linkBlocks_entry {x p : Nat} (hrun : linkBlocks fs x p = .ok fs') :
    fs'.fentryHead = fs.fentryHead ∧
      ∀ y, ∃ q, fs'.fentry y = { fs.fentry y with firstBlock := q } := by
  unfold linkBlocks at hrun
  cases hfirst : fs.firstBlock x with
  | some pt =>
      rw [hfirst] at hrun
      obtain ⟨t, -, hset⟩ := Res.bind_eq_ok.1 hrun
      obtain rfl := Except.ok.inj hset
      exact ⟨rfl, fun y => ⟨_, rfl⟩⟩
  | none =>
      rw [hfirst] at hrun
      obtain rfl := Except.ok.inj hrun
      refine ⟨rfl, fun y => ?_⟩
      by_cases hyx : y = x
      · rw [hyx]
        exact ⟨some p, if_pos rfl⟩
      · exact ⟨_, if_neg hyx⟩

/-- A call of `append_file` that fails leaves the entries and the chains as they are; one that
succeeds takes the first blocks of the free list and stores the buffer in them. -/
theorem Owned.appendFile_cases {w w' : World} (h : Owned w.fs files free chain)
    {pid index addr : Nat} {size c : Int} {io : Nat → Int}
    (hrun : appendFile w pid index addr size io = .ok (c, w')) :
    (c < 0 ∧ w'.mem = w.mem ∧ w'.disk = w.disk ∧ w'.fs.fentry = w.fs.fentry ∧
      w'.fs.fentryHead = w.fs.fentryHead ∧ ∃ free', Owned w'.fs files free' chain) ∨
    (c = 0 ∧ w'.mem = w.mem ∧ ∃ x pre post, x ∈ files ∧ w.fs.indexNumber x = index ∧
      ¬ w.fs.heldByOther x pid ∧ free = pre ++ post ∧ (pre.length : Int) = size ∧
      Owned w'.fs files post (Function.update chain x (chain x ++ pre)) ∧
      (∀ y, ∃ q, w'.fs.fentry y = { w.fs.fentry y with firstBlock := q }) ∧
      (∀ t, (∀ b ∈ pre, t ≠ sector b) → w'.disk t = w.disk t) ∧
      pre.map (fun b => w'.disk (sector b)) = bufferBlocks w.mem addr size.toNat) := by
  unfold appendFile at hrun
  rcases h.dataAlloc_spec size with hok | hno
  · obtain ⟨pre, post, p, fs₁, hfree, hlen, halloc, hown, hpre, hentry, hhead⟩ := hok
    rw [halloc] at hrun
    dsimp only at hrun
    have hindex : fs₁.indexNumber = w.fs.indexNumber := by
      funext y
      exact congrArg Fentry.indexNumber (congrFun hentry y)
    have hoccupied : fs₁.occupied = w.fs.occupied := by
      funext y
      exact congrArg Fentry.occupied (congrFun hentry y)
    rcases hown.findIndex_spec index with hfound | hnone
    · obtain ⟨x, hx, hidx, hfind⟩ := hfound
      rw [hfind, Res.ok_bind] at hrun
      dsimp only at hrun
      split at hrun
      case isTrue =>
        obtain ⟨rfl, rfl⟩ := Prod.mk.inj (Except.ok.inj hrun)
        exact Or.inl ⟨by decide, rfl, rfl, hentry, hhead, post, hown⟩
      case isFalse hheld =>
        obtain ⟨fs₂, hlink, hrun⟩ := Res.bind_eq_ok.1 hrun
        obtain ⟨disk, hwrite, hrun⟩ := Res.bind_eq_ok.1 hrun
        obtain ⟨rfl, rfl⟩ := Prod.mk.inj (Except.ok.inj hrun)
        have honce := h.once
        have hinside := h.inside
        rw [hfree, List.append_assoc] at honce hinside
        obtain ⟨fs₃, hlink', hown₂, hpre₂⟩ := hown.link hx hpre honce
          fun b hb => hinside b (List.mem_append_left _ hb)
        obtain rfl := Except.ok.inj (hlink.symm.trans hlink')
        have hnodup := (List.nodup_append.1 honce).1
        have hsector : ∀ b ∈ p :: pre, (fs₂.dbTable b).ondiskAddr >>> 9 = sector b :=
          fun b hb => hown₂.sector_addr (hinside b (List.mem_append_left _ hb))
        obtain ⟨hold, hnew⟩ := writeBlocks_spec hpre₂ (by omega) hsector hnodup hwrite
        refine Or.inr ⟨rfl, rfl, x, p :: pre, post, hx, ?_, ?_, hfree, hlen, hown₂, ?_, hold, ?_⟩
        · rw [← hindex]
          exact hidx
        · unfold FsState.heldByOther at hheld ⊢
          rw [← hoccupied]
          exact hheld
        · rw [← hentry]
          exact (linkBlocks_entry hlink).2
        · unfold bufferBlocks
          simpa using hnew
    · obtain ⟨-, hfind⟩ := hnone
      rw [hfind, Res.ok_bind] at hrun
      obtain ⟨rfl, rfl⟩ := Prod.mk.inj (Except.ok.inj hrun)
      exact Or.inl ⟨by decide, rfl, rfl, hentry, hhead, post, hown⟩
  · rw [hno.2] at hrun
    obtain ⟨rfl, rfl⟩ := Prod.mk.inj (Except.ok.inj hrun)
    exact Or.inl ⟨by decide, rfl, rfl, rfl, rfl, free, h⟩

end Aimv6.Fs
