import Aimv6.Drivers.SdStore
import Aimv6.Fs.FsRun

/-! # The file system's transfers

`append_file` and `read_datablock` by their accesses to the SD controller. When
one of them returns, it has done what it does with a disk that is read and
written at a stroke; at every moment before, an append has touched no sector but
those of the blocks it has taken.
-/

namespace Aimv6.Fs

open Support Drivers

/-- What does not come back keeps the driver waiting. -/
def awaited {α : Type} : Res α → Driver SdReg α
  | .ok a => pure a
  | .error _ => .waiting

theorem awaited_ok {α β : Type} (a : α) (k : α → Driver SdReg β) : awaited (.ok a) >>= k = k a := rfl

/-- The transfers of `append_file`, from block `i` of the buffer on. -/
def appendTransfers (polls : Nat) (fs : FsState) (addr : Nat) : Nat → Nat → Option Nat → Driver SdReg Unit
  | 0, _, _ => pure ()
  | _ + 1, _, none => .waiting
  | n + 1, i, some p => do
      let ret ← sdDmaSpinWrite polls (V2P (add32 addr (STORAGE_BLOCK_SIZE * i))) 1
        ((fs.dbTable p).ondiskAddr >>> 9)
      -- `while (1);`
      if ret < 0 then .waiting
      else appendTransfers polls fs addr n (i + 1) (fs.nextBlock p)

/-- `append_file(pid, index_number, addr, size)` -/
def runAppendFile (polls : Nat) (fs : FsState) (pid index addr : Nat) (size : Int) :
    Driver SdReg (Int × FsState) :=
  let (p, fs) := dataAlloc fs size
  match p with
  | none => pure (-1, fs)
  | some p => do
      let x ← awaited (fs.findIndex index)
      match x with
      | none => pure (-2, fs)
      | some x =>
          if fs.heldByOther x pid then pure (-3, fs)
          else do
            let fs ← awaited (linkBlocks fs x p)
            appendTransfers polls fs addr size.toNat 0 (some p)
            pure (0, fs)

/-- The loop of `read_datablock` from block `i` on, and whether every transfer went well. -/
def readTransfers (polls : Nat) (fs : FsState) (ret : Nat) : Nat → Nat → Option Nat → Driver SdReg Bool
  | 0, _, _ => pure true
  | _ + 1, _, none => pure true
  | n + 1, i, some p => do
      let r ← sdDmaSpinRead polls (V2P (add32 ret (STORAGE_BLOCK_SIZE * i))) 1
        ((fs.dbTable p).ondiskAddr >>> 9)
      if r < 0 then pure false
      else readTransfers polls fs ret n (i + 1) (fs.nextBlock p)

/-- `read_datablock(pid, index_number, pos, size)`; `ret` is what `kmalloc` returns. -/
def runReadDatablock (polls : Nat) (fs : FsState) (pid index pos size ret : Nat) :
    Driver SdReg (Option Nat) := do
  let p ← awaited (seekDatablock fs pid index pos)
  let good ← readTransfers polls fs ret size 0 p
  pure (if good = true then ptr ret else none)

variable {q q' : SdController} {polls n i addr size sec pa : Nat} {m : Memory} {disk : Nat → Block}
  {fs : FsState} {p : Option Nat}

/-! ## One transfer -/

theorem sdWriteBlock_eq (disk : Nat → Block) (m : Memory) (pa sec : Nat) :
    sdWriteBlock disk m pa sec = sdWriteBlocks m pa 1 sec disk := by
  funext t
  unfold sdWriteBlock sdWriteBlocks
  by_cases ht : t = sec
  · rw [if_pos ht, if_pos (by omega), ht, Nat.sub_self, Nat.mul_zero, Nat.add_zero]
  · rw [if_neg ht, if_neg (by omega)]

theorem sdReadBlock_eq (m : Memory) (disk : Nat → Block) (pa sec : Nat) :
    sdReadBlock m disk pa sec = sdReadBlocks disk pa 1 sec m := by
  funext a
  unfold sdReadBlock sdReadBlocks
  by_cases ha : P2V pa ≤ a ∧ a < P2V pa + 512
  · have hlt : a - P2V pa < 512 := by omega
    have hoff : (a - P2V pa) / 512 = 0 := Nat.div_eq_of_lt hlt
    have hmod : (a - P2V pa) % 512 = a - P2V pa := Nat.mod_eq_of_lt hlt
    rw [dif_pos ha, if_pos (by omega), hoff, Nat.add_zero]
    exact congrArg (disk sec) (Fin.ext hmod.symm)
  · rw [dif_neg ha, if_neg (by omega)]

/-- Bytes of the card outside the sectors are as before. -/
def Spares (card : Memory) (secs : List Nat) (q : SdController) : Prop :=
  ∀ b, b / 512 ∉ secs → q.card b = card b

theorem write_holds (hq : q.Ready 512) (hseen : Seen m disk q.image) (hpa : pa + 512 ≤ 2147483648) :
    (sdDmaSpinWrite polls pa 1 sec).Holds sdController (Spares q.card [sec])
      (fun ret q' => Spares q.card [sec] q' ∧ q'.Ready 512 ∧
        (¬ ret < 0 → Seen m (sdWriteBlock disk m pa sec) q'.image)) q := by
  obtain ⟨j, hj⟩ : ∃ j, j = (SdTransfer.write pa 1 sec).job 512 := ⟨_, rfl⟩
  have htotal : j.total = 512 := by rw [hj]; rfl
  have hstart : j.start = sec * 512 := by rw [hj]; rfl
  have hspares : ∀ {q₁ : SdController}, j.Holding q.image 512 q₁ → Spares q.card [sec] q₁ := by
    intro q₁ h₁ b hb
    obtain ⟨n, hn, himage⟩ := h₁.partway
    have hne : b / 512 ≠ sec := fun h => hb (h ▸ List.mem_singleton_self _)
    have hcard := @moves_card j q.image n b (Or.inr (by omega))
    exact (congrFun (congrArg Prod.snd himage) b).trans hcard
  have hwrite := @SdTransfer.holds 512 polls q (.write pa 1 sec) hq
  rw [← hj] at hwrite
  refine hwrite.weaken (fun q₁ h₁ => hspares h₁) fun ret q₁ h₁ =>
    ⟨hspares h₁.holding, ⟨h₁.idle, h₁.holding.blkSize, h₁.holding.unit⟩, fun hret => ?_⟩
  have himage := h₁.all (le_antisymm h₁.nonpos (Int.not_lt.1 hret))
  have hmoved := @moves_writeJob q.image 512 pa 1 sec (by omega)
  rw [htotal, hj] at himage
  rw [himage, hmoved, sdWriteBlock_eq]
  exact hseen.write (by omega)

theorem read_holds (hq : q.Ready 512) (hseen : Seen m disk q.image) (hpa : pa + 512 ≤ 2147483648) :
    (sdDmaSpinRead polls pa 1 sec).Holds sdController (fun q' => q'.card = q.card)
      (fun ret q' => q'.card = q.card ∧ q'.Ready 512 ∧
        (¬ ret < 0 → Seen (sdReadBlock m disk pa sec) disk q'.image)) q := by
  obtain ⟨j, hj⟩ : ∃ j, j = (SdTransfer.read pa 1 sec).job 512 := ⟨_, rfl⟩
  have htotal : j.total = 512 := by rw [hj]; rfl
  have hkept : ∀ {q₁ : SdController}, j.Holding q.image 512 q₁ → q₁.card = q.card := by
    intro q₁ h₁
    obtain ⟨n, -, himage⟩ := h₁.partway
    refine (congrArg Prod.snd himage).trans (funext fun b => ?_)
    exact moves_card (Or.inl (by rw [hj]; rfl))
  have hread := @SdTransfer.holds 512 polls q (.read pa 1 sec) hq
  rw [← hj] at hread
  refine hread.weaken (fun q₁ h₁ => hkept h₁) fun ret q₁ h₁ =>
    ⟨hkept h₁.holding, ⟨h₁.idle, h₁.holding.blkSize, h₁.holding.unit⟩, fun hret => ?_⟩
  have himage := h₁.all (le_antisymm h₁.nonpos (Int.not_lt.1 hret))
  have hmoved := @moves_readJob q.image 512 pa 1 sec (by omega)
  rw [htotal, hj] at himage
  rw [himage, hmoved, sdReadBlock_eq]
  exact hseen.read (by omega)

/-! ## The loops -/

/-- The sectors of `n` blocks from `p` on. -/
def sectorsFrom (fs : FsState) : Nat → Option Nat → List Nat
  | 0, _ => []
  | _ + 1, none => []
  | n + 1, some p => (fs.dbTable p).ondiskAddr >>> 9 :: sectorsFrom fs n (fs.nextBlock p)

theorem Spares.trans {card : Memory} {secs : List Nat} (h : Spares card secs q)
    (hsec : sec ∈ secs) (h' : Spares q.card [sec] q') : Spares card secs q' := by
  intro b hb
  refine (h' b fun hmem => ?_).trans (h b hb)
  rw [List.mem_singleton.1 hmem] at hb
  exact hb hsec

/-- Block `i` of a buffer and the blocks behind it lie within a bound that the buffer lies within. -/
theorem block_within {bound : Nat} (h : addr + 512 * (i + (n + 1)) ≤ bound) :
    addr + 512 * i + 512 ≤ bound ∧ addr + 512 * (i + 1 + n) ≤ bound := by
  omega

theorem kernel_block (haddr : KERNEL_BASE ≤ addr) (hroom : addr + 512 * i + 512 ≤ 4294967296) :
    V2P (add32 addr (STORAGE_BLOCK_SIZE * i)) + 512 ≤ 2147483648 := by
  have hadd : add32 addr (STORAGE_BLOCK_SIZE * i) = addr + 512 * i := add32_of_lt (by
    rw [show STORAGE_BLOCK_SIZE = 512 from rfl]
    omega)
  rw [hadd]
  unfold V2P sub32 KERNEL_BASE at *
  omega

theorem appendTransfers_holds {card : Memory} {secs : List Nat} (hq : q.Ready 512)
    (hseen : Seen m disk q.image) (haddr : KERNEL_BASE ≤ addr)
    (hroom : addr + 512 * (i + n) ≤ 4294967296) (hspares : Spares card secs q)
    (hsecs : ∀ t ∈ sectorsFrom fs n p, t ∈ secs) :
    (appendTransfers polls fs addr n i p).Holds sdController (Spares card secs)
      (fun _ q' => Spares card secs q' ∧ q'.Ready 512 ∧ ∃ disk',
        writeBlocks fs m addr (fun _ => 0) n i p disk = .ok disk' ∧ Seen m disk' q'.image) q := by
  induction n generalizing q disk i p with
  | zero =>
      exact Driver.still_done (fun _ => SdController.own_idle hq.idle) hspares
        ⟨hspares, hq, disk, rfl, hseen⟩
  | succ n ih =>
      cases p with
      | none => exact Driver.still_waiting (fun _ => SdController.own_idle hq.idle) hspares
      | some b =>
          have hfirst := hsecs _ (List.mem_cons_self ..)
          obtain ⟨hfits, hrest⟩ := block_within hroom
          have hwrite := @write_holds q polls ((fs.dbTable b).ondiskAddr >>> 9) _ m disk hq hseen
            (kernel_block haddr hfits)
          refine Driver.holds_bind ((hwrite.weaken (fun q₁ h₁ => hspares.trans hfirst h₁)
            fun ret q₁ h₁ => h₁).mono fun ret q₁ h₁ => ?_)
          obtain ⟨hspares₁, hready, hdone⟩ := h₁
          have hspares₁ := hspares.trans hfirst hspares₁
          by_cases hret : ret < 0
          · rw [if_pos hret]
            exact Driver.still_waiting (fun _ => SdController.own_idle hready.idle) hspares₁
          · rw [if_neg hret]
            refine (ih hready (hdone hret) hrest hspares₁
              fun t ht => hsecs t (List.mem_cons_of_mem _ ht)).mono fun _ q₂ h₂ => ?_
            obtain ⟨hspares₂, hready₂, disk', hblocks, hseen₂⟩ := h₂
            refine ⟨hspares₂, hready₂, disk', ?_, hseen₂⟩
            rw [writeBlocks, if_neg (by decide)]
            exact hblocks

theorem readTransfers_holds {buf : Nat} (hq : q.Ready 512) (hseen : Seen m disk q.image)
    (hbuf : KERNEL_BASE ≤ buf) (hroom : buf + 512 * (i + n) ≤ 4294967296) :
    (readTransfers polls fs buf n i p).Holds sdController (fun q' => q'.card = q.card)
      (fun good q' => q'.card = q.card ∧ q'.Ready 512 ∧ ∃ k m', i ≤ k ∧
        readBlocks fs disk buf (fun j => if j < k then 0 else -1) n i p m = (good, m') ∧
        (good = true → Seen m' disk q'.image)) q := by
  induction n generalizing q m i p with
  | zero =>
      exact Driver.still_done (fun _ => SdController.own_idle hq.idle) rfl
        ⟨rfl, hq, i, m, Nat.le_refl i, rfl, fun _ => hseen⟩
  | succ n ih =>
      cases p with
      | none =>
          exact Driver.still_done (fun _ => SdController.own_idle hq.idle) rfl
            ⟨rfl, hq, i, m, Nat.le_refl i, rfl, fun _ => hseen⟩
      | some b =>
          obtain ⟨hfits, hrest⟩ := block_within hroom
          have hread := @read_holds q polls ((fs.dbTable b).ondiskAddr >>> 9) _ m disk hq hseen
            (kernel_block hbuf hfits)
          refine Driver.holds_bind (hread.mono fun r q₁ h₁ => ?_)
          obtain ⟨hcard, hready, hdone⟩ := h₁
          by_cases hr : r < 0
          · rw [if_pos hr]
            refine Driver.still_done (fun _ => SdController.own_idle hready.idle) hcard
              ⟨hcard, hready, i, m, Nat.le_refl i, ?_, fun h => absurd h (by decide)⟩
            rw [readBlocks, if_neg (Nat.lt_irrefl i), if_pos (by decide)]
          · rw [if_neg hr]
            refine (ih hready (hdone hr) hrest).weaken (fun q₂ h₂ => h₂.trans hcard)
              fun good q₂ h₂ => ?_
            obtain ⟨hcard₂, hready₂, k, m', hk, hblocks, hgood⟩ := h₂
            refine ⟨hcard₂.trans hcard, hready₂, k, m', by omega, ?_, hgood⟩
            rw [readBlocks, if_pos (show i < k by omega), if_neg (by decide)]
            exact hblocks

/-! ## The calls -/

variable {files free : List Nat} {chain : Nat → List Nat} {pid index pos : Nat}

theorem sectorsFrom_chain {l : List Nat} (hchain : Chain fs.nextBlock p l) (hlen : l.length = n)
    (haddr : ∀ b ∈ l, (fs.dbTable b).ondiskAddr >>> 9 = sector b) :
    sectorsFrom fs n p = l.map sector := by
  induction n generalizing p l with
  | zero =>
      obtain rfl := List.length_eq_zero_iff.1 hlen
      rfl
  | succ n ih =>
      cases l with
      | nil => simp at hlen
      | cons b l =>
          obtain ⟨rfl, hl⟩ := hchain
          rw [sectorsFrom, List.map_cons, haddr b (List.mem_cons_self ..),
            ih hl (by simpa using hlen) fun c hc => haddr c (List.mem_cons_of_mem b hc)]

/-- An append over the controller is one at a stroke, and touches free blocks only. -/
theorem runAppendFile_holds {size : Int} (h : Owned fs files free chain) (hq : q.Ready 512)
    (hseen : Seen m disk q.image) (haddr : KERNEL_BASE ≤ addr)
    (hroom : addr + 512 * size.toNat ≤ 4294967296) :
    (runAppendFile polls fs pid index addr size).Holds sdController
      (Spares q.card (free.map sector))
      (fun r q' => Spares q.card (free.map sector) q' ∧ q'.Ready 512 ∧ ∃ disk',
        appendFile ⟨fs, m, disk⟩ pid index addr size (fun _ => 0) = .ok (r.1, ⟨r.2, m, disk'⟩) ∧
        Seen m disk' q'.image) q := by
  have hself : Spares q.card (free.map sector) q := fun _ _ => rfl
  unfold runAppendFile appendFile
  dsimp only
  rcases h.dataAlloc_spec size with hok | hno
  · obtain ⟨pre, post, b, fs₁, hfree, hlen, halloc, hown, hpre, -, -⟩ := hok
    rw [halloc]
    dsimp only
    rcases hown.findIndex_spec index with ⟨x, hx, -, hfind⟩ | ⟨-, hfind⟩
    · rw [hfind, Res.ok_bind, awaited_ok]
      dsimp only
      by_cases hheld : fs₁.heldByOther x pid
      · rw [if_pos hheld, if_pos hheld]
        exact Driver.still_done (fun _ => SdController.own_idle hq.idle) hself
          ⟨hself, hq, disk, rfl, hseen⟩
      · rw [if_neg hheld, if_neg hheld]
        have honce := h.once
        have hinside := h.inside
        rw [hfree, List.append_assoc] at honce hinside
        obtain ⟨fs₂, hlink, hown₂, hpre₂⟩ := hown.link hx hpre honce
          fun c hc => hinside c (List.mem_append_left _ hc)
        have hsectors := sectorsFrom_chain (n := size.toNat) hpre₂ (by omega) fun c hc =>
          hown₂.sector_addr (hinside c (List.mem_append_left _ hc))
        rw [hlink, Res.ok_bind, awaited_ok]
        refine Driver.holds_bind ((appendTransfers_holds hq hseen haddr (by rw [Nat.zero_add]; exact hroom)
          hself fun t ht => ?_).mono fun _ q₁ h₁ => ?_)
        · rw [hsectors] at ht
          rw [hfree, List.map_append]
          exact List.mem_append_left _ ht
        · obtain ⟨hspares, hready, disk', hblocks, hseen'⟩ := h₁
          refine Driver.still_done (fun _ => SdController.own_idle hready.idle) hspares
            ⟨hspares, hready, disk', ?_, hseen'⟩
          rw [hblocks]
          rfl
    · rw [hfind, Res.ok_bind, awaited_ok]
      exact Driver.still_done (fun _ => SdController.own_idle hq.idle) hself
        ⟨hself, hq, disk, rfl, hseen⟩
  · rw [hno.2]
    exact Driver.still_done (fun _ => SdController.own_idle hq.idle) hself
      ⟨hself, hq, disk, rfl, hseen⟩

theorem readBlocks_good {buf : Nat} {io io' : Nat → Int} {m' : Memory} (hio' : ∀ k, 0 ≤ io' k)
    (h : readBlocks fs disk buf io n i p m = (true, m')) :
    readBlocks fs disk buf io' n i p m = (true, m') := by
  induction n generalizing i p m with
  | zero => exact h
  | succ n ih =>
      cases p with
      | none => exact h
      | some b =>
          rw [readBlocks] at h ⊢
          rw [if_neg (Int.not_lt.2 (hio' i))]
          split at h
          · exact absurd (Prod.mk.inj h).1 (by decide)
          · exact ih h

/-- A read over the controller is one at a stroke; of one that fails the memory is not known. -/
theorem runReadDatablock_holds {buf : Nat} (hq : q.Ready 512) (hseen : Seen m disk q.image)
    (hbuf : KERNEL_BASE ≤ buf) (hroom : buf + 512 * size ≤ 4294967296) :
    (runReadDatablock polls fs pid index pos size buf).Holds sdController (fun q' => q'.card = q.card)
      (fun r q' => q'.card = q.card ∧ q'.Ready 512 ∧ ∃ io m',
        readDatablock ⟨fs, m, disk⟩ pid index pos size buf io = .ok (r, ⟨fs, m', disk⟩) ∧
        (r ≠ none → (∀ k, 0 ≤ io k) ∧ Seen m' disk q'.image)) q := by
  unfold runReadDatablock readDatablock
  cases hseek : seekDatablock fs pid index pos with
  | error e => exact Driver.still_waiting (fun _ => SdController.own_idle hq.idle) rfl
  | ok p =>
      rw [awaited_ok]
      refine Driver.holds_bind ((readTransfers_holds hq hseen hbuf
        (by rw [Nat.zero_add]; exact hroom)).mono fun good q₁ h₁ => ?_)
      obtain ⟨hcard, hready, k, m', -, hblocks, hgood⟩ := h₁
      refine Driver.still_done (fun _ => SdController.own_idle hready.idle) hcard ⟨hcard, hready, ?_⟩
      cases good with
      | true =>
          refine ⟨fun _ => 0, m', ?_, fun _ => ⟨fun _ => Int.le_refl 0, hgood rfl⟩⟩
          rw [Res.ok_bind, readBlocks_good (fun _ => Int.le_refl 0) hblocks]
      | false =>
          refine ⟨fun j => if j < k then 0 else -1, m', ?_, fun hr => absurd rfl hr⟩
          rw [Res.ok_bind, hblocks]

end Aimv6.Fs
