import Aimv6.Fs.FsSyscall
import Aimv6.Fs.FsRun

/-! # The contract of `read`

`read_datablock` answers with its buffer also where there is no file to read,
and `_read` copies as many bytes as it was asked for, whether or not the file
has them. The contract holds exactly where the file is there and long enough.
-/

namespace Aimv6.Fs

open Support

/-- A file system whose files are told apart by their index numbers. -/
structure Readable (fs : FsState) (files : List Nat) (chain : Nat → List Nat) : Prop where
  listed : FileList fs files
  unique : (files.map fs.indexNumber).Nodup
  chains : ∀ x ∈ files, Chain fs.nextBlock (fs.firstBlock x) (chain x)
  inside : ∀ x ∈ files, ∀ b ∈ chain x, b < NBLOCKS

theorem Owned.readable {fs : FsState} {files free : List Nat} {chain : Nat → List Nat}
    (h : Owned fs files free chain) (hnum : Numbered fs files) : Readable fs files chain :=
  ⟨h.fileList, hnum.indices, h.chains, fun _ hx _ hb => h.chain_lt hx hb⟩

/-- Byte `i` of the file that the blocks `bs` make up. -/
def fileByte (w : World) (bs : List Nat) (i : Nat) : UInt8 :=
  match bs[i / 512]? with
  | some b => w.disk ((w.fs.dbTable b).ondiskAddr >>> 9) (Fin.ofNat 512 i)
  | none => 0

/-- The entry `x` is the file `fd`, and `pid` may use it. -/
structure MayRead (fs : FsState) (files : List Nat) (pid fd x : Nat) : Prop where
  listed : x ∈ files
  index : fs.indexNumber x = fd
  free : ¬ fs.heldByOther x pid

/-- The call returns 0 with the first bytes of the file in the buffer, and no other byte of the
process changes. -/
structure ReadDone (w : World) (bs : List Nat) (p n : Nat) (r0 : Int) (mem mem' : Memory) : Prop where
  code : r0 = 0
  copied : ∀ i < min n (512 * bs.length), mem' (p + i) = fileByte w bs i
  kept : ∀ a < KERNEL_BASE, a < p ∨ p + min n (512 * bs.length) ≤ a → mem' a = mem a

/-- The call returns -1, and no byte of the process changes. -/
structure ReadRefused (r0 : Int) (mem mem' : Memory) : Prop where
  code : r0 = -1
  kept : ∀ a < KERNEL_BASE, mem' a = mem a

/-- What `read(fd, p, n)` promises to `pid`, whatever the memory holds. -/
def ReadContract (w : World) (files : List Nat) (chain : Nat → List Nat) (pid fd p n ret : Nat)
    (io : Nat → Int) : Prop :=
  ∀ mem : Memory, ∃ r0 r1 w', sysRead { w with mem := mem } pid fd p n ret io = .ok (r0, r1, w') ∧
    (∀ x, MayRead w.fs files pid fd x → ReadDone w (chain x) p n r0 mem w'.mem) ∧
    ((∀ x, ¬ MayRead w.fs files pid fd x) → ReadRefused r0 mem w'.mem)

variable {w : World} {files : List Nat} {chain : Nat → List Nat} {pid fd p n ret x : Nat}
  {io : Nat → Int}

theorem Readable.length_le (h : Readable w.fs files chain) (hx : x ∈ files) :
    (chain x).length ≤ 32768 :=
  nodup_length_le (h.chains x hx).nodup (h.inside x hx)

theorem Readable.findIndex (h : Readable w.fs files chain) (hx : x ∈ files) :
    w.fs.findIndex (w.fs.indexNumber x) = .ok (some x) := by
  rcases h.listed.findIndex_spec (w.fs.indexNumber x) with hfound | hnone
  · obtain ⟨y, hy, hidx, hfind⟩ := hfound
    obtain rfl := List.inj_on_of_nodup_map h.unique hx hy hidx.symm
    exact hfind
  · exact absurd rfl (hnone.1 x hx)

theorem Readable.unreadable (h : Readable w.fs files chain)
    (hno : ∀ x, ¬ MayRead w.fs files pid fd x) : seekDatablock w.fs pid fd 0 = .ok none := by
  unfold seekDatablock
  rcases h.listed.findIndex_spec fd with hfound | hnone
  · obtain ⟨x, hx, hidx, hfind⟩ := hfound
    rw [hfind, Res.ok_bind]
    dsimp only
    by_cases hheld : w.fs.heldByOther x pid
    · rw [if_pos hheld]
    · exact absurd ⟨hx, hidx, hheld⟩ (hno x)
  · rw [hnone.2]
    rfl

/-- Without a file to read the call copies the whole of its buffer and returns 0. -/
theorem sysRead_none (hseek : seekDatablock w.fs pid fd 0 = .ok none) (hret : 0 < ret) :
    sysRead w pid fd p n ret io =
      .ok (0, ret, { w with mem := copyLoop p ret (toInt n).toNat 0 w.mem }) := by
  unfold sysRead
  rw [readDatablock_none hseek hret, Res.ok_bind]

/-- With a file to read the buffer holds its first blocks, and old bytes behind them. -/
theorem Readable.sysRead_some (h : Readable w.fs files chain) (hx : MayRead w.fs files pid fd x)
    (hn : n < 2147483648) (hret : 0 < ret) (hroom : ret + STORAGE_SIZE < 4294967296)
    (hio : ∀ k, 0 ≤ io k) :
    ∃ mem', sysRead w pid fd p n ret io = .ok (0, ret, { w with mem := copyLoop p ret n 0 mem' }) ∧
      (∀ a, a < ret ∨ ret + 512 * min (blocksOf n) (chain x).length ≤ a → mem' a = w.mem a) ∧
      ∀ k b, k < blocksOf n → (chain x)[k]? = some b →
        blockAt mem' (ret + 512 * k) = w.disk ((w.fs.dbTable b).ondiskAddr >>> 9) := by
  have hlen := h.length_le hx.listed
  have hfind := h.findIndex hx.listed
  rw [hx.index] at hfind
  have hmin : 512 * min (blocksOf n) (chain x).length ≤ 512 * 32768 :=
    Nat.mul_le_mul_left 512 (Nat.le_trans (Nat.min_le_right _ _) hlen)
  unfold STORAGE_SIZE at hroom
  obtain ⟨mem', hread, hout, hin⟩ := @readDatablock_spec w x pid fd 0 (blocksOf n) ret (chain x) io
    hfind (h.chains x hx.listed) hx.free (Nat.zero_le _) hret
    (by rw [Nat.sub_zero]; omega) hio
  rw [Nat.sub_zero] at hout
  refine ⟨mem', ?_, hout, fun k b hk hb => ?_⟩
  · unfold sysRead
    rw [hread, Res.ok_bind, toInt_of_lt hn]
    rfl
  · exact hin k b hk (by rw [Nat.zero_add]; exact hb)

theorem Readable.read_within (h : Readable w.fs files chain) (hx : MayRead w.fs files pid fd x)
    (hp : p + n ≤ KERNEL_BASE) (hret : KERNEL_BASE ≤ ret)
    (hroom : ret + STORAGE_SIZE < 4294967296) (hio : ∀ k, 0 ≤ io k)
    (hle : n ≤ 512 * (chain x).length) : ReadContract w files chain pid fd p n ret io := by
  intro mem
  have hlen := h.length_le hx.listed
  have hn : n + 511 < 2147483648 := by omega
  have hblocks := blocksOf_eq hn
  unfold KERNEL_BASE at hp hret
  unfold STORAGE_SIZE at hroom
  obtain ⟨mem', hrun, hout, hin⟩ := @Readable.sysRead_some { w with mem := mem } files chain pid fd p n
    ret x io h hx (by omega) (by omega) hroom hio
  refine ⟨0, ret, _, hrun, fun y hy => ?_, fun hno => absurd hx (hno x)⟩
  obtain rfl : y = x := List.inj_on_of_nodup_map h.unique hy.listed hx.listed
    (hy.index.trans hx.index.symm)
  refine ⟨rfl, fun i hi => ?_, fun a ha haway => ?_⟩
  · rw [Nat.min_eq_left hle] at hi
    have hsrc : add32 ret i = ret + i := add32_of_lt (by omega)
    have hcopy := @copyLoop_at p ret n 0 i mem' hp hi (by
      rw [Nat.zero_add, hsrc]
      unfold KERNEL_BASE
      omega)
    rw [Nat.zero_add, hsrc] at hcopy
    have hk : i / 512 < (chain y).length := by omega
    have hget := List.getElem?_eq_getElem hk
    have hblock := congrFun (hin (i / 512) _ (by omega) hget) (Fin.ofNat 512 i)
    show copyLoop p ret n 0 mem' (p + i) = _
    unfold fileByte
    rw [hcopy, hget]
    dsimp only
    rw [← hblock]
    have hdiv : ret + i = ret + 512 * (i / 512) + i % 512 := by omega
    exact congrArg mem' hdiv
  · rw [Nat.min_eq_left hle] at haway
    show copyLoop p ret n 0 mem' a = mem a
    rw [copyLoop_outside hp haway]
    exact hout a (Or.inl (by unfold KERNEL_BASE at ha; omega))

/-- Behind the end of the file the call copies what the buffer held before. -/
theorem Readable.read_past (h : Readable w.fs files chain) (hx : MayRead w.fs files pid fd x)
    (hp : p + n ≤ KERNEL_BASE) (hn : n < 2147483648) (hret : KERNEL_BASE ≤ ret)
    (hroom : ret + STORAGE_SIZE < 4294967296) (hio : ∀ k, 0 ≤ io k)
    (hlt : 512 * (chain x).length < n) : ¬ ReadContract w files chain pid fd p n ret io := by
  intro hall
  have hlen := h.length_le hx.listed
  unfold KERNEL_BASE at hp hret
  unfold STORAGE_SIZE at hroom
  -- the first byte behind the file is 1 in the kernel and 0 in the process
  obtain ⟨c, hc⟩ : ∃ c, c = 512 * (chain x).length := ⟨_, rfl⟩
  obtain ⟨mem, hmem⟩ : ∃ mem : Memory, mem = fun a => if a = ret + c then 1 else 0 := ⟨_, rfl⟩
  obtain ⟨r0, r1, w', hrun, hdone, -⟩ := hall mem
  obtain ⟨mem', hrun', hout, -⟩ := @Readable.sysRead_some { w with mem := mem } files chain pid fd p n
    ret x io h hx hn (by omega) hroom hio
  obtain ⟨-, hpair⟩ := Prod.mk.inj (Except.ok.inj (hrun'.symm.trans hrun))
  obtain ⟨-, rfl⟩ := Prod.mk.inj hpair
  have hkept := (hdone x hx).kept (p + c) (by unfold KERNEL_BASE; omega) (by
    rw [Nat.min_eq_right (by omega)]
    omega)
  have hsrc : add32 ret c = ret + c := add32_of_lt (by omega)
  have hcopy := @copyLoop_at p ret n 0 c mem' hp (by omega) (by
    rw [Nat.zero_add, hsrc]
    unfold KERNEL_BASE
    omega)
  rw [Nat.zero_add, hsrc] at hcopy
  have hmin : 512 * min (blocksOf n) (chain x).length ≤ 512 * (chain x).length :=
    Nat.mul_le_mul_left 512 (Nat.min_le_right _ _)
  have hold : mem' (ret + c) = mem (ret + c) := hout _ (Or.inr (by omega))
  have hbyte : copyLoop p ret n 0 mem' (p + c) = mem (p + c) := hkept
  rw [hcopy, hold, hmem] at hbyte
  dsimp only at hbyte
  rw [if_pos rfl, if_neg (by omega)] at hbyte
  exact absurd hbyte (by decide)

theorem Readable.read_missing (h : Readable w.fs files chain)
    (hno : ∀ x, ¬ MayRead w.fs files pid fd x) (hret : KERNEL_BASE ≤ ret) :
    ¬ ReadContract w files chain pid fd p n ret io := by
  intro hall
  obtain ⟨r0, r1, w', hrun, -, hrefused⟩ := hall w.mem
  have hzero := @sysRead_none { w with mem := w.mem } pid fd p n ret io (h.unreadable hno)
    (Nat.lt_of_lt_of_le (by decide) hret)
  obtain ⟨hcode, -⟩ := Prod.mk.inj (Except.ok.inj (hzero.symm.trans hrun))
  have := (hrefused hno).code
  omega

/-- The contract of `read` holds exactly for reads within a file that is there and not held by
another process. -/
theorem read_contract_iff (h : Readable w.fs files chain) (hp : p + n ≤ KERNEL_BASE)
    (hn : n < 2147483648) (hret : KERNEL_BASE ≤ ret) (hroom : ret + STORAGE_SIZE < 4294967296)
    (hio : ∀ k, 0 ≤ io k) : ReadContract w files chain pid fd p n ret io ↔
      ∃ x, MayRead w.fs files pid fd x ∧ n ≤ 512 * (chain x).length := by
  constructor
  · intro hall
    by_cases hex : ∃ x, MayRead w.fs files pid fd x
    · obtain ⟨x, hx⟩ := hex
      refine ⟨x, hx, ?_⟩
      by_contra hlt
      exact h.read_past hx hp hn hret hroom hio (by omega) hall
    · exact absurd hall (h.read_missing (fun x hx => hex ⟨x, hx⟩) hret)
  · rintro ⟨x, hx, hle⟩
    exact h.read_within hx hp hret hroom hio hle

/-- Behind `build_fs()` there is no file 1. -/
theorem read_contract_fails : Readable (buildFs FsSystem.blank.fs) [] (fun _ => []) ∧
    ¬ ReadContract (FsSystem.init FsSystem.blank).w [] (fun _ => []) 7 1 4096 4 2149580800
      (fun _ => 0) := by
  have h := (owned_buildFs FsSystem.blank.fs fun _ => []).readable ⟨by simp, by simp⟩
  refine ⟨h, ?_⟩
  have hfs : Readable (FsSystem.init FsSystem.blank).w.fs [] (fun _ => []) := h
  exact hfs.read_missing (fun x hx => by simpa using hx.listed) (by decide)

theorem sampleRun_readable : ∃ (S : FsSystem) (files : List Nat) (chain : Nat → List Nat),
    run FsSystem.step (FsSystem.init FsSystem.blank) FsSystem.sampleRun = some S ∧
    Readable S.w.fs files chain ∧
    MayRead S.w.fs files 7 1 2155880440 ∧ chain 2155880440 = [0, 2] := by
  obtain ⟨S, hS, hdec⟩ := Option.map_eq_some_iff.1 FsSystem.sampleRun_state
  obtain ⟨hfind, hheld, hchain⟩ := of_decide_eq_true hdec
  obtain ⟨files, free, chain, hI⟩ := FsSystem.run_inv hS
  have hx : MayRead S.w.fs files 7 1 2155880440 := by
    rcases hI.owned.findIndex_spec 1 with hfound | hnone
    · obtain ⟨y, hy, hidx, hfind'⟩ := hfound
      obtain rfl : y = 2155880440 := by simpa using hfind'.symm.trans hfind
      exact ⟨hy, hidx, hheld⟩
    · simpa using hnone.2.symm.trans hfind
  exact ⟨S, files, chain, hS, hI.owned.readable hI.numbered, hx,
    Chain.unique (hI.owned.chains _ hx.listed) hchain⟩

theorem read_contract_iff_sample : ∃ (S : FsSystem) (files : List Nat) (chain : Nat → List Nat),
    ReadContract S.w files chain 7 1 4096 600 2149580800 (fun _ => 0) := by
  obtain ⟨S, files, chain, -, h, hx, hblocks⟩ := sampleRun_readable
  have hiff := @read_contract_iff S.w files chain 7 1 4096 600 2149580800 (fun _ => 0) h (by decide)
    (by decide) (by decide) (by decide) (fun _ => Int.le_refl 0)
  exact ⟨S, files, chain, hiff.2 ⟨_, hx, by rw [hblocks]; decide⟩⟩

end Aimv6.Fs
