import Aimv6.Fs.FsReadCall
import Aimv6.Mm.Space

/-! # The buffer of `write`

`_write` hands the address that the process gave it to `append_file`, which turns
it into a physical one with `V2P`. For a user address that wraps to an address
from `KERNEL_BASE` on, where no frame lies.
-/

namespace Aimv6.Fs

open Support Mm

/-- The physical addresses that `append_file` has the controller read from, from block `i` on. -/
def writeSources (fs : FsState) (addr : Nat) (io : Nat → Int) : Nat → Nat → Option Nat → List Nat
  | 0, _, _ => []
  | _ + 1, _, none => []
  | n + 1, i, some p =>
      if io i < 0 then []
      else V2P (add32 addr (STORAGE_BLOCK_SIZE * i)) :: writeSources fs addr io n (i + 1) (fs.nextBlock p)

/-- The sources of a call of `append_file`; it may end before the first transfer. -/
def appendSources (w : World) (pid index addr : Nat) (size : Int) (io : Nat → Int) :
    Res (List Nat) := do
  let (p, fs) := dataAlloc w.fs size
  match p with
  | none => .ok []
  | some p => do
      match ← fs.findIndex index with
      | none => .ok []
      | some x =>
          if fs.heldByOther x pid then .ok []
          else do
            let fs ← linkBlocks fs x p
            .ok (writeSources fs addr io size.toNat 0 (some p))

/-- The sources of a call of `_write`. -/
def sysWriteSources (w : World) (pid fd p n : Nat) (io : Nat → Int) : Res (List Nat) :=
  appendSources w pid fd p (toInt (add32 n 511) >>> (9 : Nat)) io

/-- Block `i` of `[p, p + n)` is read from where the table at `pt` maps it. -/
def WriteReaches (w : World) (s : State) (pt pid fd p n : Nat) (io : Nat → Int) : Prop :=
  ∃ l, sysWriteSources w pid fd p n io = .ok l ∧ ∀ i < n / 512, l[i]? = s.walk pt (p + 512 * i)

variable {w w' : World} {s : State} {M : Space} {pt pid fd p n : Nat} {io : Nat → Int}

theorem writeBlocks_sources {fs : FsState} {mem : Memory} {addr i : Nat} {q : Option Nat}
    {disk disk' : Nat → Block} (hrun : writeBlocks fs mem addr io n i q disk = .ok disk') :
    writeSources fs addr io n i q =
      (List.range n).map fun k => V2P (add32 addr (STORAGE_BLOCK_SIZE * (i + k))) := by
  induction n generalizing i q disk with
  | zero => rfl
  | succ n ih =>
      cases q with
      | none => simp [writeBlocks] at hrun
      | some b =>
          rw [writeBlocks] at hrun
          by_cases hio : io i < 0
          · rw [if_pos hio] at hrun
            simp at hrun
          · rw [if_neg hio] at hrun
            rw [writeSources, if_neg hio, ih hrun, List.range_succ_eq_map, List.map_cons, List.map_map,
              Nat.add_zero]
            refine congrArg (List.cons _) (List.map_congr_left fun k _ => ?_)
            rw [Function.comp_apply, Nat.succ_eq_add_one, Nat.add_right_comm i 1 k, Nat.add_assoc i k 1]

theorem appendFile_sources {index addr : Nat} {size : Int}
    (hrun : appendFile w pid index addr size io = .ok (0, w')) :
    appendSources w pid index addr size io =
      .ok ((List.range size.toNat).map fun k => V2P (add32 addr (STORAGE_BLOCK_SIZE * k))) := by
  unfold appendFile at hrun
  unfold appendSources
  generalize dataAlloc w.fs size = taken at hrun ⊢
  obtain ⟨q, fs⟩ := taken
  cases q with
  | none => exact absurd (Prod.mk.inj (Except.ok.inj hrun)).1 (by decide)
  | some b =>
      dsimp only at hrun ⊢
      obtain ⟨found, hfind, hrun⟩ := Res.bind_eq_ok.1 hrun
      rw [hfind, Res.ok_bind]
      cases found with
      | none => exact absurd (Prod.mk.inj (Except.ok.inj hrun)).1 (by decide)
      | some x =>
          dsimp only at hrun ⊢
          by_cases hheld : fs.heldByOther x pid
          · rw [if_pos hheld] at hrun
            exact absurd (Prod.mk.inj (Except.ok.inj hrun)).1 (by decide)
          · rw [if_neg hheld] at hrun ⊢
            obtain ⟨fs', hlink, hrun⟩ := Res.bind_eq_ok.1 hrun
            obtain ⟨disk, hwrite, -⟩ := Res.bind_eq_ok.1 hrun
            have hsources := writeBlocks_sources hwrite
            simp only [Nat.zero_add] at hsources
            rw [hlink, Res.ok_bind, hsources]

theorem V2P_user {a : Nat} (h : a < 2147483648) : V2P a = a + 2147483648 := by
  unfold V2P KERNEL_BASE sub32
  omega

/-- The first block is never read from the frame that the process sees it in, mapped as the rest of
the buffer may be. -/
theorem write_never_reaches (hmaps : Maps s pt M) (hmul : n % 512 = 0) (hpos : 0 < n)
    (hn : n < 2147483648) (hle : p + n ≤ KERNEL_BASE)
    (hrun : sysWrite w pid fd p n io = .ok (0, w')) : ¬ WriteReaches w s pt pid fd p n io := by
  rintro ⟨l, hl, hall⟩
  unfold KERNEL_BASE at hle
  have hsources := appendFile_sources hrun
  have hblocks : (toInt (add32 n 511) >>> (9 : Nat)).toNat = n / 512 := by
    rw [add32_of_lt (by omega), toInt_of_lt (by omega), Int.shiftRight_eq_div_pow]
    omega
  rw [hblocks] at hsources
  obtain rfl := Except.ok.inj (hl.symm.trans hsources)
  have hfirst := hall 0 (by omega)
  rw [List.getElem?_map, List.getElem?_range (by omega), Option.map_some, Nat.mul_zero, Nat.mul_zero,
    Nat.add_zero, add32_of_lt (by omega), Nat.add_zero, V2P_user (by omega),
    hmaps.walk_eq (by omega)] at hfirst
  obtain ⟨f, hf, hpa⟩ := Option.map_eq_some_iff.1 hfirst.symm
  have hhi := (hmaps.frame_ok _ f hf).hi
  omega

theorem writeSample_returns :
    ((run FsSystem.step (FsSystem.init FsSystem.blank) FsSystem.sampleRun).bind fun S =>
      (sysWrite S.w 7 1 0 512 fun _ => 0).toOption.map fun r => r.1) = some 0 := by
  decide +kernel

/-- A process writes its page 0, which is mapped, to a file it holds: the call returns 0, and the
controller has read physical address `0x80000000` in place of `0x801000`. -/
theorem write_fails : ∃ (S : FsSystem) (w' : World),
    run FsSystem.step (FsSystem.init FsSystem.blank) FsSystem.sampleRun = some S ∧
    Maps State.onePage 0x80104000 Space.onePage ∧
    sysWrite S.w 7 1 0 512 (fun _ => 0) = .ok (0, w') ∧
    sysWriteSources S.w 7 1 0 512 (fun _ => 0) = .ok [0x80000000] ∧
    State.onePage.walk 0x80104000 0 = some 0x801000 ∧
    ¬ WriteReaches S.w State.onePage 0x80104000 7 1 0 512 fun _ => 0 := by
  obtain ⟨S, hS, hmap⟩ := Option.bind_eq_some_iff.1 writeSample_returns
  obtain ⟨⟨c, w'⟩, hres, rfl⟩ := Option.map_eq_some_iff.1 hmap
  have hrun := Res.toOption_eq_some.1 hres
  have hsources : sysWriteSources S.w 7 1 0 512 (fun _ => 0) = .ok [0x80000000] :=
    appendFile_sources hrun
  have hwalk : State.onePage.walk 0x80104000 0 = some 0x801000 :=
    (maps_onePage.walk_eq (by decide)).trans (by decide)
  refine ⟨S, w', hS, maps_onePage, hrun, hsources, hwalk, ?_⟩
  rintro ⟨l, hl, hall⟩
  obtain rfl := Except.ok.inj (hl.symm.trans hsources)
  have hfirst := hall 0 (by decide)
  rw [show 0 + 512 * 0 = 0 from rfl, hwalk] at hfirst
  exact absurd hfirst (by decide)

theorem write_never_reaches_sample : ∃ S : FsSystem,
    ¬ WriteReaches S.w State.onePage 0x80104000 7 1 0 512 fun _ => 0 := by
  obtain ⟨S, -, hmap⟩ := Option.bind_eq_some_iff.1 writeSample_returns
  obtain ⟨⟨c, w'⟩, hres, rfl⟩ := Option.map_eq_some_iff.1 hmap
  exact ⟨S, write_never_reaches maps_onePage (by decide) (by decide) (by decide) (by decide)
    (Res.toOption_eq_some.1 hres)⟩

end Aimv6.Fs
