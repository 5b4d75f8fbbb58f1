import Aimv6.Fs.FsReadCall

/-! # Seeking in a file

`seek_datablock` counts its caller's position and never looks at the link it
follows. One position behind the last block it stops at the null link; from the
next one on it follows it.
-/

namespace Aimv6.Fs

open Support

/-! ## The counter -/

/-- `for (i = 0; i < pos; ++i) p = p->next_block;` with the `int i` that the comparison converts to
`u32`. -/
def seekCounter (next : Nat → Option Nat) (pos : Nat) : Nat → Int → Option Nat → Res (Option Nat)
  | 0, _, _ => .error .diverge
  | fuel + 1, i, p =>
      if ofInt i < pos then
        match p with
        | none => .error .nullDeref
        | some p => seekCounter next pos fuel (toInt (ofInt (i + 1))) (next p)
      else .ok p

theorem ofInt_toInt {c : Nat} (hc : c < 4294967296) : ofInt (toInt c) = c := by
  unfold ofInt toInt
  split <;> omega

theorem ofInt_toInt_succ {c : Nat} (hc : c + 1 < 4294967296) : ofInt (toInt c + 1) = c + 1 := by
  unfold ofInt toInt
  split <;> omega

/-- Behind `2 ^ 31` the counter is negative, and counts on as a word. -/
theorem seekCounter_from {next : Nat → Option Nat} {pos fuel c : Nat} {p : Option Nat}
    (hpos : pos < 4294967296) (hc : c ≤ pos) (hfuel : pos - c < fuel) :
    seekCounter next pos fuel (toInt c) p = seekWalk next (pos - c) p := by
  induction fuel generalizing c p with
  | zero => omega
  | succ fuel ih =>
      unfold seekCounter
      rw [ofInt_toInt (by omega)]
      by_cases hlt : c < pos
      · obtain ⟨n, hn⟩ : ∃ n, pos - c = n + 1 := ⟨pos - c - 1, by omega⟩
        rw [if_pos hlt, hn]
        cases p with
        | none => rfl
        | some p =>
            dsimp only
            rw [ofInt_toInt_succ (by omega), ih (by omega) (by omega), seekWalk,
              show pos - (c + 1) = n by omega]
      · rw [if_neg hlt, show pos - c = 0 by omega]
        rfl

theorem seekWalk_eq_counter {next : Nat → Option Nat} {pos : Nat} (hpos : pos < 4294967296)
    (p : Option Nat) : seekWalk next pos p = seekCounter next pos walkFuel 0 p := by
  have hcount := @seekCounter_from next pos walkFuel 0 p hpos (Nat.zero_le _) hpos
  rw [Nat.sub_zero] at hcount
  exact hcount.symm

/-! ## The position -/

/-- The file list and the chains of the files end in null links. -/
structure Terminated (fs : FsState) (files : List Nat) (chain : Nat → List Nat) : Prop where
  listed : FileList fs files
  chains : ∀ x ∈ files, Chain fs.nextBlock (fs.firstBlock x) (chain x)

/-- The entry `x` is the file `index`, and `pid` is permitted to use it. -/
structure Permitted (fs : FsState) (files : List Nat) (pid index x : Nat) : Prop where
  first : files.find? (fun y => decide (fs.indexNumber y = index)) = some x
  free : ¬ fs.heldByOther x pid

/-- `seek_datablock` returns block `pos` of the file `l`, and `NULL` behind the last one, where
`read_datablock` transfers nothing. -/
structure SeekSafe (w : World) (pid index pos : Nat) (l : List Nat) : Prop where
  seek : seekDatablock w.fs pid index pos = .ok l[pos]?
  past : l.length ≤ pos → ∀ size ret io, readDatablock w pid index pos size ret io = .ok (ptr ret, w)

variable {fs : FsState} {w : World} {files : List Nat} {chain : Nat → List Nat}
  {pid index pos x : Nat}

theorem FileList.findIndex_eq (h : FileList fs files) (index : Nat) :
    fs.findIndex index = .ok (files.find? fun y => decide (fs.indexNumber y = index)) := by
  obtain ⟨l₁, l₂, rfl, hbefore, hstop, hfind⟩ := h.find_spec fun e => decide (e.indexNumber = index)
  unfold FsState.findIndex
  rw [hfind, List.find?_append, List.find?_eq_none.2 fun y hy => ?_, Option.none_or]
  · cases l₂ with
    | nil => rfl
    | cons y l₂ =>
        have hy : (fun y => decide (fs.indexNumber y = index)) y = true := hstop y rfl
        rw [List.find?_cons_of_pos (p := fun y => decide (fs.indexNumber y = index)) hy]
        rfl
  · exact Bool.not_eq_true _ ▸ hbefore y hy

theorem Terminated.seek_eq (h : Terminated fs files chain) (hx : Permitted fs files pid index x)
    (pos : Nat) : seekDatablock fs pid index pos = seekWalk fs.nextBlock pos (fs.firstBlock x) := by
  unfold seekDatablock
  rw [h.listed.findIndex_eq, hx.first, Res.ok_bind]
  dsimp only
  rw [if_neg hx.free]

theorem Terminated.chain_of (h : Terminated fs files chain) (hx : Permitted fs files pid index x) :
    Chain fs.nextBlock (fs.firstBlock x) (chain x) :=
  h.chains x (List.mem_of_find?_eq_some hx.first)

theorem readDatablock_of_null {size ret : Nat} {io : Nat → Int}
    (hseek : seekDatablock w.fs pid index pos = .ok none) :
    readDatablock w pid index pos size ret io = .ok (ptr ret, w) := by
  have hread : readBlocks w.fs w.disk ret io size 0 none w.mem = (true, w.mem) := by
    cases size <;> rfl
  unfold readDatablock
  rw [hseek, Res.ok_bind, hread]
  rfl

theorem Terminated.seek_within (h : Terminated w.fs files chain)
    (hx : Permitted w.fs files pid index x) (hpos : pos ≤ (chain x).length) :
    SeekSafe w pid index pos (chain x) := by
  obtain ⟨q, hwalk, hq⟩ := seekWalk_spec (h.chain_of hx) hpos
  have hseek : seekDatablock w.fs pid index pos = .ok (chain x)[pos]? := by
    rw [h.seek_eq hx, hwalk, hq.head_eq, List.head?_drop]
  refine ⟨hseek, fun hpast size ret io => readDatablock_of_null ?_⟩
  rw [hseek, List.getElem?_eq_none hpast]

/-- For every file of a file system whose lists end, every process that may use it and every
position, seeking is safe exactly up to the position behind the last block. -/
theorem seek_safe_iff (h : Terminated w.fs files chain) (hx : Permitted w.fs files pid index x) :
    SeekSafe w pid index pos (chain x) ↔ pos ≤ (chain x).length := by
  constructor
  · intro hsafe
    by_contra hlt
    have hnull := seekWalk_past (h.chain_of hx) (Nat.not_le.1 hlt)
    rw [← h.seek_eq hx, hsafe.seek] at hnull
    exact absurd hnull (by simp)
  · exact h.seek_within hx

theorem sampleRun_terminated : ∃ (S : FsSystem) (files : List Nat) (chain : Nat → List Nat) (x : Nat),
    run FsSystem.step (FsSystem.init FsSystem.blank) FsSystem.sampleRun = some S ∧
    Terminated S.w.fs files chain ∧ Permitted S.w.fs files 7 1 x ∧ chain x = [0, 2] := by
  obtain ⟨S, files, chain, hrun, h, hx, hblocks⟩ := sampleRun_readable
  refine ⟨S, files, chain, _, hrun, ⟨h.listed, h.chains⟩, ⟨?_, hx.free⟩, hblocks⟩
  have hfind := h.findIndex hx.listed
  rw [hx.index, h.listed.findIndex_eq] at hfind
  exact Except.ok.inj hfind

theorem seek_safe_iff_sample : ∃ (w : World) (l : List Nat), SeekSafe w 7 1 2 l := by
  obtain ⟨S, files, chain, x, -, h, hx, hblocks⟩ := sampleRun_terminated
  exact ⟨S.w, chain x, (seek_safe_iff h hx).2 (by rw [hblocks]; decide)⟩

/-- Position 3 in the file of two blocks: the walk goes through the null link. -/
theorem seek_overrun : ∃ (S : FsSystem) (files : List Nat) (chain : Nat → List Nat) (x : Nat),
    run FsSystem.step (FsSystem.init FsSystem.blank) FsSystem.sampleRun = some S ∧
    Terminated S.w.fs files chain ∧ Permitted S.w.fs files 7 1 x ∧ chain x = [0, 2] ∧
    seekDatablock S.w.fs 7 1 3 = .error .nullDeref ∧ ¬ SeekSafe S.w 7 1 3 (chain x) := by
  obtain ⟨S, files, chain, x, hrun, h, hx, hblocks⟩ := sampleRun_terminated
  have hnull : seekDatablock S.w.fs 7 1 3 = .error .nullDeref := by
    rw [h.seek_eq hx]
    exact seekWalk_past (h.chain_of hx) (by rw [hblocks]; decide)
  refine ⟨S, files, chain, x, hrun, h, hx, hblocks, hnull, fun hsafe => ?_⟩
  exact absurd (hnull.symm.trans hsafe.seek) (by simp)

end Aimv6.Fs
