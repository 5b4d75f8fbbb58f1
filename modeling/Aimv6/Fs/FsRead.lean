import Aimv6.Fs.FsCalls

/-! # Reading a file

`seek_datablock` walks to a position in the chain of a file, and
`read_datablock` transfers from there one block after another to its buffer,
until the count or the chain is used up.
-/

namespace Aimv6.Fs

open Support

variable {fs : FsState} {files free : List Nat} {chain : Nat → List Nat}

theorem seekWalk_spec {next : Nat → Option Nat} {p : Option Nat} {l : List Nat} {n : Nat}
    (h : Chain next p l) (hn : n ≤ l.length) :
    ∃ q, seekWalk next n p = .ok q ∧ Chain next q (l.drop n) := by
  induction n generalizing p l with
  | zero => exact ⟨p, rfl, h⟩
  | succ n ih =>
      cases l with
      | nil => simp at hn
      | cons a l =>
          obtain ⟨rfl, hl⟩ := h
          exact ih hl (by simpa using hn)

theorem seekWalk_past {next : Nat → Option Nat} {p : Option Nat} {l : List Nat} {n : Nat}
    (h : Chain next p l) (hn : l.length < n) : seekWalk next n p = .error .nullDeref := by
  induction n generalizing p l with
  | zero => omega
  | succ n ih =>
      cases l with
      | nil =>
          obtain rfl : p = none := h
          rfl
      | cons a l =>
          obtain ⟨rfl, hl⟩ := h
          exact ih hl (by simpa using hn)

theorem sdReadBlock_inside {mem : Memory} {disk : Nat → Block} {pa v s : Nat} (hv : P2V pa = v) :
    blockAt (sdReadBlock mem disk pa s) v = disk s := by
  subst hv
  funext j
  have hj := j.isLt
  unfold blockAt sdReadBlock
  rw [dif_pos ⟨by omega, by omega⟩]
  exact congrArg (disk s) (Fin.ext (Nat.add_sub_cancel_left _ _))

theorem sdReadBlock_outside {mem : Memory} {disk : Nat → Block} {pa v s b : Nat} (hv : P2V pa = v)
    (hb : b < v ∨ v + 512 ≤ b) : sdReadBlock mem disk pa s b = mem b := by
  subst hv
  unfold sdReadBlock
  rw [dif_neg (by omega)]

theorem readBlock_spec {mem : Memory} {disk : Nat → Block} {buf i s : Nat}
    (hfits : buf + 512 * i < 4294967296) :
    ∃ mem₁, sdReadBlock mem disk (V2P (add32 buf (STORAGE_BLOCK_SIZE * i))) s = mem₁ ∧
      blockAt mem₁ (buf + 512 * i) = disk s ∧
      ∀ b, b < buf + 512 * i ∨ buf + 512 * i + 512 ≤ b → mem₁ b = mem b := by
  have hv : P2V (V2P (add32 buf (STORAGE_BLOCK_SIZE * i))) = buf + 512 * i := by
    rw [P2V_V2P (add32_lt _ _)]
    exact add32_of_lt hfits
  exact ⟨_, rfl, sdReadBlock_inside hv, fun b hb => sdReadBlock_outside hv hb⟩

/-- The transfers of `read_datablock` fill the buffer block by block and touch nothing else. -/
theorem readBlocks_spec {disk : Nat → Block} {buf n i : Nat} {io : Nat → Int} {p : Option Nat}
    {l : List Nat} {mem : Memory} (hchain : Chain fs.nextBlock p l)
    (hroom : buf + 512 * i + 512 * min n l.length ≤ 4294967296) (hio : ∀ k, 0 ≤ io k) :
    ∃ mem', readBlocks fs disk buf io n i p mem = (true, mem') ∧
      (∀ a, a < buf + 512 * i ∨ buf + 512 * i + 512 * min n l.length ≤ a → mem' a = mem a) ∧
      ∀ k b, k < n → l[k]? = some b →
        blockAt mem' (buf + 512 * (i + k)) = disk ((fs.dbTable b).ondiskAddr >>> 9) := by
  induction n generalizing i p l mem with
  | zero => exact ⟨mem, rfl, fun _ _ => rfl, fun k _ hk => absurd hk (Nat.not_lt_zero k)⟩
  | succ n ih =>
      cases l with
      | nil =>
          obtain rfl : p = none := hchain
          exact ⟨mem, rfl, fun _ _ => rfl, fun k b _ hb => by simp at hb⟩
      | cons c l =>
          obtain ⟨rfl, hl⟩ := hchain
          rw [List.length_cons, Nat.succ_min_succ] at hroom ⊢
          have hfits : buf + 512 * i < 4294967296 := by omega
          obtain ⟨mem₁, hmem₁, hin₁, hout₁⟩ := @readBlock_spec mem disk buf i
            ((fs.dbTable c).ondiskAddr >>> 9) hfits
          obtain ⟨mem', hrest, hout, hin⟩ := @ih (i + 1) (fs.nextBlock c) l mem₁ hl
            (by omega)
          refine ⟨mem', ?_, fun a ha => ?_, fun k b hk hb => ?_⟩
          · have hgood : ¬ io i < 0 := Int.not_lt.2 (hio i)
            rw [readBlocks, if_neg hgood, hmem₁]
            exact hrest
          · have hblock : 512 ≤ 512 * (min n l.length).succ :=
              Nat.le_mul_of_pos_right 512 (Nat.succ_pos _)
            rw [hout a (by omega)]
            exact hout₁ a (ha.imp_right (Nat.le_trans (Nat.add_le_add_left hblock _)))
          · cases k with
            | zero =>
                obtain rfl : c = b := by simpa using hb
                rw [← hin₁]
                funext j
                have hj := j.isLt
                exact hout _ (by omega)
            | succ k =>
                have hk' := hin k b (by omega) (by simpa using hb)
                rwa [Nat.add_right_comm, Nat.add_assoc] at hk'

theorem readDatablock_spec {w : World} {x pid index pos size buf : Nat} {l : List Nat}
    {io : Nat → Int} (hfind : w.fs.findIndex index = .ok (some x))
    (hchain : Chain w.fs.nextBlock (w.fs.firstBlock x) l) (hfree : ¬ w.fs.heldByOther x pid)
    (hpos : pos ≤ l.length) (hbuf : 0 < buf)
    (hroom : buf + 512 * min size (l.length - pos) ≤ 4294967296) (hio : ∀ k, 0 ≤ io k) :
    ∃ mem', readDatablock w pid index pos size buf io = .ok (some buf, { w with mem := mem' }) ∧
      (∀ a, a < buf ∨ buf + 512 * min size (l.length - pos) ≤ a → mem' a = w.mem a) ∧
      ∀ k b, k < size → l[pos + k]? = some b →
        blockAt mem' (buf + 512 * k) = w.disk ((w.fs.dbTable b).ondiskAddr >>> 9) := by
  obtain ⟨q, hseek, hq⟩ := seekWalk_spec hchain hpos
  have hseek' : seekDatablock w.fs pid index pos = .ok q := by
    unfold seekDatablock
    rw [hfind, Res.ok_bind]
    dsimp only
    rw [if_neg hfree]
    exact hseek
  have hlen : (l.drop pos).length = l.length - pos := List.length_drop
  obtain ⟨mem', hread, hout, hin⟩ := @readBlocks_spec w.fs w.disk buf size 0 io q _ w.mem hq
    (by rw [hlen, Nat.mul_zero, Nat.add_zero]; exact hroom) hio
  rw [hlen, Nat.mul_zero, Nat.add_zero] at hout
  refine ⟨mem', ?_, hout, fun k b hk hb => ?_⟩
  · unfold readDatablock
    rw [hseek', Res.ok_bind, hread]
    dsimp only
    rw [if_pos rfl, ptr_of_pos hbuf]
  · have hk' := hin k b hk (by rw [List.getElem?_drop]; exact hb)
    rwa [Nat.zero_add] at hk'

/-- Where there is no such file, or another process holds it, no block is read. -/
theorem readDatablock_none {w : World} {pid index pos size buf : Nat} {io : Nat → Int}
    (hseek : seekDatablock w.fs pid index pos = .ok none) (hbuf : 0 < buf) :
    readDatablock w pid index pos size buf io = .ok (some buf, w) := by
  have hread : readBlocks w.fs w.disk buf io size 0 none w.mem = (true, w.mem) := by
    cases size <;> rfl
  unfold readDatablock
  rw [hseek, Res.ok_bind, hread]
  dsimp only
  rw [if_pos rfl, ptr_of_pos hbuf]

end Aimv6.Fs
