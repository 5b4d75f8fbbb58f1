import Aimv6.Fs.FsReadCall
import Aimv6.Mm.KmallocRoom

/-! # The buffer of `read`

`_read` turns the byte count into blocks as a signed number, `read_datablock`
multiplies them by the block size in 32 bits for `kmalloc`, and its loop runs to
the number of blocks as an unsigned one. Where the product does not stand for
all the blocks, they are transferred into memory behind the buffer.
-/

namespace Aimv6.Fs

open Support Mm

/-- The size that `read_datablock` asks `kmalloc` for: `STORAGE_BLOCK_SIZE * size`. -/
def readBytes (n : Nat) : Nat := STORAGE_BLOCK_SIZE * blocksOf n % 4294967296

/-- Where `read_datablock` transfers blocks to, from block `i` on. -/
def readTargets (fs : FsState) (ret : Nat) (io : Nat → Int) : Nat → Nat → Option Nat → List Nat
  | 0, _, _ => []
  | _ + 1, _, none => []
  | n + 1, i, some p =>
      if io i < 0 then []
      else P2V (V2P (add32 ret (STORAGE_BLOCK_SIZE * i))) ::
        readTargets fs ret io n (i + 1) (fs.nextBlock p)

/-- Every block of the call goes into the `room` bytes at `q`, whatever the driver answers, and
the copy loop reads only there. -/
structure ReadContained (fs : FsState) (pid fd n q room : Nat) : Prop where
  blocks : ∀ io p, seekDatablock fs pid fd 0 = .ok p →
    ∀ a ∈ readTargets fs q io (blocksOf n) 0 p, q ≤ a ∧ a + 512 ≤ q + room
  copied : ∀ i < (toInt n).toNat, q ≤ add32 q i ∧ add32 q i < q + room

variable {fs : FsState} {w : World} {files : List Nat} {chain : Nat → List Nat} {pid fd n q ret x : Nat}
  {io : Nat → Int}

/-! ## Targets and sources -/

theorem readBlocks_targets {disk : Nat → Block} {i a : Nat} {p : Option Nat} {mem : Memory}
    (ha : ∀ t ∈ readTargets fs ret io n i p, a < t ∨ t + 512 ≤ a) :
    (readBlocks fs disk ret io n i p mem).2 a = mem a := by
  induction n generalizing i p mem with
  | zero => rfl
  | succ n ih =>
      cases p with
      | none => rfl
      | some b =>
          rw [readTargets] at ha
          rw [readBlocks]
          by_cases hio : io i < 0
          · rw [if_pos hio]
          · rw [if_neg hio] at ha ⊢
            rw [ih fun t ht => ha t (List.mem_cons_of_mem _ ht)]
            exact sdReadBlock_outside rfl (ha _ (List.mem_cons_self ..))

theorem copyLoop_sources {p res i a : Nat} {mem mem' : Memory}
    (hsrc : ∀ k < n, mem (add32 res (i + k)) = mem' (add32 res (i + k))) (ha : mem a = mem' a) :
    copyLoop p res n i mem a = copyLoop p res n i mem' a := by
  induction n generalizing i mem mem' with
  | zero => exact ha
  | succ n ih =>
      have hfirst := hsrc 0 (Nat.succ_pos n)
      rw [Nat.add_zero] at hfirst
      have hstore : ∀ c, mem c = mem' c →
          store8 mem (add32 p i) (mem (add32 res i)) c =
            store8 mem' (add32 p i) (mem' (add32 res i)) c := by
        intro c hc
        unfold store8
        rw [hfirst, hc]
      rw [copyLoop, copyLoop]
      refine ih (fun k hk => hstore _ ?_) (hstore a ha)
      have hk' := hsrc (k + 1) (by omega)
      rwa [show i + 1 + k = i + (k + 1) by omega]

theorem readTargets_at {i a : Nat} {p : Option Nat} (hroom : q + 512 * (i + n) < 4294967296)
    (ha : a ∈ readTargets fs q io n i p) : ∃ k, i ≤ k ∧ k < i + n ∧ a = q + 512 * k := by
  induction n generalizing i p with
  | zero => simp [readTargets] at ha
  | succ n ih =>
      cases p with
      | none => simp [readTargets] at ha
      | some b =>
          rw [readTargets] at ha
          by_cases hio : io i < 0
          · rw [if_pos hio] at ha
            simp at ha
          · rw [if_neg hio] at ha
            rcases List.mem_cons.1 ha with heq | ha
            · have hlt : i < i + (n + 1) := Nat.lt_add_of_pos_right (Nat.succ_pos n)
              have hle : 512 * i ≤ 512 * (i + (n + 1)) := Nat.mul_le_mul_left 512 hlt.le
              refine ⟨i, Nat.le_refl i, hlt, heq.trans ?_⟩
              rw [P2V_V2P (add32_lt _ _)]
              exact add32_of_lt (Nat.lt_of_le_of_lt (Nat.add_le_add_left hle q) hroom)
            · obtain ⟨k, h₁, h₂, rfl⟩ := @ih (i + 1) _ (by omega) ha
              exact ⟨k, by omega, by omega, rfl⟩

theorem readTargets_first {m b : Nat} (hm : 0 < m) :
    add32 q 0 ∈ readTargets fs q (fun _ => 0) m 0 (some b) := by
  cases m with
  | zero => omega
  | succ m =>
      rw [readTargets, if_neg (by decide), Nat.mul_zero, P2V_V2P (add32_lt _ _)]
      exact List.mem_cons_self ..

/-! ## The number of blocks -/

theorem blocksOf_small (hlo : 4294966785 ≤ n) (hn : n < 4294967296) : blocksOf n = 0 := by
  have hsum : add32 n 511 = n + 511 - 4294967296 := by
    unfold add32
    omega
  unfold blocksOf ofInt
  rw [hsum, toInt_of_lt (by omega), Int.shiftRight_eq_div_pow]
  omega

/-- Other counts that are negative, or whose sum with 511 is, stand for huge numbers of blocks,
of which the product with the block size loses a part. -/
theorem blocksOf_huge (hlo : 2147483137 ≤ n) (hn : n < 4294966785) :
    ∃ k, 0 < k ∧ k ≤ 4194304 ∧ blocksOf n = 4294967296 - k := by
  have hsum : add32 n 511 = n + 511 := add32_of_lt (by omega)
  have hneg : toInt (n + 511) = (n + 511 : Nat) - 4294967296 := if_neg (by omega)
  refine ⟨(4294967296 - (n + 511) + 511) / 512, by omega, by omega, ?_⟩
  unfold blocksOf ofInt
  rw [hsum, hneg, Int.shiftRight_eq_div_pow]
  omega

theorem upBound_readBytes_huge (hlo : 2147483137 ≤ n) (hn : n < 4294966785) :
    upBound (readBytes n) = .ok 0 := by
  obtain ⟨k, hpos, hle, hk⟩ := blocksOf_huge hlo hn
  have hbytes : readBytes n = 4294967296 - 512 * k := by
    unfold readBytes STORAGE_BLOCK_SIZE
    rw [hk]
    omega
  exact upBound_wraps (by omega) (by omega)

/-! ## When the call stays in its buffer -/

theorem ReadContained.of_nothing {room : Nat} (hneg : 2147483648 ≤ n) (hn : n < 4294967296)
    (hnone : ∀ io p, seekDatablock fs pid fd 0 = .ok p →
      readTargets fs q io (blocksOf n) 0 p = []) : ReadContained fs pid fd n q room := by
  refine ⟨fun io p hseek a ha => ?_, fun i hi => ?_⟩
  · rw [hnone io p hseek] at ha
    simp at ha
  · rw [toInt, if_neg (by omega)] at hi
    omega

/-- The block count and the size agree up to `2 ^ 31 - 512`. -/
theorem ReadContained.of_nonneg {room : Nat} (hn : n ≤ 2147483136) (hroom : readBytes n ≤ room)
    (hq : q + room < 4294967296) : ReadContained fs pid fd n q room := by
  have hblocks := blocksOf_eq (show n + 511 < 2147483648 by omega)
  have hbytes : readBytes n = 512 * ((n + 511) / 512) := by
    unfold readBytes STORAGE_BLOCK_SIZE
    rw [hblocks]
    omega
  refine ⟨fun io p _ a ha => ?_, fun i hi => ?_⟩
  · obtain ⟨k, -, hk, rfl⟩ := readTargets_at (by rw [hblocks]; omega) ha
    rw [hblocks] at hk
    omega
  · rw [toInt_of_lt (by omega)] at hi
    rw [add32_of_lt (by omega)]
    omega

/-- Without a block to transfer the search ends at the end of a chain. -/
theorem Readable.seek_nothing (h : Readable w.fs files chain)
    (hno : ∀ x, MayRead w.fs files pid fd x → chain x = []) {p : Option Nat}
    (hseek : seekDatablock w.fs pid fd 0 = .ok p) : p = none := by
  by_cases hex : ∃ x, MayRead w.fs files pid fd x
  · obtain ⟨x, hx⟩ := hex
    have hfind := h.findIndex hx.listed
    rw [hx.index] at hfind
    have hchain := h.chains x hx.listed
    rw [hno x hx] at hchain
    unfold seekDatablock at hseek
    rw [hfind, Res.ok_bind] at hseek
    dsimp only at hseek
    rw [if_neg hx.free, show w.fs.firstBlock x = none from hchain] at hseek
    exact (Except.ok.inj hseek).symm
  · have hnone : seekDatablock w.fs pid fd 0 = .ok none := h.unreadable fun x hx => hex ⟨x, hx⟩
    exact Except.ok.inj (hseek.symm.trans hnone)

theorem Readable.seek_first (h : Readable w.fs files chain) (hx : MayRead w.fs files pid fd x)
    (hne : chain x ≠ []) : ∃ b, seekDatablock w.fs pid fd 0 = .ok (some b) := by
  have hfind := h.findIndex hx.listed
  rw [hx.index] at hfind
  have hchain := h.chains x hx.listed
  cases hl : chain x with
  | nil => exact absurd hl hne
  | cons b l =>
      rw [hl] at hchain
      refine ⟨b, ?_⟩
      unfold seekDatablock
      rw [hfind, Res.ok_bind]
      dsimp only
      rw [if_neg hx.free, hchain.1]
      rfl

theorem Readable.contained_huge_iff (h : Readable w.fs files chain) (hlo : 2147483137 ≤ n)
    (hn : n < 4294966785) : ReadContained w.fs pid fd n q 0 ↔
      2147483648 ≤ n ∧ ∀ x, MayRead w.fs files pid fd x → chain x = [] := by
  constructor
  · intro hc
    constructor
    · by_contra hpos
      have := hc.copied 0 (by rw [toInt_of_lt (by omega)]; omega)
      omega
    · intro x hx
      by_contra hne
      obtain ⟨b, hseek⟩ := h.seek_first hx hne
      obtain ⟨k, hpos, hle, hk⟩ := blocksOf_huge hlo hn
      have := hc.blocks _ _ hseek _ (readTargets_first (by omega))
      omega
  · rintro ⟨hneg, hno⟩
    refine ReadContained.of_nothing hneg (by omega) fun io p hseek => ?_
    rw [h.seek_nothing hno hseek]
    cases blocksOf n <;> rfl

/-- `read` stays in the memory that `kmalloc` gave it for counts up to `2 ^ 31 - 512` and from
`-511` to `-1`, and for other negative ones where there is no block to read. -/
theorem read_contained_iff {st st' : State} {V : View} {l : List Extent} {b : Nat}
    (hslab : SlabInv st V l) (h : Readable w.fs files chain) (hn : n < 4294967296)
    (hrun : kmalloc st (readBytes n) = .ok (some q, st')) (hb : upBound (readBytes n) = .ok b) :
    ReadContained w.fs pid fd n q (roomOf b) ↔ n ≤ 2147483136 ∨
      2147483648 ≤ n ∧ (4294966785 ≤ n ∨ ∀ x, MayRead w.fs files pid fd x → chain x = []) := by
  by_cases hsmall : n ≤ 2147483136
  · have hbytes : readBytes n + 4 ≤ 2147483648 := by
      unfold readBytes STORAGE_BLOCK_SIZE
      rw [blocksOf_eq (by omega)]
      omega
    obtain ⟨b', hb', hroom, hq⟩ := hslab.kmalloc_room hbytes hrun
    obtain rfl := Except.ok.inj (hb.symm.trans hb')
    exact iff_of_true (ReadContained.of_nonneg hsmall hroom (by omega)) (Or.inl hsmall)
  · by_cases hround : 4294966785 ≤ n
    · refine iff_of_true (ReadContained.of_nothing (by omega) hn fun io p _ => ?_)
        (Or.inr ⟨by omega, Or.inl hround⟩)
      rw [blocksOf_small hround hn]
      rfl
    · obtain rfl := Except.ok.inj (hb.symm.trans (upBound_readBytes_huge (by omega) (by omega)))
      rw [roomOf_zero, h.contained_huge_iff (by omega) (by omega)]
      constructor
      · exact fun hc => Or.inr ⟨hc.1, Or.inr hc.2⟩
      · rintro (hc | ⟨hneg, hc | hc⟩)
        · exact absurd hc hsmall
        · exact absurd hc hround
        · exact ⟨hneg, hc⟩

theorem slbAlloc_zero_returns : ((SlabSystem.init PagesSystem.blank).bind fun T =>
    (slbAlloc T.st 0).toOption.bind fun r => r.1).isSome = true := by
  decide +kernel

/-- A process reads -512 bytes of a file of two blocks. -/
theorem read_contained_fails : ∃ (T : SlabSystem) (S : FsSystem) (q : Nat) (st' : State),
    SlabSystem.init PagesSystem.blank = some T ∧
    run FsSystem.step (FsSystem.init FsSystem.blank) FsSystem.sampleRun = some S ∧
    kmalloc T.st (readBytes 4294966784) = .ok (some q, st') ∧
    upBound (readBytes 4294966784) = .ok 0 ∧
    ¬ ReadContained S.w.fs 7 1 4294966784 q (roomOf 0) := by
  obtain ⟨p, hp⟩ := Option.isSome_iff_exists.1 slbAlloc_zero_returns
  obtain ⟨T, hinit, hbind⟩ := Option.bind_eq_some_iff.1 hp
  obtain ⟨⟨res, t⟩, hres, hsome⟩ := Option.bind_eq_some_iff.1 hbind
  obtain rfl : res = some p := hsome
  have hcall := Res.toOption_eq_some.1 hres
  obtain ⟨S, files, chain, hS, h, hx, hblocks⟩ := sampleRun_readable
  have hbound : upBound (readBytes 4294966784) = .ok 0 :=
    upBound_readBytes_huge (by decide) (by decide)
  refine ⟨T, S, add32 p 4, t.setWord p (readBytes 4294966784), hinit, hS, ?_, hbound, fun hc => ?_⟩
  · unfold kmalloc
    rw [hbound, Res.ok_bind, hcall]
    rfl
  · rw [roomOf_zero, h.contained_huge_iff (by decide) (by decide)] at hc
    have hnil := hc.2 _ hx
    rw [hblocks] at hnil
    exact absurd hnil (by decide)

theorem kmalloc_block_returns : ((SlabSystem.init PagesSystem.blank).bind fun T =>
    (kmalloc T.st (readBytes 600)).toOption.bind fun r => r.1).isSome = true := by
  decide +kernel

theorem read_contained_iff_sample : ∃ (T : SlabSystem) (S : FsSystem) (q : Nat) (st' : State),
    kmalloc T.st (readBytes 600) = .ok (some q, st') ∧
    ReadContained S.w.fs 7 1 600 q (roomOf 2048) := by
  obtain ⟨q, hq⟩ := Option.isSome_iff_exists.1 kmalloc_block_returns
  obtain ⟨T, hinit, hbind⟩ := Option.bind_eq_some_iff.1 hq
  obtain ⟨⟨res, st'⟩, hres, hsome⟩ := Option.bind_eq_some_iff.1 hbind
  obtain rfl : res = some q := hsome
  have hcall := Res.toOption_eq_some.1 hres
  obtain ⟨V, l, hI⟩ := SlabSystem.init_inv hinit
  obtain ⟨S, files, chain, -, h, -⟩ := sampleRun_readable
  have hiff := @read_contained_iff S.w files chain 7 1 600 q T.st st' V l 2048 hI.slab h (by decide)
    hcall (by decide)
  exact ⟨T, S, q, st', hcall, hiff.2 (Or.inl (by decide))⟩

end Aimv6.Fs
