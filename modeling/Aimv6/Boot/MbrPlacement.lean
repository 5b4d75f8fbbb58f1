import Aimv6.Boot.MbrBootmain

/-! # Where the boot loader places the segments

The displacement of a segment in its first sector is kept in eight bits, and the
number of sectors in sixteen. Neither the type of a header nor its `p_filesz` is
asked for. With the headers given, the loop is right for every file exactly if
none of this shows.
-/

namespace Aimv6.Boot

open Support

namespace ProgramHeader

def IsSegment (e : ProgramHeader) : Prop := e.type = PT_LOAD ∧ 0 < e.filesz

def blocks (e : ProgramHeader) : Nat := (e.offset + e.filesz - 1) / 512 + 1 - e.offset / 512

def image (e : ProgramHeader) : Set Nat :=
  {b | b < 4294967296 ∧ sub32 b (sub32 e.paddr (e.offset % 512)) < 512 * e.blocks}

/-- The sectors that the loader reads for the header. -/
def sectors (e : ProgramHeader) : Nat :=
  if e.filesz = 0 then (if e.offset % 512 = 0 then 0 else 1) else e.blocks % 65536

def stored (e : ProgramHeader) : Set Nat :=
  {b | b < 4294967296 ∧ sub32 b (sub32 e.paddr (e.offset % 256)) < 512 * e.sectors}

/-- The byte of the file that the loader stores at address `b`. -/
def source (e : ProgramHeader) (b : Nat) : Nat :=
  e.offset / 512 * 512 + sub32 b (sub32 e.paddr (e.offset % 256))

/-- The address of byte `j` of the segment. -/
def address (e : ProgramHeader) (j : Nat) : Nat := add32 e.paddr j

end ProgramHeader

/-- The headers of an image that the loader is made for. -/
structure Image (n : Nat) (h : Nat → ProgramHeader) : Prop where
  short : ∀ k < n, (h k).IsSegment → (h k).filesz < 33554432
  apart : ∀ k < n, ∀ l < n, k ≠ l → (h k).IsSegment → (h l).IsSegment →
    Disjoint (h k).image (h l).image
  clear : ∀ k < n, (h k).IsSegment → Disjoint (h k).image loaderBuffers

/-- What the loop should make of memory, with `mem k` in front of pass `k`. -/
structure Placing (n : Nat) (h : Nat → ProgramHeader) (file : Memory) (mem : Nat → Memory) : Prop where
  placed : ∀ k < n, (h k).type = PT_LOAD → ∀ j < (h k).filesz,
    mem n ((h k).address j) = file ((h k).offset + j)
  kept : ∀ k < n, ¬ (h k).IsSegment → ∀ b, b ∉ loaderBuffers → mem (k + 1) b = mem k b

def segments (sd : Card) (elfAddr : Nat) (h : Nat → ProgramHeader) (m : Memory) : Nat → Memory
  | 0 => m
  | k + 1 => bootSegment sd elfAddr (h k).offset (h k).paddr (h k).filesz (segments sd elfAddr h m k)

/-- The headers with which nothing goes wrong. -/
structure Fine (n : Nat) (h : Nat → ProgramHeader) : Prop where
  segment : ∀ k < n, (h k).IsSegment → (h k).offset % 512 < 256 ∧ (h k).blocks < 65536
  /-- another header stores in the buffers, or where a segment before it has put the same bytes -/
  other : ∀ k < n, ¬ (h k).IsSegment → ∀ b ∈ (h k).stored, b ∈ loaderBuffers ∨
    ∃ l < k, (h l).IsSegment ∧ b ∈ (h l).image ∧ (h l).source b = (h k).source b

variable {sd : Card} {m : Memory} {a n k l j b : Nat} {e e' : ProgramHeader} {h : Nat → ProgramHeader}

/-! ## One header -/

theorem bootSegment_spec (sd : Card) (a : Nat) (e : ProgramHeader) (m : Memory) (b : Nat) :
    (b ∈ e.stored → bootSegment sd a e.offset e.paddr e.filesz m b = file sd a (e.source b)) ∧
    (b ∉ e.stored → bootSegment sd a e.offset e.paddr e.filesz m b = m b) := by
  have hshift : ∀ x, x >>> 9 = x / 512 := fun x => Nat.shiftRight_eq_div_pow x 9
  have hoffset : (e.offset &&& 511) % 256 = e.offset % 256 := by
    have hmask : e.offset &&& 511 = e.offset % 512 := Nat.and_two_pow_sub_one_eq_mod e.offset 9
    omega
  have hcount : sub32 (add32 (sub32 (add32 e.offset e.filesz) 1 / 512) 1) (e.offset / 512) % 65536 =
      e.sectors := by
    have hlt := e.offset_lt
    have hlt' := e.filesz_lt
    unfold ProgramHeader.sectors ProgramHeader.blocks sub32 add32
    split
    · split
      · omega
      · omega
    · omega
  have hbyte : ∀ x, sd.byte (add32 (e.offset / 512) a) x = file sd a (e.offset / 512 * 512 + x) := by
    intro x
    unfold file Card.byte add32
    congr 1
    omega
  unfold bootSegment
  rw [hoffset, hshift, hshift, hcount]
  unfold sdDmaSpinRead
  constructor
  · intro hb
    rw [if_pos (show _ ∧ _ from hb), hbyte]
    rfl
  · intro hb
    exact if_neg (show ¬ (_ ∧ _) from hb)

theorem bootSegment_congr {m' : Memory} (hb : m' b = m b) :
    bootSegment sd a e.offset e.paddr e.filesz m' b =
      bootSegment sd a e.offset e.paddr e.filesz m b := by
  by_cases hmem : b ∈ e.stored
  · rw [(bootSegment_spec sd a e m' b).1 hmem, (bootSegment_spec sd a e m b).1 hmem]
  · rw [(bootSegment_spec sd a e m' b).2 hmem, (bootSegment_spec sd a e m b).2 hmem, hb]

namespace ProgramHeader

theorem address_sub (e : ProgramHeader) (hj : j < 33554432) {r : Nat} (hr : r < 512) :
    sub32 (e.address j) (sub32 e.paddr r) = r + j := by
  have hlt := e.paddr_lt
  unfold address sub32 add32
  omega

theorem address_mem_image (hj : j < e.filesz) (hshort : e.filesz < 33554432) :
    e.address j ∈ e.image := by
  refine ⟨add32_lt e.paddr j, ?_⟩
  rw [e.address_sub (hj.trans hshort) (Nat.mod_lt _ (by decide))]
  unfold blocks
  omega

theorem source_address (hj : j < 33554432) :
    e.source (e.address j) = e.offset / 512 * 512 + e.offset % 256 + j := by
  unfold source
  rw [e.address_sub hj (by omega), Nat.add_assoc]

theorem stored_eq_image (hseg : e.IsSegment) (hoffset : e.offset % 512 < 256)
    (hblocks : e.blocks < 65536) : e.stored = e.image := by
  have hsectors : e.sectors = e.blocks := by
    unfold sectors
    rw [if_neg (Nat.pos_iff_ne_zero.1 hseg.2), Nat.mod_eq_of_lt hblocks]
  have hmod : e.offset % 256 = e.offset % 512 := by omega
  unfold stored image
  rw [hsectors, hmod]

/-- Even a displaced segment leaves the images of the others alone behind their first 256 bytes. -/
theorem not_stored_of_apart (hseg : e'.IsSegment) (hapart : Disjoint e.image e'.image)
    (hb : b ∈ e.image) (hrest : 256 ≤ sub32 b (sub32 e.paddr (e.offset % 512))) : b ∉ e'.stored := by
  intro hstored
  have hlt : b < 4294967296 := hb.1
  have hlt' := e'.paddr_lt
  have hin : sub32 b (sub32 e.paddr (e.offset % 512)) < 512 * e.blocks := hb.2
  have hin' : sub32 b (sub32 e'.paddr (e'.offset % 256)) < 512 * e'.sectors := hstored.2
  have hsectors : e'.sectors ≤ e'.blocks := by
    unfold sectors
    rw [if_neg (Nat.pos_iff_ne_zero.1 hseg.2)]
    exact Nat.mod_le _ _
  by_cases hoffset : e'.offset % 512 < 256
  · have hmod : e'.offset % 256 = e'.offset % 512 := by omega
    rw [hmod] at hin'
    exact Set.disjoint_left.1 hapart hb ⟨hlt, by omega⟩
  · -- 256 bytes further down both images meet
    have hmod : e'.offset % 512 = e'.offset % 256 + 256 := by omega
    have hdown : ∀ p r, r < 256 → sub32 (sub32 b 256) (sub32 p (r + 256)) = sub32 b (sub32 p r) := by
      intro p r hr
      unfold sub32
      omega
    have hmem : sub32 b 256 ∈ e.image := by
      refine ⟨Nat.mod_lt _ (by decide), ?_⟩
      have hsub : sub32 (sub32 b 256) (sub32 e.paddr (e.offset % 512)) =
          sub32 b (sub32 e.paddr (e.offset % 512)) - 256 := by
        unfold sub32 at hrest ⊢
        omega
      omega
    have hmem' : sub32 b 256 ∈ e'.image := by
      refine ⟨Nat.mod_lt _ (by decide), ?_⟩
      rw [hmod, hdown _ _ (Nat.mod_lt _ (by decide))]
      omega
    exact Set.disjoint_left.1 hapart hmem hmem'

end ProgramHeader

/-! ## All headers -/

theorem segments_unchanged (hpass : ∀ l < n, segments sd a h m l b = m b →
    segments sd a h m (l + 1) b = m b) : segments sd a h m n b = m b := by
  induction n with
  | zero => rfl
  | succ n ih =>
      exact hpass n (Nat.lt_succ_self n) (ih fun l hl => hpass l (Nat.lt_succ_of_lt hl))

/-- Outside the buffers memory has the segments so far and is unchanged elsewhere. -/
structure Filled (sd : Card) (a : Nat) (h : Nat → ProgramHeader) (m : Memory) (k b : Nat) : Prop where
  inside : ∀ l < k, (h l).IsSegment → b ∈ (h l).image →
    segments sd a h m k b = file sd a ((h l).source b)
  outside : (∀ l < k, (h l).IsSegment → b ∉ (h l).image) → segments sd a h m k b = m b

theorem Filled.kept (hfill : Filled sd a h m k b) (hfine : Fine n h) (hk : k < n)
    (hseg : ¬ (h k).IsSegment) (hb : b ∉ loaderBuffers) :
    segments sd a h m (k + 1) b = segments sd a h m k b := by
  rw [segments]
  by_cases hmem : b ∈ (h k).stored
  · obtain hbuf | ⟨l, hl, hlseg, himage, hsource⟩ := hfine.other k hk hseg b hmem
    · exact absurd hbuf hb
    · rw [(bootSegment_spec _ _ _ _ _).1 hmem, hfill.inside l hl hlseg himage, hsource]
  · exact (bootSegment_spec _ _ _ _ _).2 hmem

theorem segments_filled (himage : Image n h) (hfine : Fine n h) (hk : k ≤ n) (hb : b ∉ loaderBuffers) :
    Filled sd a h m k b := by
  induction k with
  | zero => exact ⟨fun l hl => absurd hl (Nat.not_lt_zero l), fun _ => rfl⟩
  | succ k ih =>
      have hfill := ih (Nat.le_of_succ_le hk)
      by_cases hseg : (h k).IsSegment
      · obtain ⟨hoffset, hblocks⟩ := hfine.segment k hk hseg
        have hstored := ProgramHeader.stored_eq_image hseg hoffset hblocks
        by_cases hmem : b ∈ (h k).image
        · constructor
          · intro l hl hlseg hlmem
            have hlk : l = k := by
              by_contra hne
              exact Set.disjoint_left.1 (himage.apart l (by omega) k hk hne hlseg hseg) hlmem hmem
            rw [segments, hlk]
            exact (bootSegment_spec _ _ _ _ _).1 (hstored ▸ hmem)
          · exact fun hnone => absurd hmem (hnone k (Nat.lt_succ_self k) hseg)
        · have hsame : segments sd a h m (k + 1) b = segments sd a h m k b :=
            (bootSegment_spec _ _ _ _ _).2 (hstored ▸ hmem)
          constructor
          · intro l hl hlseg hlmem
            have hlk : l ≠ k := fun hlk => hmem (hlk ▸ hlmem)
            rw [hsame]
            exact hfill.inside l (by omega) hlseg hlmem
          · intro hnone
            rw [hsame]
            exact hfill.outside fun l hl => hnone l (Nat.lt_succ_of_lt hl)
      · have hsame := hfill.kept hfine hk hseg hb
        constructor
        · intro l hl hlseg hlmem
          have hlk : l ≠ k := fun hlk => hseg (hlk ▸ hlseg)
          rw [hsame]
          exact hfill.inside l (by omega) hlseg hlmem
        · intro hnone
          rw [hsame]
          exact hfill.outside fun l hl => hnone l (Nat.lt_succ_of_lt hl)

theorem Fine.placing (hfine : Fine n h) (himage : Image n h) :
    Placing n h (file sd a) (segments sd a h m) := by
  constructor
  · intro k hk htype j hj
    have hseg : (h k).IsSegment := ⟨htype, by omega⟩
    have hshort := himage.short k hk hseg
    have hmem := ProgramHeader.address_mem_image hj hshort
    have hclear := Set.disjoint_left.1 (himage.clear k hk hseg) hmem
    rw [(segments_filled himage hfine (Nat.le_refl n) hclear).inside k hk hseg hmem,
      ProgramHeader.source_address (hj.trans hshort)]
    have hoffset := (hfine.segment k hk hseg).1
    exact congrArg _ (by omega)
  · intro k hk hseg b hb
    exact (segments_filled himage hfine (Nat.le_of_lt hk) hb).kept hfine hk hseg hb

/-! ## Every file -/

/-- A card whose only nonzero byte is byte `x` of the file. -/
def markedCard (a x : Nat) : Card := fun i => if i = (512 * a + x) % 2199023255552 then 1 else 0

theorem file_markedCard (a : Nat) {x y : Nat} (hx : x < 17179869184) (hy : y < 17179869184) :
    file (markedCard a x) a y = if y = x then 1 else 0 := by
  unfold file Card.byte markedCard
  by_cases hxy : y = x
  · rw [if_pos hxy, hxy, if_pos rfl]
  · rw [if_neg hxy, if_neg (by omega)]

theorem ProgramHeader.source_lt (e : ProgramHeader) (b : Nat) : e.source b < 17179869184 := by
  have hlt := e.offset_lt
  unfold source sub32
  omega

/-- Where the headers are right for every file, the pass of a segment stores each byte behind the
first 256 of its image, and at its place: no other pass could do it. -/
theorem stored_of_placing (himage : Image n h)
    (hplacing : ∀ sd m, Placing n h (file sd a) (segments sd a h m)) (hk : k < n)
    (hseg : (h k).IsSegment) (hj : j < (h k).filesz) (hrest : 256 ≤ (h k).offset % 512 + j) :
    (h k).address j ∈ (h k).stored ∧ (h k).offset % 512 < 256 := by
  have hlt := (h k).offset_lt
  have hshort := himage.short k hk hseg
  have hmem := ProgramHeader.address_mem_image hj hshort
  have hclear := Set.disjoint_left.1 (himage.clear k hk hseg) hmem
  have hj' : j < 33554432 := hj.trans hshort
  have hplaced := (hplacing (markedCard a ((h k).offset + j)) fun _ => 0).placed k hk hseg.1 j hj
  rw [file_markedCard a (by omega) (by omega), if_pos rfl] at hplaced
  by_contra hnot
  have hzero : segments (markedCard a ((h k).offset + j)) a h (fun _ => 0) n ((h k).address j) = 0 := by
    apply segments_unchanged
    intro l hl hbefore
    by_cases hlseg : (h l).IsSegment
    · rw [segments]
      by_cases hstored : (h k).address j ∈ (h l).stored
      · have hlk : l = k := by
          by_contra hne
          refine ProgramHeader.not_stored_of_apart hlseg
            (himage.apart k hk l hl (Ne.symm hne) hseg hlseg) hmem ?_ hstored
          rw [(h k).address_sub hj' (Nat.mod_lt _ (by decide))]
          exact hrest
        rw [(bootSegment_spec _ _ _ _ _).1 hstored, hlk, ProgramHeader.source_address hj',
          file_markedCard a (by omega) (by omega)]
        apply if_neg
        intro hsource
        exact hnot ⟨hlk ▸ hstored, by omega⟩
      · rw [(bootSegment_spec _ _ _ _ _).2 hstored]
        exact hbefore
    · rw [(hplacing _ _).kept l hl hlseg _ hclear]
      exact hbefore
  rw [hzero] at hplaced
  exact absurd hplaced (by decide)

/-- Where the headers are right for every file a segment is not displaced and not cut. -/
theorem segment_of_placing (himage : Image n h)
    (hplacing : ∀ sd m, Placing n h (file sd a) (segments sd a h m)) (hk : k < n)
    (hseg : (h k).IsSegment) : (h k).offset % 512 < 256 ∧ (h k).blocks < 65536 := by
  have hshort := himage.short k hk hseg
  have hoffset : (h k).offset % 512 < 256 := by
    by_contra hnot
    exact hnot (stored_of_placing himage hplacing hk hseg hseg.2 (by omega)).2
  refine ⟨hoffset, ?_⟩
  by_contra hlong
  -- byte 512 lies behind the one sector at most that is left
  have hlarge : 512 < (h k).filesz := by
    unfold ProgramHeader.blocks at hlong
    omega
  have hstored := (stored_of_placing himage hplacing hk hseg hlarge (by omega)).1.2
  rw [(h k).address_sub (by decide) (by omega)] at hstored
  have hsectors : (h k).sectors ≤ 1 := by
    unfold ProgramHeader.sectors
    rw [if_neg (Nat.pos_iff_ne_zero.1 hseg.2)]
    unfold ProgramHeader.blocks at hlong ⊢
    omega
  omega

/-- With the headers `h`, the loop is right for every file and memory exactly if they are fine. -/
theorem placing_iff_fine (himage : Image n h) :
    (∀ sd m, Placing n h (file sd a) (segments sd a h m)) ↔ Fine n h := by
  constructor
  case mpr => exact fun hfine sd m => hfine.placing himage
  case mp =>
    intro hplacing
    constructor
    case segment => exact fun k hk hseg => segment_of_placing himage hplacing hk hseg
    case other =>
      intro k hk hseg b hstored
      by_contra hnot
      push Not at hnot
      obtain ⟨hclear, hnone⟩ := hnot
      have hplaced := hplacing (markedCard a ((h k).source b)) fun _ => 0
      have hzero : segments (markedCard a ((h k).source b)) a h (fun _ => 0) k b = 0 := by
        apply segments_unchanged
        intro l hl hbefore
        have hln : l < n := hl.trans hk
        by_cases hlseg : (h l).IsSegment
        · rw [segments]
          by_cases hlstored : b ∈ (h l).stored
          · obtain ⟨hoffset, hblocks⟩ := segment_of_placing himage hplacing hln hlseg
            have hlmem := ProgramHeader.stored_eq_image hlseg hoffset hblocks ▸ hlstored
            rw [(bootSegment_spec _ _ _ _ _).1 hlstored,
              file_markedCard a ((h k).source_lt b) ((h l).source_lt b)]
            exact if_neg (hnone l hl hlseg hlmem)
          · rw [(bootSegment_spec _ _ _ _ _).2 hlstored]
            exact hbefore
        · rw [hplaced.kept l hln hlseg b hclear]
          exact hbefore
      have hkept := hplaced.kept k hk hseg b hclear
      rw [segments, (bootSegment_spec _ _ _ _ _).1 hstored, hzero,
        file_markedCard a ((h k).source_lt b) ((h k).source_lt b), if_pos rfl] at hkept
      exact absurd hkept (by decide)

/-! ## The loader -/

theorem mbrPasses_spec (sd : Card) (m : Memory) (k : Nat) :
    let f := file sd (elfAddr sd)
    (mbrPasses sd m k).2 = phdrOffset f k ∧ ∀ b, b ∉ loaderBuffers →
      (mbrPasses sd m k).1 b = segments sd (elfAddr sd) (phdr f) m k b := by
  obtain ⟨haddr, hphoff, hphentsize, -, hmem⟩ := mbrStart_started sd m
  dsimp only
  induction k with
  | zero =>
      constructor
      · have hlt := load32_lt (file sd (elfAddr sd)) 0x1C
        unfold mbrPasses phdrOffset
        rw [Nat.zero_mul, Nat.add_zero]
        exact hphoff.trans (Nat.mod_eq_of_lt hlt).symm
      · exact hmem
  | succ k ih =>
      obtain ⟨hoffset, hbefore⟩ := ih
      have hstep : mbrPasses sd m (k + 1) = bootHeader sd (mbrStart sd m).elfAddr
          (mbrStart sd m).phentsize (mbrPasses sd m k) := Function.iterate_succ_apply' _ k _
      rw [hstep, bootHeader_spec, haddr, hphentsize, hoffset]
      constructor
      · unfold phdrOffset add32
        rw [Nat.succ_mul]
        omega
      · intro b hb
        rw [segments]
        apply bootSegment_congr
        rw [sdDmaSpinRead_buffer hb (Or.inr ⟨rfl, by decide⟩)]
        exact hbefore b hb

/-- What the loop of `mbr_bootmain` should make of memory, for the file on the card. -/
def BootPlacing (sd : Card) (m : Memory) : Prop :=
  let f := file sd (elfAddr sd)
  Placing (phnum f) (phdr f) f fun k => (mbrPasses sd m k).1

theorem Placing.congr {file : Memory} {mem mem' : Nat → Memory} (hplacing : Placing n h file mem)
    (hclear : ∀ k < n, (h k).IsSegment → ∀ j < (h k).filesz, (h k).address j ∉ loaderBuffers)
    (hmem : ∀ k b, b ∉ loaderBuffers → mem' k b = mem k b) : Placing n h file mem' := by
  constructor
  · intro k hk htype j hj
    rw [hmem n _ (hclear k hk ⟨htype, by omega⟩ j hj)]
    exact hplacing.placed k hk htype j hj
  · intro k hk hseg b hb
    rw [hmem (k + 1) b hb, hmem k b hb]
    exact hplacing.kept k hk hseg b hb

/-- The boot loader places every segment of an image with fine headers. No other headers make its
loop right for every file. -/
theorem mbr_bootmain_places_iff {sd : Card}
    (himage : Image (phnum (file sd (elfAddr sd))) (phdr (file sd (elfAddr sd)))) :
    let f := file sd (elfAddr sd)
    ((∀ sd' m, Placing (phnum f) (phdr f) (file sd' (elfAddr sd))
      (segments sd' (elfAddr sd) (phdr f) m)) ↔ Fine (phnum f) (phdr f)) ∧
    (Fine (phnum f) (phdr f) → ∀ m, (mbrStart sd m).phnum = phnum f ∧ BootPlacing sd m) := by
  refine ⟨placing_iff_fine himage, fun hfine m => ⟨(mbrStart_started sd m).phnum, ?_⟩⟩
  apply (hfine.placing himage).congr
  · intro k hk hseg j hj
    exact Set.disjoint_left.1 (himage.clear k hk hseg)
      (ProgramHeader.address_mem_image hj (himage.short k hk hseg))
  · exact fun k b hb => (mbrPasses_spec sd m k).2 b hb

/-- A card whose second partition is at sector 1, with two segments of four bytes, the first one at
`offset`. -/
def sampleCard (offset : Nat) : Card :=
  [(0x1D6, 1), (512, 0x464C457F), (516, 0x101), (512 + 0x1C, 52), (512 + 0x28, 0x200034),
    (512 + 0x2C, 2), (564, PT_LOAD), (568, offset), (576, 0x200000), (580, 4), (584, 4),
    (596, PT_LOAD), (600, 2050), (608, 0x300000), (612, 4), (616, 4),
    (512 + offset, 0x11111111), (512 + 2050, 0x22222222)].foldl (fun m w => store32 m w.1 w.2)
    fun _ => 0

/-- What the loader finds on it. -/
structure Sample (offset : Nat) : Prop where
  sector : elfAddr (sampleCard offset) = 1
  count : phnum (file (sampleCard offset) 1) = 2
  header : ∀ k < 2, let e := phdr (file (sampleCard offset) 1) k
    e.type = PT_LOAD ∧ e.filesz = 4 ∧ e.paddr = 0x200000 + 0x100000 * k ∧
      e.offset = if k = 0 then offset else 2050

theorem sample_straight : Sample 512 := by
  constructor <;> decide +kernel

theorem sample_displaced : Sample 768 := by
  constructor <;> decide +kernel

theorem Sample.image_near {offset k b : Nat} (h : Sample offset) (hk : k < 2)
    (hb : b ∈ (phdr (file (sampleCard offset) 1) k).image) :
    0x1FFE00 + 0x100000 * k < b ∧ b < 0x200400 + 0x100000 * k := by
  obtain ⟨-, hfilesz, hpaddr, -⟩ := h.header k hk
  obtain ⟨hlt, hin⟩ := hb
  have hblocks : (phdr (file (sampleCard offset) 1) k).blocks ≤ 2 := by
    unfold ProgramHeader.blocks
    omega
  rw [hpaddr] at hin
  unfold sub32 at hin
  omega

theorem Sample.image {offset : Nat} (h : Sample offset) :
    Image (phnum (file (sampleCard offset) (elfAddr (sampleCard offset))))
      (phdr (file (sampleCard offset) (elfAddr (sampleCard offset)))) := by
  rw [h.sector, h.count]
  constructor
  case short =>
    intro k hk _
    have hfilesz := (h.header k hk).2.1
    omega
  case apart =>
    intro k hk l hl hne _ _
    apply Set.disjoint_left.2
    intro b hb hb'
    have hnear := h.image_near hk hb
    have hnear' := h.image_near hl hb'
    omega
  case clear =>
    intro k hk _
    apply Set.disjoint_left.2
    intro b hb hbuf
    have hnear := h.image_near hk hb
    have hbuf : MBR_BUFFER ≤ b ∧ b < MBR_BUFFER + 512 ∨ ELF_BUFFER ≤ b ∧ b < ELF_BUFFER + 1536 := hbuf
    unfold MBR_BUFFER ELF_BUFFER at hbuf
    omega

/-- The displacement of the first segment is 256, and the first bytes of its sector are in its
place. -/
theorem mbr_bootmain_displaces : ∃ sd : Card,
    Image (phnum (file sd (elfAddr sd))) (phdr (file sd (elfAddr sd))) ∧
    ¬ BootPlacing sd fun _ => 0 := by
  refine ⟨sampleCard 768, sample_displaced.image, ?_⟩
  intro hplacing
  unfold BootPlacing at hplacing
  dsimp only at hplacing
  rw [sample_displaced.sector, sample_displaced.count] at hplacing
  obtain ⟨htype, hfilesz, hpaddr, hstart⟩ := sample_displaced.header 0 (by decide)
  have hplaced := hplacing.placed 0 (by decide) htype 0 (by rw [hfilesz]; decide)
  unfold ProgramHeader.address at hplaced
  rw [hpaddr, hstart] at hplaced
  have hbytes : (mbrPasses (sampleCard 768) (fun _ => 0) 2).1 (add32 (0x200000 + 0x100000 * 0) 0) ≠
      file (sampleCard 768) 1 (768 + 0) := by decide +kernel
  exact hbytes hplaced

/-- The second segment starts two bytes into its sector. -/
theorem mbr_bootmain_sample : BootPlacing (sampleCard 512) fun _ => 7 := by
  refine ((mbr_bootmain_places_iff sample_straight.image).2 ?_ fun _ => 7).2
  rw [sample_straight.sector, sample_straight.count]
  constructor
  case segment =>
    intro k hk _
    obtain ⟨-, hfilesz, -, hstart⟩ := sample_straight.header k hk
    have hoffset : (phdr (file (sampleCard 512) 1) k).offset = 512 ∨
        (phdr (file (sampleCard 512) 1) k).offset = 2050 := by
      rw [hstart]
      split
      · exact Or.inl rfl
      · exact Or.inr rfl
    unfold ProgramHeader.blocks
    omega
  case other =>
    intro k hk hseg
    obtain ⟨htype, hfilesz, -⟩ := sample_straight.header k hk
    exact absurd ⟨htype, by omega⟩ hseg

end Aimv6.Boot
