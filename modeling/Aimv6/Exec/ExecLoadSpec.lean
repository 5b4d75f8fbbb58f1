import Aimv6.Exec.ExecLoad

/-! # What the loader loads

An invariant of the loop over the headers: the segments of the passes made so far
are in the frames of their pages, and what was in use before is as it was but for
the tables and frames of the process. A pass keeps it where the headers so far ask
for segments that begin in the first block of their page, fit the 16-bit count and
have zero bytes behind their file part on the card, or that have no bytes and
disturb none.
-/

namespace Aimv6.Exec

open Support Mm

/-- A segment that the loader puts where it belongs. -/
structure ProgramHeader.Plain (m : Memory) (e : ProgramHeader) : Prop where
  first_block : e.offset % 4096 < 512
  short : (e.offset % 512 + e.memsz + 511) / 512 < 65536
  no_wrap : e.offset + e.memsz ≤ 4294967296
  clear : ∀ j, e.filesz ≤ j → j < e.memsz → m (e.offset + j) = 0

/-- The loop comes to header `k`. -/
def Reached (m : Memory) (k : Nat) : Prop := IsLoad m k ∧ ∀ l < k, (phdr m l).type = PT_LOAD

/-- For a segment without bytes the loader stores nothing, or one block at the start of a page that
has the same bytes there as far as earlier segments go. -/
def Harmless (m : Memory) (k : Nat) : Prop :=
  (phdr m k).offset % 512 = 0 ∨ ∀ l < k, IsLoad m l → ∀ j < (phdr m l).memsz,
    ((phdr m l).vaddr + j) / 4096 = (phdr m k).vaddr / 4096 → ((phdr m l).vaddr + j) % 4096 < 512 →
      m ((phdr m k).offset / 512 * 512 + ((phdr m l).vaddr + j) % 4096) = segmentByte m (phdr m l) j

/-- No slot of the kernel is empty in the table at `pt`. -/
def KernelInUse (s : State) (pt : Nat) : Prop :=
  ∀ i, 2048 ≤ i → i < 4096 → ptel1Type (s.word (pt + 4 * i)) ≠ 0

/-- The headers come to every segment with bytes, each of these is plain, and the others do no
harm. -/
structure Plain (m : Memory) (s : State) (pt : Nat) : Prop where
  loads_first : ∀ k, IsLoad m k → 0 < (phdr m k).memsz → Reached m k
  segment : ∀ k, IsLoad m k → 0 < (phdr m k).memsz → (phdr m k).Plain m
  empty : ∀ k, Reached m k → (phdr m k).memsz = 0 → Harmless m k
  /-- for an empty segment at address 0 `mmap` visits the kernel's slots too -/
  kernel : ∀ k, Reached m k → (phdr m k).memsz = 0 → (phdr m k).vaddr = 0 → KernelInUse s pt

variable {A : Allocators} {Holds : State → Set Nat → Prop} {sd : SdCard} {m : Memory}
  {s s' s₀ s₁ s₂ : State} {U U₀ U₁ : Set Nat} {M M₀ M₁ : Space} {pt a t k startBlock : Nat}

/-! ## Headers in the buffer -/

/-- The bytes of the header buffer at `a`. -/
def bufferBytes (a : Nat) : Set Nat := Set.Ico a (a + 2560)

/-- The segments of the first `k` headers are in place. Before the first of them the state was `s₀`,
with the bytes `U₀` in use and the space `M₀`. -/
structure Loading (Holds : State → Set Nat → Prop) (m : Memory) (pt a : Nat) (s₀ : State) (U₀ : Set Nat)
    (M₀ : Space) (k : Nat) (s : State) (U : Set Nat) (M : Space) : Prop where
  maps : Maps s pt M
  holds : Holds s U
  bytes : M.bytes pt ⊆ U
  buffer : bufferBytes a ⊆ U
  buffer_apart : Disjoint (M.bytes pt) (bufferBytes a)
  buffer_fresh : Disjoint U₀ (bufferBytes a)
  used : U₀ ⊆ U
  tables : ∀ b ∈ U₀, b ∈ M.tables pt → b ∈ M₀.tables pt
  kept : ∀ b ∈ U₀, b ∉ M₀.tables pt → b ∉ M.frames → s.mem b = s₀.mem b
  placed : ∀ l < k, IsLoad m l → ∀ j < (phdr m l).memsz, ∃ f,
    M.frame (((phdr m l).vaddr + j) / 4096) = some f ∧
      s.mem (P2V f + ((phdr m l).vaddr + j) % 4096) = segmentByte m (phdr m l) j

namespace Loading

theorem frame_apart (h : Loading Holds m pt a s₀ U₀ M₀ k s U M) {v f b : Nat}
    (hf : M.frame v = some f) (h₁ : P2V f ≤ b) (h₂ : b < P2V f + 4096) : b ∉ bufferBytes a :=
  Set.disjoint_left.1 h.buffer_apart (Space.mem_bytes_frame hf h₁ h₂)

theorem transfer (hA : Fresh A Holds) (h : Loading Holds m pt a s₀ U₀ M₀ k s U M) {n : Nat}
    (hn : n ≤ 2560) (c : Nat → UInt8) :
    Loading Holds m pt a s₀ U₀ M₀ k (transfer s a n c) U M := by
  have hout : ∀ b, b ∉ bufferBytes a → (Exec.transfer s a n c).mem b = s.mem b := by
    intro b hb
    rw [transfer_mem]
    apply storeBytes_out
    by_contra hc
    exact hb ⟨by omega, by omega⟩
  refine { h with maps := ?_, holds := ?_, kept := ?_, placed := ?_ }
  · apply h.maps.congr
    intro b hb
    exact hout b (Set.disjoint_left.1 h.buffer_apart (Or.inl (Or.inl hb)))
  · apply hA.store s U _ h.holds
    intro b hb
    exact hout b fun hbuf => hb (h.buffer hbuf)
  · intro b hb htab hframe
    rw [hout b (Set.disjoint_left.1 h.buffer_fresh hb)]
    exact h.kept b hb htab hframe
  · intro l hl hload j hj
    obtain ⟨f, hf, hbyte⟩ := h.placed l hl hload j hj
    have hlt : ((phdr m l).vaddr + j) % 4096 < 4096 := Nat.mod_lt _ (by decide)
    exact ⟨f, hf, (hout _ (h.frame_apart hf (by omega) (by omega))).trans hbyte⟩

end Loading

/-! ## One segment -/

/-- The arithmetic of a pass: the blocks of the segment, from the first of its first page on. The
count that the pass computes may have wrapped. -/
structure Fits (e : ProgramHeader) (count : Nat) : Prop where
  blocks : ∃ c, c % 65536 = count ∧ add32 e.vaddr (c * 512) = e.vaddr + 512 * count ∧
    sub32 (sub32 (add32 e.offset e.memsz) 1 / BLOCK_SIZE + 1) (e.offset / BLOCK_SIZE) = c
  enough : e.offset % 512 + e.memsz ≤ 512 * count
  close : 512 * count < e.offset % 512 + e.memsz + 512

theorem fits {e : ProgramHeader} (hvalid : e.Valid) (hpos : 0 < e.memsz) (hplain : e.Plain m) :
    ∃ count, Fits e count := by
  have hshort := hplain.short
  have hwrap := hplain.no_wrap
  have hcong := hvalid.congruent
  have hbelow := hvalid.below
  rw [show KERNEL_BASE - USER_STACK = 2139095040 from rfl] at hbelow
  have hsum : sub32 (add32 e.offset e.memsz) 1 = e.offset + e.memsz - 1 := by
    unfold sub32 add32
    omega
  refine ⟨(e.offset % 512 + e.memsz + 511) / 512, ⟨_, Nat.mod_eq_of_lt hshort, ?_, ?_⟩, by omega,
    by omega⟩
  · rw [Nat.mul_comm]
    exact add32_of_lt (by omega)
  · rw [hsum, show BLOCK_SIZE = 512 from rfl, sub32_of_le (by omega) (by omega)]
    omega

section Segment

variable {e : ProgramHeader} {count j x pHeader : Nat}

theorem Fits.byte (hfits : Fits e count) (hvalid : e.Valid)
    (hplain : e.Plain (file sd startBlock)) (hj : j < e.memsz) :
    e.offset % 512 + j < 512 * count ∧
      (e.vaddr + j) / 4096 = e.vaddr / 4096 + (e.offset % 512 + j) / 4096 ∧
      (e.vaddr + j) % 4096 = (e.offset % 512 + j) % 4096 ∧
      sd.byte (startBlock + e.offset / 512) (e.offset % 512 + j) =
        segmentByte (file sd startBlock) e j := by
  have henough := hfits.enough
  have hcong := hvalid.congruent
  have hfirst := hplain.first_block
  refine ⟨by omega, by omega, by omega, ?_⟩
  rw [SdCard.byte_shift]
  unfold segmentByte
  by_cases hfile : j < e.filesz
  · rw [if_pos hfile]
    rfl
  · rw [if_neg hfile]
    exact hplain.clear j (by omega) hj

theorem Harmless.byte (h : Harmless (file sd startBlock) k) {l : Nat} (hl : l < k)
    (hload : IsLoad (file sd startBlock) l) (hj : j < (phdr (file sd startBlock) l).memsz)
    (hx : x < 512 * (((phdr (file sd startBlock) k).offset % 512 + 511) / 512))
    (hpage : ((phdr (file sd startBlock) l).vaddr + j) / 4096 =
      (phdr (file sd startBlock) k).vaddr / 4096 + x / 4096)
    (hbyte : ((phdr (file sd startBlock) l).vaddr + j) % 4096 = x % 4096) :
    sd.byte (startBlock + (phdr (file sd startBlock) k).offset / 512) x =
      segmentByte (file sd startBlock) (phdr (file sd startBlock) l) j := by
  obtain ⟨o, ho⟩ : ∃ o, o = (phdr (file sd startBlock) k).offset := ⟨_, rfl⟩
  rw [← ho] at hx ⊢
  rcases h with hzero | hsame
  · rw [← ho] at hzero
    omega
  · have hlow : x < 512 := by omega
    have hmod : x % 4096 = x := by omega
    have hfile := hsame l hl hload j hj (by omega) (by omega)
    rw [← ho, hbyte, hmod] at hfile
    rw [← hfile]
    have hblock : o / 512 * 512 % 512 = 0 := Nat.mul_mod_left _ _
    have hsector : o / 512 * 512 / 512 = o / 512 := Nat.mul_div_cancel _ (by decide)
    have hshift := sd.byte_shift startBlock (o / 512 * 512) x
    rw [hblock, hsector, Nat.zero_add] at hshift
    exact hshift

end Segment

/-- An allocator call of the loader does not come back. -/
def OutOfMemory (A : Allocators) (e : Halt) : Prop :=
  Exhausted A e ∨ ∃ u, A.slbAllocAlign u (BLOCK_SIZE * 5) BLOCK_SIZE = .error e

/-- A file with two program headers, of which the second one is PT_LOAD. -/
def sampleFile (firstType : Nat) : Memory :=
  [(0, 0x464C457F), (4, 0x101), (0x1C, 52), (0x28, 0x200034), (0x2C, 2),
    (52, firstType), (56, 0x1000), (60, 0x8000), (68, 4), (72, 8),
    (84, PT_LOAD), (88, 0x2000), (92, 0x9000), (100, 4), (104, 8),
    (0x1000, 0x11111111), (0x2000, 0x22222222)].foldl (fun m w => store32 m w.1 w.2) fun _ => 0

/-- A card with that file at its first block. -/
def sampleCard (firstType : Nat) : SdCard :=
  ⟨true, fun _ _ => true, fun n i => sampleFile firstType (512 * n + i.val), none⟩

/-- What the two files have in common. -/
structure Sample (firstType : Nat) : Prop where
  ident : sampleFile firstType 0 = 0x7F ∧ sampleFile firstType 1 = 0x45 ∧
    sampleFile firstType 2 = 0x4C ∧ sampleFile firstType 3 = 0x46 ∧
    sampleFile firstType 4 = 1 ∧ sampleFile firstType 5 = 1
  phoff : phoff (sampleFile firstType) = 52
  phentsize : phentsize (sampleFile firstType) = 32
  phnum : phnum (sampleFile firstType) = 2
  first : phdr (sampleFile firstType) 0 = ⟨firstType, 0x1000, 0x8000, 4, 8⟩
  second : phdr (sampleFile firstType) 1 = ⟨PT_LOAD, 0x2000, 0x9000, 4, 8⟩

theorem Sample.header {firstType k : Nat} (h : Sample firstType) (hk : IsLoad (sampleFile firstType) k) :
    k < 2 ∧ phdr (sampleFile firstType) k = ⟨PT_LOAD, 0x1000 * (k + 1), 0x8000 + 0x1000 * k, 4, 8⟩ := by
  obtain ⟨hlt, htype⟩ := hk
  rw [h.phnum] at hlt
  refine ⟨hlt, ?_⟩
  by_cases hzero : k = 0
  · rw [hzero, h.first] at htype
    rw [hzero, h.first, show firstType = PT_LOAD from htype]
  · have hone : k = 1 := by omega
    rw [hone, h.second]

theorem Sample.page {firstType k v : Nat} (h : Sample firstType) (hk : IsLoad (sampleFile firstType) k)
    (hv : (phdr (sampleFile firstType) k).InPage v) : v = 8 + k := by
  obtain ⟨j, hj, rfl⟩ := hv
  rw [(h.header hk).2] at hj ⊢
  dsimp only at hj ⊢
  omega

end Aimv6.Exec
