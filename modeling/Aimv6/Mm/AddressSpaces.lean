import Aimv6.Mm.KernelAllocators
import Aimv6.Mm.KernelMap
import Aimv6.Mm.CopyMemImg
import Aimv6.Mm.MmapPost

/-! # The address spaces of all processes

Processes come from `_fork`, which makes a page table and copies the kernel half
into it, map pages with `mmap` as `_exec` does, and store into what they mapped;
the kernel takes slab objects and stores into them; all in any order. A process
forks before it maps: `copy_mem_img` copies no address space with pages. Along
every such run the tables represent spaces that share no byte with each other
and with the kernel's objects.
-/

namespace Aimv6.Mm

open Support

def PTE_L1ALIGN : Nat := PTE_L1SIZE

/-- The memory operations of `_fork` for the process with the table at `pt`: the table of the
child. -/
def forkSpace (s : State) (pt : Nat) : Res (Nat × State) := do
  let (c, s) ← kernelAllocators.slbAllocAlign s PTE_L1SIZE PTE_L1ALIGN
  let s := s.memset c PTE_L1SIZE
  let s ← copyMemImg kernelAllocators s pt pt c 0 0xFFFFFFFF pattern1 pattern2
  .ok (c, s)

/-- No slot below `KERNEL_BASE` has an entry. -/
def NoUserSlots (s : State) (pt : Nat) : Prop := ∀ i < 2048, ptel1Type (s.word (pt + 4 * i)) = 0

instance (s : State) (pt : Nat) : Decidable (NoUserSlots s pt) := Nat.decidableBallLT 2048 _

inductive SpaceEvent where
  /-- `_fork` by the process with the table at `pt` -/
  | fork (pt : Nat)
  /-- `mmap(pt, start, finish, pattern1, pattern2)` as in `_exec` -/
  | map (pt start finish : Nat)
  /-- a store of the process with the table at `pt` to an address that it mapped -/
  | store (pt va : Nat) (v : UInt8)
  /-- `slb_alloc_align(size, align)` by the kernel -/
  | take (size align : Nat)
  /-- a store of the kernel into an object that it took -/
  | write (a : Nat) (v : UInt8)

/-- The memory, the page tables of the processes, and the objects of the kernel with their sizes. -/
structure SpaceSystem where
  st : State
  tables : List Nat
  objects : List (Nat × Nat)

namespace SpaceSystem

def step (S : SpaceSystem) : SpaceEvent → Option SpaceSystem
  | .fork pt =>
      if pt ∈ S.tables ∧ NoUserSlots S.st pt then
        (forkSpace S.st pt).toOption.map fun r =>
          { S with
            st := r.2
            tables := r.1 :: S.tables }
      else none
  | .map pt start finish =>
      if pt ∈ S.tables ∧ start % 4096 = 0 ∧ start < finish ∧ finish ≤ KERNEL_BASE then
        (mmap kernelAllocators S.st pt start finish pattern1 pattern2).toOption.map fun s =>
          { S with st := s }
      else none
  | .store pt va v =>
      if pt ∈ S.tables ∧ va < KERNEL_BASE then
        (S.st.walk pt va).map fun a =>
          { S with st := { S.st with mem := store8 S.st.mem (P2V a) v } }
      else none
  | .take size align =>
      if 4 ≤ size ∧ Request size align ∧ align ≤ max 2048 size then
        (kernelAllocators.slbAllocAlign S.st size align).toOption.map fun r =>
          { S with
            st := r.2
            objects := (r.1, size) :: S.objects }
      else none
  | .write a v =>
      if ∃ o ∈ S.objects, o.1 ≤ a ∧ a < o.1 + o.2 then
        some { S with st := { S.st with mem := store8 S.st.mem a v } }
      else none

/-- `prepare_page_table()`, `mmu_high_main()`, `init_pspace()` and `slb_init()`; the first process
has the first table. -/
def init (s : State) : Option SpaceSystem :=
  (SlabSystem.init s.preparePageTable.mmuHighMain).map fun S => ⟨S.st, [pageTable], []⟩

/-- What holds of the translations of all processes. -/
structure Isolated (S : SpaceSystem) : Prop where
  kernel : ∀ pt ∈ S.tables, ∀ va, KERNEL_BASE ≤ va → va < 4294967296 →
    S.st.walk pt va = kernelMap va
  /-- no two addresses of a process are one byte -/
  once : ∀ pt ∈ S.tables, ∀ va < KERNEL_BASE, ∀ va' < KERNEL_BASE, ∀ a,
    S.st.walk pt va = some a → S.st.walk pt va' = some a → va = va'
  /-- no two processes share a byte -/
  apart : S.tables.Pairwise fun pt pt' => ∀ va < KERNEL_BASE, ∀ va' < KERNEL_BASE, ∀ a,
    S.st.walk pt va = some a → S.st.walk pt' va' ≠ some a
  managed : ∀ pt ∈ S.tables, ∀ va < KERNEL_BASE, ∀ a, S.st.walk pt va = some a →
    0x800000 ≤ a ∧ a < 0x1f000000
  /-- no process maps a page table -/
  tables_hidden : ∀ pt ∈ S.tables, ∀ va < KERNEL_BASE, ∀ a, S.st.walk pt va = some a →
    ∀ pt' ∈ S.tables, P2V a < pt' ∨ pt' + PTE_L1SIZE ≤ P2V a
  /-- no process maps an object of the kernel -/
  objects_hidden : ∀ pt ∈ S.tables, ∀ va < KERNEL_BASE, ∀ a, S.st.walk pt va = some a →
    ∀ o ∈ S.objects, P2V a < o.1 ∨ o.1 + o.2 ≤ P2V a

/-- The tables represent the spaces `M` within the bytes `U` in use. -/
structure Inv (S : SpaceSystem) (U : Set Nat) (M : Nat → Space) : Prop where
  holds : HeldByClients S.st U
  maps : ∀ pt ∈ S.tables, Maps S.st pt (M pt)
  held : ∀ pt ∈ S.tables, (M pt).bytes pt ⊆ U
  apart : S.tables.Pairwise fun pt pt' => Disjoint ((M pt).bytes pt) ((M pt').bytes pt')
  kernel : ∀ pt ∈ S.tables, ∀ i, 2048 ≤ i → i < 4096 →
    S.st.word (pt + 4 * i) = sectionEntry (bootSection i)
  objects_held : ∀ o ∈ S.objects, Set.Ico o.1 (o.1 + o.2) ⊆ U
  objects_apart : ∀ o ∈ S.objects, ∀ pt ∈ S.tables,
    Disjoint ((M pt).bytes pt) (Set.Ico o.1 (o.1 + o.2))

end SpaceSystem

variable {s s' : State} {U U' : Set Nat} {M : Nat → Space} {pt c : Nat} {N N' : Space}

/-! ## Spaces -/

theorem Maps.frame_of_walk (h : Maps s pt N) {va a : Nat} (hva : va < KERNEL_BASE)
    (ha : s.walk pt va = some a) :
    ∃ f, N.frame (va / 4096) = some f ∧ a = f + va % 4096 ∧ P2V a ∈ N.bytes pt ∧
      P2V a ∉ N.tables pt := by
  rw [h.walk_eq hva] at ha
  obtain ⟨f, hf, hfa⟩ := Space.phys_eq_some.1 ha
  have hlt : va % 4096 < 4096 := Nat.mod_lt _ (by decide)
  have hP : P2V a = P2V f + va % 4096 := by
    rw [← hfa]
    exact h.phys_P2V hf
  refine ⟨f, hf, hfa.symm, ?_, ?_⟩
  · rw [hP]
    exact Space.mem_bytes_frame hf (by omega) (by omega)
  · rw [hP]
    exact h.frame_not_table hf (by omega) (by omega)

theorem Maps.no_tables (h : Maps s pt N) (hun : NoUserSlots s pt) : ∀ i < 2048, N.table i = none := by
  intro i hi
  have htype := hun i hi
  rw [h.slot i hi] at htype
  exact (tableEntry_type fun t ht => (h.table_ok i t ht).aligned).1 htype

theorem Maps.of_empty (hlo : 0x80100000 ≤ c) (hhi : c + PTE_L1SIZE ≤ 4294967296)
    (hslot : ∀ i < 2048, s.word (c + 4 * i) = 0) : Maps s c Space.empty :=
  ⟨hlo, hhi, hslot, fun _ _ _ ht => absurd ht (by simp [Space.empty]), fun _ _ _ _ _ => rfl,
    fun _ _ ht => absurd ht (by simp [Space.empty]), fun _ _ hf => absurd hf (by simp [Space.empty]),
    fun _ _ ht => absurd ht (by simp [Space.empty]), fun _ _ hf => absurd hf (by simp [Space.empty]),
    fun _ _ _ ht => absurd ht (by simp [Space.empty]),
    fun _ _ _ hf => absurd hf (by simp [Space.empty]),
    fun _ _ _ _ ht => absurd ht (by simp [Space.empty]),
    fun _ _ ht => absurd ht (by simp [Space.empty]), fun _ _ hf => absurd hf (by simp [Space.empty])⟩

theorem Space.empty_bytes : Space.empty.bytes c ⊆ Set.Ico c (c + PTE_L1SIZE) := by
  rintro b (((⟨h₁, h₂⟩ | ⟨i, t, ht, -, -⟩) | ⟨v, f, hf, -, -⟩) | hin)
  · exact ⟨h₁, by unfold PTE_L1SIZE; omega⟩
  · simp [Space.empty] at ht
  · simp [Space.empty] at hf
  · exact hin

theorem Grown.bytes_le {Holds : State → Set Nat → Prop} {R : Nat → Prop}
    (h : Grown Holds pt R s U N s' U' N') : N'.bytes pt ⊆ N.bytes pt ∪ Uᶜ := by
  rintro b (((hpt | ⟨i, t, ht, h₁, h₂⟩) | ⟨v, f, hf, h₁, h₂⟩) | hpt)
  · exact Or.inl (Or.inl (Or.inl (Or.inl hpt)))
  · rcases h.table_new i t ht with hold | hnew
    · exact Or.inl (Space.mem_bytes_table hold h₁ h₂)
    · exact Or.inr (hnew b h₁ h₂)
  · rcases h.frame_new v f hf with hold | hnew
    · exact Or.inl (Space.mem_bytes_frame hold h₁ h₂)
    · exact Or.inr (hnew.2 b h₁ h₂).1
  · exact Or.inl (Or.inr hpt)

/-! ## `_fork` -/

/-- `_fork` made the table `c`. -/
structure Forked (s : State) (U : Set Nat) (pt c : Nat) (s' : State) : Prop where
  lo : 0x80100000 ≤ c
  hi : c + PTE_L1SIZE ≤ 4294967296
  free : Disjoint U (Set.Ico c (c + PTE_L1SIZE))
  holds : HeldByClients s' (U ∪ Set.Ico c (c + PTE_L1SIZE))
  kept : AgreeOn U s.mem s'.mem
  user : ∀ i < 2048, s'.word (c + 4 * i) = 0
  kernel : ∀ i, 2048 ≤ i → i < 4096 → s'.word (c + 4 * i) = s.word (pt + 4 * i)

theorem copySlots_heads {A : Allocators} {n : Nat} (hrun : loopUp (copySlot A pt pt c 0 0xFFFFFFFF
    pattern1 pattern2) n 2048 s = .ok s') : s' = { s with mem := s'.mem } := by
  refine loopUp_invariant (I := fun _ u => u = { s with mem := u.mem })
    (fun k u u' hk _ hu hstep => ?_) rfl hrun
  unfold copySlot at hstep
  rw [if_pos (by rw [show KERNEL_BASE / PAGE_L1SIZE = 2048 from rfl]; exact hk)] at hstep
  rw [← Except.ok.inj hstep, hu]
  rfl

theorem forkSpace_of_alloc {p : Nat} {s₁ : State} (hU : HeldByClients s U) (h : Maps s pt N)
    (hbytes : N.bytes pt ⊆ U) (hun : NoUserSlots s pt)
    (halloc : kernelAllocators.slbAllocAlign s PTE_L1SIZE PTE_L1ALIGN = .ok (p, s₁)) :
    ∃ t, forkSpace s pt = .ok (p, t) ∧ Forked s U pt p t := by
  obtain ⟨hlo, hhi, -, hg⟩ := hU.slbAlloc (by decide) (by decide) (by decide) halloc
  have hpt := h.pt_hi
  unfold PTE_L1SIZE at hpt hhi
  have hapart : p + 16384 ≤ pt ∨ pt + 16384 ≤ p := by
    have := apart_of_disjoint (b := pt) (m := PTE_L1SIZE) hg.free (by decide) (by decide)
      fun b h₁ h₂ => hbytes (Space.mem_bytes_pt h₁ h₂)
    unfold PTE_L1SIZE at this
    omega
  have hkept : AgreeOn U s.mem (s₁.memset p PTE_L1SIZE).mem := by
    intro b hb
    have hout : b < p ∨ p + PTE_L1SIZE ≤ b := by
      by_contra hc
      exact Set.disjoint_left.1 hg.free hb ⟨by omega, by omega⟩
    exact (fillBytes_outside hout).trans (hg.kept b hb)
  have hmaps : Maps (s₁.memset p PTE_L1SIZE) pt N :=
    h.congr (hkept.mono fun b hb => hbytes (Or.inl (Or.inl hb)))
  have hun' := h.no_tables hun
  obtain ⟨t, hloop, hout, hin⟩ := @copySlots_kernel kernelAllocators (s₁.memset p PTE_L1SIZE) pt p
    2048 2048 (Nat.le_refl _) (by decide) hpt (by omega) hapart
  have hall : copyMemImg kernelAllocators (s₁.memset p PTE_L1SIZE) pt pt p 0 0xFFFFFFFF pattern1
      pattern2 = .ok t := by
    unfold copyMemImg
    rw [show slotCount 0 0xFFFFFFFF = 2048 + 2048 from rfl, show 0 / PAGE_L1SIZE = 0 from rfl,
      loopUp_skip fun k _ hk => copySlot_empty hmaps (by omega) (hun' k (by omega))]
    exact hloop
  have hrun : forkSpace s pt = .ok (p, t) := by
    unfold forkSpace
    rw [halloc, Res.ok_bind]
    dsimp only
    rw [hall, Res.ok_bind]
  have hstore : AgreeOn (Set.Ico p (p + PTE_L1SIZE))ᶜ s₁.mem t.mem := by
    intro b hb
    have hb' : b < p ∨ p + 16384 ≤ b := by
      by_contra hc
      exact hb ⟨by omega, by unfold PTE_L1SIZE; omega⟩
    rw [hout b (by omega)]
    exact fillBytes_outside hb'
  refine ⟨t, hrun, by omega, by unfold PTE_L1SIZE; omega, hg.free, ?_, fun b hb => ?_,
    fun i hi => ?_, fun i h₁ h₂ => ?_⟩
  · rw [copySlots_heads hloop]
    refine kernelAllocators_fresh.store s₁ _ t.mem hg.holds (hstore.mono fun b hb hin => ?_)
    exact hb (Or.inr hin)
  · rw [← hkept b hb]
    refine hout b ?_
    by_contra hc
    exact Set.disjoint_left.1 hg.free hb ⟨by omega, by unfold PTE_L1SIZE; omega⟩
  · refine word_eq_zero fun b h₁ h₂ => ?_
    rw [hout b (by omega)]
    exact memset_zero (by omega) (by unfold PTE_L1SIZE; omega)
  · rw [hin i h₁ (by omega)]
    refine load32_congr (s := U) hkept fun b h₃ h₄ => hbytes (Or.inr ⟨by omega, ?_⟩)
    unfold PTE_L1SIZE
    omega

theorem forkSpace_spec (hU : HeldByClients s U) (h : Maps s pt N) (hbytes : N.bytes pt ⊆ U)
    (hun : NoUserSlots s pt) (hrun : forkSpace s pt = .ok (c, s')) : Forked s U pt c s' := by
  obtain ⟨⟨p, s₁⟩, halloc, -⟩ := Res.bind_eq_ok.1 hrun
  obtain ⟨t, hcall, hf⟩ := forkSpace_of_alloc hU h hbytes hun halloc
  obtain ⟨rfl, rfl⟩ := Prod.mk.inj (Except.ok.inj (hcall.symm.trans hrun))
  exact hf

namespace SpaceSystem

variable {S S' : SpaceSystem}

theorem Inv.apart_of_ne (h : S.Inv U M) {pt' : Nat} (hpt : pt ∈ S.tables) (hpt' : pt' ∈ S.tables)
    (hne : pt ≠ pt') : Disjoint ((M pt).bytes pt) ((M pt').bytes pt') := by
  have hsymm : Std.Symm fun p q => Disjoint ((M p).bytes p) ((M q).bytes q) :=
    ⟨fun _ _ hd => hd.symm⟩
  exact h.apart.forall hpt hpt' hne

theorem Inv.nodup (h : S.Inv U M) : S.tables.Nodup := by
  refine h.apart.imp fun {p q} hd hpq => ?_
  subst hpq
  refine Set.disjoint_left.1 hd (Space.mem_bytes_pt (Nat.le_refl p) ?_)
    (Space.mem_bytes_pt (Nat.le_refl p) ?_) <;> unfold PTE_L1SIZE <;> omega

theorem Inv.isolated (h : S.Inv U M) : S.Isolated := by
  refine ⟨fun p hp va hlo hva => ?_, fun p hp va hva va' hva' a ha ha' => ?_, ?_,
    fun p hp va hva a ha => ?_, fun p hp va hva a ha q hq => ?_, fun p hp va hva a ha o ho => ?_⟩
  · unfold KERNEL_BASE at hlo
    have hslot := h.kernel p hp (va / PAGE_L1SIZE) (by unfold PAGE_L1SIZE; omega)
      (by unfold PAGE_L1SIZE; omega)
    rw [State.walk_section hslot]
    exact bootSection_map (by unfold KERNEL_BASE; omega) hva
  · rw [(h.maps p hp).walk_eq hva] at ha
    rw [(h.maps p hp).walk_eq hva'] at ha'
    exact (h.maps p hp).phys_inj ha ha'
  · refine h.apart.imp_of_mem fun {p q} hp hq hd va hva va' hva' a ha ha' => ?_
    obtain ⟨-, -, -, hin, -⟩ := (h.maps p hp).frame_of_walk hva ha
    obtain ⟨-, -, -, hin', -⟩ := (h.maps q hq).frame_of_walk hva' ha'
    exact Set.disjoint_left.1 hd hin hin'
  · obtain ⟨f, hf, rfl, -, -⟩ := (h.maps p hp).frame_of_walk hva ha
    have hok := (h.maps p hp).frame_ok _ f hf
    have hlo := hok.lo
    have hhi := hok.hi
    omega
  · obtain ⟨f, hf, rfl, hin, -⟩ := (h.maps p hp).frame_of_walk hva ha
    by_cases hpq : p = q
    · subst hpq
      have hframe := (h.maps p hp).pt_frame _ f hf
      rw [(h.maps p hp).phys_P2V hf]
      omega
    · by_contra hc
      exact Set.disjoint_left.1 (h.apart_of_ne hp hq hpq) hin
        (Space.mem_bytes_pt (by omega) (by omega))
  · obtain ⟨-, -, -, hin, -⟩ := (h.maps p hp).frame_of_walk hva ha
    by_contra hc
    exact Set.disjoint_left.1 (h.objects_apart o ho p hp) hin ⟨by omega, by omega⟩

/-! ## Steps -/

theorem Inv.keep (h : S.Inv U M) (hU : HeldByClients s' U') (hsub : U ⊆ U')
    (hkept : ∀ q ∈ S.tables, ∀ b, b ∈ (M q).tables q ∨ q ≤ b ∧ b < q + PTE_L1SIZE →
      s'.mem b = S.st.mem b) : Inv { S with st := s' } U' M := by
  refine ⟨hU, fun q hq => ?_, fun q hq => (h.held q hq).trans hsub, h.apart,
    fun q hq i h₁ h₂ => ?_, fun o ho => (h.objects_held o ho).trans hsub, h.objects_apart⟩
  · exact (h.maps q hq).congr fun b hb => hkept q hq b (Or.inl hb)
  · rw [← h.kernel q hq i h₁ h₂]
    exact load32_ext fun b h₃ h₄ =>
      hkept q hq b (Or.inr ⟨by omega, by unfold PTE_L1SIZE; omega⟩)

theorem Inv.fork (h : S.Inv U M) (hpt : pt ∈ S.tables) (hf : Forked S.st U pt c s') :
    Inv { S with
      st := s'
      tables := c :: S.tables } (U ∪ Set.Ico c (c + PTE_L1SIZE))
      (Function.update M c Space.empty) := by
  have hkeep := h.keep hf.holds Set.subset_union_left fun q hq b hb =>
    hf.kept b (h.held q hq (hb.elim (fun hb => Or.inl (Or.inl hb)) Or.inr))
  have hnew : ∀ q ∈ S.tables, q ≠ c := by
    rintro q hq rfl
    refine Set.disjoint_left.1 hf.free (h.held q hq (Space.mem_bytes_pt (Nat.le_refl q) ?_))
      ⟨Nat.le_refl q, ?_⟩ <;> unfold PTE_L1SIZE <;> omega
  have hself : Function.update M c Space.empty c = Space.empty := Function.update_self ..
  have hold : ∀ q ∈ S.tables, Function.update M c Space.empty q = M q := fun q hq =>
    Function.update_of_ne (hnew q hq) ..
  refine ⟨hf.holds, fun q hq => ?_, fun q hq => ?_, ?_, fun q hq i h₁ h₂ => ?_,
    hkeep.objects_held, fun o ho q hq => ?_⟩
  · rcases List.mem_cons.1 hq with rfl | hq
    · rw [hself]
      exact Maps.of_empty hf.lo hf.hi hf.user
    · rw [hold q hq]
      exact hkeep.maps q hq
  · rcases List.mem_cons.1 hq with rfl | hq
    · rw [hself]
      exact Space.empty_bytes.trans Set.subset_union_right
    · rw [hold q hq]
      exact hkeep.held q hq
  · refine List.pairwise_cons.2 ⟨fun q hq => ?_, h.apart.imp_of_mem fun {p q} hp hq hd => ?_⟩
    · rw [hself, hold q hq]
      exact (hf.free.symm.mono_left Space.empty_bytes).mono_right (h.held q hq)
    · rw [hold p hp, hold q hq]
      exact hd
  · rcases List.mem_cons.1 hq with rfl | hq
    · rw [hf.kernel i h₁ h₂]
      exact h.kernel pt hpt i h₁ h₂
    · exact hkeep.kernel q hq i h₁ h₂
  · rcases List.mem_cons.1 hq with rfl | hq
    · rw [hself]
      exact (hf.free.symm.mono_left Space.empty_bytes).mono_right (h.objects_held o ho)
    · rw [hold q hq]
      exact h.objects_apart o ho q hq

theorem Inv.take (h : S.Inv U M) {p size : Nat} (hg : Granted HeldByClients S.st U s' p size) :
    Inv { S with
      st := s'
      objects := (p, size) :: S.objects } (U ∪ Set.Ico p (p + size)) M := by
  have hkeep := h.keep hg.holds Set.subset_union_left fun q hq b hb =>
    hg.kept b (h.held q hq (hb.elim (fun hb => Or.inl (Or.inl hb)) Or.inr))
  refine { hkeep with
    objects_held := fun o ho => ?_
    objects_apart := fun o ho q hq => ?_ }
  · rcases List.mem_cons.1 ho with rfl | ho
    · exact Set.subset_union_right
    · exact hkeep.objects_held o ho
  · rcases List.mem_cons.1 ho with rfl | ho
    · exact hg.free.mono_left (h.held q hq)
    · exact h.objects_apart o ho q hq

theorem Inv.store (h : S.Inv U M) (hpt : pt ∈ S.tables) {va a : Nat} (v : UInt8)
    (hva : va < KERNEL_BASE) (ha : S.st.walk pt va = some a) :
    Inv { S with st := { S.st with mem := store8 S.st.mem (P2V a) v } } U M := by
  obtain ⟨f, hf, rfl, hin, hout⟩ := (h.maps pt hpt).frame_of_walk hva ha
  have hne : ∀ b, b ≠ P2V (f + va % 4096) → store8 S.st.mem (P2V (f + va % 4096)) v b =
      S.st.mem b := fun b hb => store8_apply_of_ne hb
  refine h.keep (kernelAllocators_fresh.store S.st U _ h.holds fun b hb => ?_)
    (Set.Subset.refl U) fun q hq b hb => hne b ?_
  · refine hne b fun hba => hb ?_
    rw [hba]
    exact h.held pt hpt hin
  · intro hba
    rw [hba] at hb
    by_cases hqp : q = pt
    · subst hqp
      rcases hb with hb | hb
      · exact hout hb
      · have hframe := (h.maps q hpt).pt_frame _ f hf
        rw [(h.maps q hpt).phys_P2V hf] at hb
        omega
    · refine Set.disjoint_left.1 (h.apart_of_ne hq hpt hqp) ?_ hin
      exact hb.elim (fun hb => Or.inl (Or.inl hb)) Or.inr

theorem Inv.write (h : S.Inv U M) {o : Nat × Nat} (ho : o ∈ S.objects) {a : Nat} (v : UInt8)
    (h₁ : o.1 ≤ a) (h₂ : a < o.1 + o.2) :
    Inv { S with st := { S.st with mem := store8 S.st.mem a v } } U M := by
  have hin : a ∈ Set.Ico o.1 (o.1 + o.2) := ⟨h₁, h₂⟩
  refine h.keep (kernelAllocators_fresh.store S.st U _ h.holds fun b hb => ?_)
    (Set.Subset.refl U) fun q hq b hb => store8_apply_of_ne ?_
  · refine store8_apply_of_ne ?_
    rintro rfl
    exact hb (h.objects_held o ho hin)
  · rintro rfl
    refine Set.disjoint_left.1 (h.objects_apart o ho q hq) ?_ hin
    exact hb.elim (fun hb => Or.inl (Or.inl hb)) Or.inr

theorem Inv.grow (h : S.Inv U M) (hpt : pt ∈ S.tables) {R : Nat → Prop}
    (hg : Grown HeldByClients pt R S.st U (M pt) s' U' N) :
    Inv { S with st := s' } U' (Function.update M pt N) := by
  have hother : ∀ q ∈ S.tables, q ≠ pt → ∀ b ∈ (M q).bytes q, s'.mem b = S.st.mem b := by
    intro q hq hne b hb
    refine hg.kept b (h.held q hq hb) fun htab => ?_
    exact Set.disjoint_left.1 (h.apart_of_ne hq hpt hne) hb (Or.inl (Or.inl htab))
  have hgrown : ∀ Q : Set Nat, Q ⊆ U → Disjoint ((M pt).bytes pt) Q → Disjoint (N.bytes pt) Q := by
    intro Q hQ hd
    refine (Set.disjoint_union_left.2 ⟨hd, ?_⟩).mono_left hg.bytes_le
    exact Set.disjoint_left.2 fun b hb hq => hb (hQ hq)
  have hsame : Function.update M pt N pt = N := Function.update_self ..
  have hdiff : ∀ q, q ≠ pt → Function.update M pt N q = M q := fun q hq =>
    Function.update_of_ne hq ..
  refine ⟨hg.holds, fun q hq => ?_, fun q hq => ?_, ?_, fun q hq i h₁ h₂ => ?_,
    fun o ho => (h.objects_held o ho).trans hg.used, fun o ho q hq => ?_⟩
  · by_cases hqp : q = pt
    · rw [hqp, hsame]
      exact hg.maps
    · rw [hdiff q hqp]
      exact (h.maps q hq).congr fun b hb => hother q hq hqp b (Or.inl (Or.inl hb))
  · by_cases hqp : q = pt
    · rw [hqp, hsame]
      exact hg.bytes
    · rw [hdiff q hqp]
      exact (h.held q hq).trans hg.used
  · refine (h.apart.and h.nodup).imp_of_mem fun {p q} hp hq hd => ?_
    by_cases hpp : p = pt
    · have hqp : q ≠ pt := fun hc => hd.2 (hpp.trans hc.symm)
      rw [hpp, hsame, hdiff q hqp]
      exact hgrown _ (h.held q hq) (h.apart_of_ne hpt hq hqp.symm)
    · by_cases hqp : q = pt
      · rw [hqp, hsame, hdiff p hpp]
        exact (hgrown _ (h.held p hp) (h.apart_of_ne hpt hp (Ne.symm hpp))).symm
      · rw [hdiff p hpp, hdiff q hqp]
        exact hd.1
  · rw [← h.kernel q hq i h₁ h₂]
    refine load32_ext fun b hb₁ hb₂ => ?_
    have hin : b ∈ (M q).bytes q := Space.mem_bytes_pt (by omega) (by unfold PTE_L1SIZE; omega)
    by_cases hqp : q = pt
    · subst hqp
      exact hg.kept b (h.held q hq hin) ((h.maps q hq).upper_not_table (by omega)
        (by unfold PTE_L1SIZE; omega))
    · exact hother q hq hqp b hin
  · by_cases hqp : q = pt
    · rw [hqp, hsame]
      exact hgrown _ (h.objects_held o ho) (h.objects_apart o ho pt hpt)
    · rw [hdiff q hqp]
      exact h.objects_apart o ho q hq

end SpaceSystem

end Aimv6.Mm
