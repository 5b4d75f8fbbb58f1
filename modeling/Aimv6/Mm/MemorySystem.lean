import Aimv6.Mm.SlabFrame
import Aimv6.Mm.Kmalloc

/-! # Runs of both allocators

Kernel code takes pages with `pages_alloc` and objects with `slb_alloc_align`,
gives them back and stores into what it holds, in any order; the slab allocator
takes its pools from the same pages. Along every such run the regions handed out
are apart from each other and from what the allocators keep, no page is lost, and
a region keeps its bytes until its client changes them or gives it back.
-/

namespace Aimv6.Mm

open Support

/-- What an allocator handed out. -/
inductive Region where
  | pages (r : Extent)
  | object (o : Obj)

/-- The bytes of a region, at their kernel addresses. -/
def Region.bytes : Region → Set Nat
  | .pages r => virt r.bytes
  | .object o => {b | o.ptr ≤ b ∧ b < o.ptr + o.size}

inductive MemoryEvent where
  /-- `pages_alloc(size)`, for a positive multiple of the page size -/
  | pagesAlloc (size : Nat)
  /-- `pages_free(r.start, r.fin)`, for a region held by a client -/
  | pagesFree (r : Extent)
  /-- `slb_alloc_align(size, align)` -/
  | slbAlloc (size align : Nat)
  /-- `slb_free_align(o.ptr, o.size, o.align)`, for an object held by a client -/
  | slbFree (o : Obj)
  /-- a store by a client into a region it holds -/
  | write (a : Nat) (v : UInt8)

def Region.giveBack : Region → MemoryEvent
  | .pages r => .pagesFree r
  | .object o => .slbFree o

/-- The allocators with the regions handed out and not yet given back. -/
structure MemorySystem where
  st : State
  pages : List Extent
  objects : List Obj

namespace MemorySystem

def regions (S : MemorySystem) : List Region := S.pages.map .pages ++ S.objects.map .object

def holds (S : MemorySystem) (a : Nat) : Bool :=
  S.pages.any (fun r => decide (KERNEL_BASE ≤ a ∧ r.start ≤ a - KERNEL_BASE ∧
    a - KERNEL_BASE < r.fin)) ||
  S.objects.any fun o => decide (o.ptr ≤ a ∧ a < o.ptr + o.size)

/-- A run does not go on behind a request that was answered with `NULL`. -/
def step (S : MemorySystem) : MemoryEvent → Option MemorySystem
  | .pagesAlloc size =>
      if 0 < size ∧ size % 4096 = 0 then
        (Mm.pagesAlloc S.st size).toOption.map fun r =>
          { S with
            st := r.2
            pages := ⟨r.1, size⟩ :: S.pages }
      else none
  | .pagesFree r =>
      if r ∈ S.pages then
        (Mm.pagesFree S.st r.start r.fin).toOption.map fun c =>
          { S with
            st := c.2
            pages := S.pages.erase r }
      else none
  | .slbAlloc size align =>
      if Request size align then
        (slbAllocAlign S.st size align).toOption.bind fun r => r.1.map fun p =>
          { S with
            st := r.2
            objects := ⟨p, size, align⟩ :: S.objects }
      else none
  | .slbFree o =>
      if o ∈ S.objects then
        (slbFreeAlign S.st o.ptr o.size o.align).toOption.map fun c =>
          { S with
            st := c.2
            objects := if c.1 = 0 then S.objects.erase o else S.objects }
      else none
  | .write a v =>
      if S.holds a then some { S with st := { S.st with mem := store8 S.st.mem a v } } else none

/-- `init_pspace()` and `slb_init()`, on a memory with any contents. -/
def init (s : State) : Option MemorySystem :=
  (SlabSystem.init s).map fun S => ⟨S.st, [], S.live⟩

theorem holds_iff {S : MemorySystem} {a : Nat} :
    S.holds a = true ↔ ∃ R ∈ S.regions, a ∈ R.bytes := by
  unfold holds regions
  rw [Bool.or_eq_true, List.any_eq_true, List.any_eq_true]
  constructor
  · rintro (⟨r, hr, ha⟩ | ⟨o, ho, ha⟩)
    · rw [decide_eq_true_iff] at ha
      exact ⟨.pages r, List.mem_append_left _ (List.mem_map_of_mem hr), ha.1, ha.2⟩
    · rw [decide_eq_true_iff] at ha
      exact ⟨.object o, List.mem_append_right _ (List.mem_map_of_mem ho), ha⟩
  · rintro ⟨R, hR, ha⟩
    rcases List.mem_append.1 hR with hR | hR
    · obtain ⟨r, hr, rfl⟩ := List.mem_map.1 hR
      exact Or.inl ⟨r, hr, decide_eq_true ⟨ha.1, ha.2.1, ha.2.2⟩⟩
    · obtain ⟨o, ho, rfl⟩ := List.mem_map.1 hR
      exact Or.inr ⟨o, ho, decide_eq_true ha⟩

/-! ## The invariant -/

def slab (S : MemorySystem) : SlabSystem := ⟨S.st, S.objects⟩

structure Inv (S : MemorySystem) (V : View) (l : List Extent) : Prop where
  slab : S.slab.Inv V l
  paged : ∀ r ∈ S.pages, Paged r ∧ 0 < r.size
  apart : S.pages.Pairwise fun e f => Disjoint e.bytes f.bytes
  free_apart : ∀ r ∈ S.pages, Disjoint r.bytes (covered l)
  pool_apart : ∀ r ∈ S.pages, Disjoint (virt r.bytes) V.pooled
  /-- every page is free, in a pool, or handed out -/
  total : V.pooled ∪ virt (covered l) ∪ virt (covered S.pages) = virt space.bytes

/-- What holds of the regions handed out, the linked structure `V` and the free pages `l`. -/
structure Safe (S : MemorySystem) (V : View) (l : List Extent) : Prop where
  stored : Stored S.st V
  represents : Represents S.st l
  apart : S.regions.Pairwise fun R T => Disjoint R.bytes T.bytes
  own_apart : ∀ R ∈ S.regions, Disjoint R.bytes (V.own l)
  in_pools : ∀ o ∈ S.objects, (Region.object o).bytes ⊆ V.pooled
  aligned : ∀ o ∈ S.objects, o.align ≠ 0 → o.align ∣ o.ptr
  /-- no page is lost -/
  conserved : V.pooled ∪ virt (covered l) ∪ virt (covered S.pages) =
    Set.Ico 0x80800000 0x9f000000

variable {S S' : MemorySystem} {V : View} {l : List Extent}

theorem virt_disjoint {A B : Set Nat} (h : Disjoint A B) : Disjoint (virt A) (virt B) :=
  Set.disjoint_left.2 fun _ ha hb => Set.disjoint_left.1 h ha.2 hb.2

theorem Inv.object_pooled (h : S.Inv V l) {o : Obj} (ho : o ∈ S.objects) :
    (Region.object o).bytes ⊆ V.pooled := by
  obtain ⟨d, v, hv, -, -, hu, -, hle⟩ := h.slab.object ho
  have hin := (h.slab.slab.layout.pool_ok d v hv).inside o.ptr (View.mem_slots.2 (Or.inr hu))
  rintro b ⟨h₁, h₂⟩
  exact ⟨d, v, hv, by omega, by omega⟩

theorem Inv.object_own (h : S.Inv V l) {o : Obj} (ho : o ∈ S.objects) :
    Disjoint (Region.object o).bytes (V.own l) := by
  obtain ⟨d, v, hv, -, -, hu, hnd, hle⟩ := h.slab.object ho
  refine Set.disjoint_left.2 fun b hb hown => ?_
  have hb₁ := hb.1
  have hb₂ := hb.2
  exact h.slab.slab.own_not_used hv hu hnd hown ⟨hb₁, by omega⟩

theorem Inv.pages_own (h : S.Inv V l) {r : Extent} (hr : r ∈ S.pages) :
    Disjoint (virt r.bytes) (V.own l) := by
  refine Set.disjoint_left.2 fun _ hb hown => ?_
  rcases h.slab.slab.own_le_pooled hown with hpool | hfree
  · exact Set.disjoint_left.1 (h.pool_apart r hr) hb hpool
  · exact Set.disjoint_left.1 (virt_disjoint (h.free_apart r hr)) hb hfree

theorem Inv.region_own (h : S.Inv V l) {R : Region} (hR : R ∈ S.regions) :
    Disjoint R.bytes (V.own l) := by
  rcases List.mem_append.1 hR with hR | hR
  · obtain ⟨r, hr, rfl⟩ := List.mem_map.1 hR
    exact h.pages_own hr
  · obtain ⟨o, ho, rfl⟩ := List.mem_map.1 hR
    exact h.object_own ho

theorem Inv.apart_regions (h : S.Inv V l) :
    S.regions.Pairwise fun R T => Disjoint R.bytes T.bytes := by
  unfold regions
  rw [List.pairwise_append, List.pairwise_map, List.pairwise_map]
  refine ⟨h.apart.imp virt_disjoint, ?_, fun R hR T hT => ?_⟩
  · refine h.slab.safe.live_apart.imp fun {o o'} hoo => Set.disjoint_left.2 fun _ hb hb' => ?_
    have h₁ := hb.1
    have h₂ := hb.2
    have h₃ := hb'.1
    have h₄ := hb'.2
    omega
  · obtain ⟨r, hr, rfl⟩ := List.mem_map.1 hR
    obtain ⟨o, ho, rfl⟩ := List.mem_map.1 hT
    exact (h.pool_apart r hr).mono_right (h.object_pooled ho)

theorem virt_space : virt space.bytes = Set.Ico 0x80800000 0x9f000000 := by
  ext b
  have hvirt : b ∈ virt space.bytes ↔ 2147483648 ≤ b ∧ b - 2147483648 ∈ space.bytes := Iff.rfl
  rw [hvirt, Extent.mem_bytes, Extent.fin, Set.mem_Ico]
  unfold space
  simp only
  omega

theorem Inv.safe (h : S.Inv V l) : S.Safe V l :=
  ⟨h.slab.slab.stored, h.slab.slab.represents, h.apart_regions, fun _ hR => h.region_own hR,
    fun _ ho => h.object_pooled ho, h.slab.safe.aligned, h.total.trans virt_space⟩

/-! ## Steps -/

theorem Inv.pagesAlloc (h : S.Inv V l) {n : Nat} (hpos : 0 < n) (hn : n % 4096 = 0) {p : Nat}
    {s' : State} (hrun : Mm.pagesAlloc S.st n = .ok (p, s')) :
    ∃ l', Inv ⟨s', ⟨p, n⟩ :: S.pages, S.objects⟩ V l' ∧ V.own l' ⊆ V.own l ∧
      virt (⟨p, n⟩ : Extent).bytes ⊆ virt (covered l) ∧ AgreeOn (V.own l)ᶜ S.st.mem s'.mem := by
  have hI : SlabInv S.st V l := h.slab.slab
  rcases pagesAlloc_spec hI.represents hpos hn with hfit | hspin
  · obtain ⟨l₁, e, l₂, t, rfl, -, hle, hcall, hrep, hframe⟩ := hfit
    obtain ⟨rfl, rfl⟩ : e.start = p ∧ t = s' := by
      have := hcall.symm.trans hrun
      simpa using this
    have hep := hI.represents.paged e (by simp)
    have hbytes : (⟨e.start, n⟩ : Extent).bytes ⊆ covered (l₁ ++ e :: l₂) := by
      refine Set.Subset.trans (fun b hb => ?_) (bytes_subset_covered (show e ∈ l₁ ++ e :: l₂ by simp))
      rw [Extent.mem_bytes, Extent.fin] at hb ⊢
      simp only at hb
      omega
    have hcarve := covered_carve hI.represents.separated hle
    have hsub : covered (l₁ ++ (e.rest n ++ l₂)) ⊆ covered (l₁ ++ e :: l₂) := by
      rw [hcarve]
      exact Set.sdiff_subset
    have hfresh := hI.pooled_fresh
    have hslab : SlabInv t V (l₁ ++ (e.rest n ++ l₂)) :=
      hI.repage hrep hframe hfresh (hfresh.mono_right (virt_mono hsub))
    have hown : V.own (l₁ ++ (e.rest n ++ l₂)) ⊆ V.own (l₁ ++ e :: l₂) := by
      rintro b (hb | hb)
      · exact Or.inl (virt_mono hsub hb)
      · exact Or.inr hb
    refine ⟨l₁ ++ (e.rest n ++ l₂), ⟨⟨hslab, h.slab.taken, h.slab.holds, h.slab.last⟩, ?_, ?_, ?_, ?_,
      ?_⟩, hown, virt_mono hbytes, hframe.mem.mono fun b hb hin => hb (Or.inl hin)⟩
    · intro r hr
      rcases List.mem_cons.1 hr with rfl | hr
      · have hhi := hep.hi
        unfold Extent.fin at hhi
        exact ⟨⟨hep.start_aligned, hn, hep.lo, by simp only [Extent.fin]; omega⟩, hpos⟩
      · exact h.paged r hr
    · refine List.Pairwise.cons (fun f hf => ?_) h.apart
      exact ((h.free_apart f hf).mono_right hbytes).symm
    · intro r hr
      rcases List.mem_cons.1 hr with rfl | hr
      · rw [hcarve]
        exact Set.disjoint_sdiff_right
      · exact (h.free_apart r hr).mono_right hsub
    · intro r hr
      rcases List.mem_cons.1 hr with rfl | hr
      · exact (hfresh.mono_right (virt_mono hbytes)).symm
      · exact h.pool_apart r hr
    · have hsplit : covered (l₁ ++ (e.rest n ++ l₂)) ∪ (⟨e.start, n⟩ : Extent).bytes =
          covered (l₁ ++ e :: l₂) := by
        rw [hcarve]
        exact Set.sdiff_union_of_subset hbytes
      rw [← h.total, ← hsplit, covered_cons, virt_union, virt_union, Set.union_assoc,
        Set.union_assoc, Set.union_assoc]
  · rw [hspin.2] at hrun
    simp at hrun

theorem Inv.pagesFree (h : S.Inv V l) {r : Extent} (hr : r ∈ S.pages) :
    ∃ s' l', Mm.pagesFree S.st r.start r.fin = .ok (0, s') ∧
      Inv ⟨s', S.pages.erase r, S.objects⟩ V l' ∧
      Frame (virt (covered l ∪ r.bytes)) S.st s' := by
  have hI : SlabInv S.st V l := h.slab.slab
  obtain ⟨hp, hpos⟩ := h.paged r hr
  have hret : Returnable r l := ⟨hp, hpos, h.free_apart r hr⟩
  obtain ⟨s', l', hcall, hrep, hcov, hframe⟩ := pagesFree_spec hI.represents hret
  have hfresh : Disjoint V.pooled (virt (covered l ∪ r.bytes)) := by
    rw [virt_union]
    exact Set.disjoint_union_right.2 ⟨hI.pooled_fresh, (h.pool_apart r hr).symm⟩
  have hslab : SlabInv s' V l' := hI.repage hrep hframe hfresh (by rw [hcov]; exact hfresh)
  have hperm := List.perm_cons_erase hr
  have hrest : ∀ f ∈ S.pages.erase r, f ∈ S.pages := fun f hf => List.mem_of_mem_erase hf
  refine ⟨s', l', hcall, ⟨⟨hslab, h.slab.taken, h.slab.holds, h.slab.last⟩,
    fun f hf => h.paged f (hrest f hf), h.apart.sublist List.erase_sublist, fun f hf => ?_,
    fun f hf => h.pool_apart f (hrest f hf), ?_⟩, hframe⟩
  · have hpw := (hperm.pairwise_iff fun hd => Disjoint.symm hd).1 h.apart
    rw [hcov]
    exact Set.disjoint_union_right.2 ⟨h.free_apart f (hrest f hf),
      ((List.pairwise_cons.1 hpw).1 f hf).symm⟩
  · rw [← h.total, hcov, covered_perm hperm, covered_cons, virt_union, virt_union, Set.union_assoc,
      Set.union_assoc, Set.union_assoc]

theorem Inv.slbAlloc (h : S.Inv V l) {size align p : Nat} {s' : State} (hreq : Request size align)
    (hrun : slbAllocAlign S.st size align = .ok (some p, s')) :
    ∃ V' l', Inv ⟨s', S.pages, ⟨p, size, align⟩ :: S.objects⟩ V' l' ∧ Kept S.st V l s' V' l' ∧
      ∀ b, p ≤ b → b < p + size → b ∈ V.own l := by
  have hI : SlabInv S.st V l := h.slab.slab
  obtain ⟨V', l', -, hslab⟩ := h.slab.alloc hreq hrun
  have hserved := hI.alloc_served hreq.keyOk hrun
  obtain ⟨V₀, l₀, hinv₀, hkept₀⟩ := hserved.kept
  have hkept := hkept₀.congr hinv₀ hslab.slab
  have hpooled : V'.pooled ⊆ V.pooled ∪ virt (covered l) := by
    rw [← hkept.conserved]
    exact Set.subset_union_left
  refine ⟨V', l', ⟨hslab, h.paged, h.apart, fun r hr => (h.free_apart r hr).mono_right hkept.pages,
    fun r hr => ?_, ?_⟩, hkept, fun b h₁ h₂ => hserved.slot b h₁ ?_⟩
  · refine Disjoint.mono_right hpooled (Set.disjoint_union_right.2 ⟨h.pool_apart r hr, ?_⟩)
    exact virt_disjoint (h.free_apart r hr)
  · rw [hkept.conserved]
    exact h.total
  · rw [hreq.keySize_eq]
    omega

theorem Inv.slbFree (h : S.Inv V l) {o : Obj} (ho : o ∈ S.objects) :
    ∃ c s' V', slbFreeAlign S.st o.ptr o.size o.align = .ok (c, s') ∧
      (c = 0 ∨ c = 1 ∧ s' = S.st) ∧
      Inv ⟨s', S.pages, if c = 0 then S.objects.erase o else S.objects⟩ V' l ∧
      AgreeOn {b | b ∉ V.own l ∧ b ∉ (Region.object o).bytes} S.st.mem s'.mem := by
  have hI : SlabInv S.st V l := h.slab.slab
  by_cases hagree : KeysAgree o.size o.align
  · obtain ⟨d, v, hv, -, hos, hu, hcall, hslab⟩ := h.slab.free ho hagree
    obtain ⟨-, -, -, -, -, -, hnd, -⟩ := h.slab.object ho
    have hks : V.osize d = o.size := by
      have := hagree.1
      rw [hos, (h.slab.holds o ho).1.keySize_eq]
      omega
    refine ⟨0, _, V.reslot v (o.ptr :: V.free v) (V.taken.erase o.ptr), hcall, Or.inl rfl, ?_, (hI.put_frame hv hu hnd).mono fun b hb => ?_⟩
    · rw [if_pos rfl]
      exact ⟨hslab, h.paged, h.apart, h.free_apart, h.pool_apart, h.total⟩
    · rw [hks]
      exact hb
  · refine ⟨1, S.st, V, hI.free_disagree hagree, Or.inr ⟨rfl, rfl⟩, ?_, AgreeOn.refl _ _⟩
    rw [if_neg (by decide)]
    exact ⟨h.slab, h.paged, h.apart, h.free_apart, h.pool_apart, h.total⟩

theorem Inv.write (h : S.Inv V l) {a : Nat} (v : UInt8) (ha : S.holds a = true) :
    Inv { S with st := { S.st with mem := store8 S.st.mem a v } } V l := by
  obtain ⟨R, hR, hin⟩ := holds_iff.1 ha
  have hI : SlabInv S.st V l := h.slab.slab
  have hown := Set.disjoint_left.1 (h.region_own hR) hin
  have hslab : SlabInv { S.st with mem := store8 S.st.mem a v } V l := by
    refine hI.congr rfl rfl fun b hb => store8_apply_of_ne ?_
    exact fun hba => hown (hba ▸ hb)
  exact ⟨⟨hslab, h.slab.taken, h.slab.holds, h.slab.last⟩, h.paged, h.apart, h.free_apart,
    h.pool_apart, h.total⟩

/-- The bytes of clients that an event may change. -/
def touched : MemoryEvent → Set Nat
  | .pagesFree r => (Region.pages r).bytes
  | .slbFree o => (Region.object o).bytes
  | .write a _ => {a}
  | _ => ∅

/-- One step keeps the invariant, and of the clients' bytes it changes only those that it is
about. -/
theorem step_spec {e : MemoryEvent} (h : S.Inv V l) (hstep : S.step e = some S') :
    (∃ V' l', S'.Inv V' l') ∧ ∀ b, b ∉ V.own l → b ∉ touched e → S'.st.mem b = S.st.mem b := by
  cases e with
  | pagesAlloc n =>
      unfold step at hstep
      dsimp only at hstep
      split at hstep
      case isFalse => simp at hstep
      case isTrue hn =>
        obtain ⟨⟨p, s'⟩, hcall, rfl⟩ := Option.map_eq_some_iff.1 hstep
        obtain ⟨l', hinv, -, -, hag⟩ := h.pagesAlloc hn.1 hn.2 (Res.toOption_eq_some.1 hcall)
        exact ⟨⟨V, l', hinv⟩, fun b hb _ => hag b hb⟩
  | pagesFree r =>
      unfold step at hstep
      dsimp only at hstep
      split at hstep
      case isFalse => simp at hstep
      case isTrue hr =>
        obtain ⟨s', l', hcall, hinv, hframe⟩ := h.pagesFree hr
        rw [hcall] at hstep
        obtain rfl := Option.some.inj hstep
        refine ⟨⟨V, l', hinv⟩, fun b hb hout => hframe.mem b fun hin => ?_⟩
        rw [virt_union] at hin
        exact hin.elim (fun hfree => hb (Or.inl hfree)) hout
  | slbAlloc size align =>
      unfold step at hstep
      dsimp only at hstep
      split at hstep
      case isFalse => simp at hstep
      case isTrue hreq =>
        obtain ⟨⟨res, s'⟩, hcall, hmap⟩ := Option.bind_eq_some_iff.1 hstep
        obtain ⟨p, hp, rfl⟩ := Option.map_eq_some_iff.1 hmap
        obtain rfl : res = some p := hp
        obtain ⟨V', l', hinv, hkept, -⟩ := h.slbAlloc hreq (Res.toOption_eq_some.1 hcall)
        exact ⟨⟨V', l', hinv⟩, fun b hb _ => hkept.frame b hb⟩
  | slbFree o =>
      unfold step at hstep
      dsimp only at hstep
      split at hstep
      case isFalse => simp at hstep
      case isTrue ho =>
        obtain ⟨c, s', V', hcall, -, hinv, hag⟩ := h.slbFree ho
        rw [hcall] at hstep
        obtain rfl := Option.some.inj hstep
        exact ⟨⟨V', l, hinv⟩, fun b hb hout => hag b ⟨hb, hout⟩⟩
  | write a v =>
      unfold step at hstep
      dsimp only at hstep
      split at hstep
      case isFalse => simp at hstep
      case isTrue ha =>
        obtain rfl := Option.some.inj hstep
        exact ⟨⟨V, l, h.write v ha⟩, fun b _ hout => store8_apply_of_ne hout⟩

theorem step_inv {e : MemoryEvent} (h : ∃ V l, S.Inv V l) (hstep : S.step e = some S') :
    ∃ V l, S'.Inv V l := by
  obtain ⟨V, l, hI⟩ := h
  exact (step_spec hI hstep).1

theorem run_inv {es : List MemoryEvent} (h : ∃ V l, S.Inv V l) (hrun : run step S es = some S') :
    ∃ V l, S'.Inv V l :=
  run_invariant (fun _ _ _ hI hstep => step_inv hI hstep) h hrun

theorem init_inv {s : State} (h : init s = some S) : ∃ V l, S.Inv V l := by
  obtain ⟨T, hT, rfl⟩ := Option.map_eq_some_iff.1 h
  obtain ⟨P, hP, hT⟩ := Option.bind_eq_some_iff.1 hT
  obtain ⟨L, l, hpages⟩ := PagesSystem.init_inv hP
  obtain ⟨⟨c, t⟩, hcall, hT⟩ := Option.bind_eq_some_iff.1 hT
  rcases slbInit_spec hpages.represents with hok | hspin
  · obtain ⟨s', d, v, rest, l', hrun, hinv⟩ := hok
    obtain ⟨rfl, rfl⟩ : 0 = c ∧ s' = t := by
      rw [hrun] at hcall
      simpa using Res.toOption_eq_some.1 hcall
    obtain rfl := Option.some.inj hT
    have hout : L.out = [] := by
      obtain ⟨r, -, rfl⟩ := Option.map_eq_some_iff.1 hP
      exact hpages.out_eq.symm
    have htotal := L.total
    rw [hout, covered_nil, Set.union_empty, ← hpages.free_eq] at htotal
    refine ⟨View.initial d v (poolBytes 16) rest, l', ⟨hinv, List.Perm.refl _,
      fun o ho => absurd ho List.not_mem_nil, rfl⟩, by simp, List.Pairwise.nil, by simp, by simp, ?_⟩
    have hempty : virt (covered ([] : List Extent)) = ∅ := by
      rw [covered_nil]
      exact Set.eq_empty_of_forall_notMem fun b hb => hb.2
    rw [slbInit_conserved hpages.represents hrun hinv, hempty, Set.union_empty, htotal]
  · rw [hspin] at hcall
    simp [Res.toOption] at hcall

/-! ## Runs -/

/-- Pages and objects in turn, with stores, and both given back. -/
def sampleRun : List MemoryEvent :=
  [.pagesAlloc 4096, .slbAlloc 64 64, .write 2155876352 7, .slbAlloc 16 8, .pagesAlloc 8192,
    .pagesFree ⟨8392704, 4096⟩, .pagesAlloc 4096]

theorem sampleRun_returns :
    ((init PagesSystem.blank).bind fun S => run step S sampleRun).isSome = true := by
  decide +kernel

theorem mem_regions_of_step {e : MemoryEvent} {R : Region} (hR : R ∈ S.regions)
    (hne : e ≠ R.giveBack) (hstep : S.step e = some S') : R ∈ S'.regions := by
  have hmem : (∃ r ∈ S.pages, R = .pages r) ∨ ∃ o ∈ S.objects, R = .object o := by
    rcases List.mem_append.1 hR with hR | hR
    · obtain ⟨r, hr, rfl⟩ := List.mem_map.1 hR
      exact Or.inl ⟨r, hr, rfl⟩
    · obtain ⟨o, ho, rfl⟩ := List.mem_map.1 hR
      exact Or.inr ⟨o, ho, rfl⟩
  have hpages : ∀ {T : MemorySystem} {r : Extent}, r ∈ T.pages → Region.pages r ∈ T.regions :=
    fun hr => List.mem_append_left _ (List.mem_map_of_mem hr)
  have hobjects : ∀ {T : MemorySystem} {o : Obj}, o ∈ T.objects → Region.object o ∈ T.regions :=
    fun ho => List.mem_append_right _ (List.mem_map_of_mem ho)
  cases e with
  | pagesAlloc n =>
      unfold step at hstep
      dsimp only at hstep
      split at hstep
      case isFalse => simp at hstep
      case isTrue =>
        obtain ⟨c, -, rfl⟩ := Option.map_eq_some_iff.1 hstep
        rcases hmem with ⟨r, hr, rfl⟩ | ⟨o, ho, rfl⟩
        · exact hpages (List.mem_cons_of_mem _ hr)
        · exact hobjects ho
  | pagesFree r =>
      unfold step at hstep
      dsimp only at hstep
      split at hstep
      case isFalse => simp at hstep
      case isTrue =>
        obtain ⟨c, -, rfl⟩ := Option.map_eq_some_iff.1 hstep
        rcases hmem with ⟨r', hr', rfl⟩ | ⟨o, ho, rfl⟩
        · have hrr : r' ≠ r := fun hc => hne (congrArg MemoryEvent.pagesFree hc.symm)
          exact hpages ((List.mem_erase_of_ne hrr).2 hr')
        · exact hobjects ho
  | slbAlloc size align =>
      unfold step at hstep
      dsimp only at hstep
      split at hstep
      case isFalse => simp at hstep
      case isTrue =>
        obtain ⟨c, -, hmap⟩ := Option.bind_eq_some_iff.1 hstep
        obtain ⟨p, -, rfl⟩ := Option.map_eq_some_iff.1 hmap
        rcases hmem with ⟨r, hr, rfl⟩ | ⟨o, ho, rfl⟩
        · exact hpages hr
        · exact hobjects (List.mem_cons_of_mem _ ho)
  | slbFree o =>
      unfold step at hstep
      dsimp only at hstep
      split at hstep
      case isFalse => simp at hstep
      case isTrue =>
        obtain ⟨c, -, rfl⟩ := Option.map_eq_some_iff.1 hstep
        rcases hmem with ⟨r, hr, rfl⟩ | ⟨o', ho', rfl⟩
        · exact hpages hr
        · have hoo : o' ≠ o := fun hc => hne (congrArg MemoryEvent.slbFree hc.symm)
          refine hobjects ?_
          dsimp only
          split
          · exact (List.mem_erase_of_ne hoo).2 ho'
          · exact ho'
  | write a v =>
      unfold step at hstep
      dsimp only at hstep
      split at hstep
      case isFalse => simp at hstep
      case isTrue =>
        obtain rfl := Option.some.inj hstep
        exact hR

theorem Inv.not_touched (h : S.Inv V l) {e : MemoryEvent} {R : Region} (hR : R ∈ S.regions)
    (hne : e ≠ R.giveBack) {a : Nat} (ha : a ∈ R.bytes) (hw : ∀ v, e ≠ .write a v)
    (hstep : S.step e = some S') : a ∉ touched e := by
  have hsymm : Std.Symm fun R T : Region => Disjoint R.bytes T.bytes := ⟨fun _ _ hd => hd.symm⟩
  have hdis : ∀ T ∈ S.regions, R ≠ T → Disjoint R.bytes T.bytes := fun _ hT hRT =>
    h.apart_regions.forall hR hT hRT
  cases e with
  | pagesFree r =>
      unfold step at hstep
      dsimp only at hstep
      split at hstep
      case isFalse => simp at hstep
      case isTrue hr =>
        have hT : Region.pages r ∈ S.regions := List.mem_append_left _ (List.mem_map_of_mem hr)
        exact Set.disjoint_left.1 (hdis _ hT fun hc => hne (by rw [hc]; rfl)) ha
  | slbFree o =>
      unfold step at hstep
      dsimp only at hstep
      split at hstep
      case isFalse => simp at hstep
      case isTrue ho =>
        have hT : Region.object o ∈ S.regions := List.mem_append_right _ (List.mem_map_of_mem ho)
        exact Set.disjoint_left.1 (hdis _ hT fun hc => hne (by rw [hc]; rfl)) ha
  | write b v =>
      intro hb
      obtain rfl : a = b := hb
      exact hw v rfl
  | pagesAlloc n => exact Set.notMem_empty a
  | slbAlloc size align => exact Set.notMem_empty a

theorem Inv.run_kept (h : S.Inv V l) {es : List MemoryEvent} (hrun : run step S es = some S')
    {R : Region} (hR : R ∈ S.regions) (hheld : R.giveBack ∉ es) {a : Nat} (ha : a ∈ R.bytes)
    (hw : ∀ v, .write a v ∉ es) : R ∈ S'.regions ∧ S'.st.mem a = S.st.mem a := by
  induction es generalizing S V l with
  | nil =>
      obtain rfl := Option.some.inj hrun
      exact ⟨hR, rfl⟩
  | cons e es ih =>
      obtain ⟨T, hstep, hrest⟩ := run_cons.1 hrun
      have hne : e ≠ R.giveBack := fun hc => hheld (by simp [hc])
      have hnw : ∀ v, e ≠ .write a v := fun v hc => hw v (by simp [hc])
      obtain ⟨⟨V', l', hT⟩, hag⟩ := step_spec h hstep
      have hown := Set.disjoint_left.1 (h.region_own hR) ha
      obtain ⟨hmem, hsame⟩ := ih hT hrest (mem_regions_of_step hR hne hstep)
        (fun hc => hheld (List.mem_cons_of_mem _ hc)) fun v hc => hw v (List.mem_cons_of_mem _ hc)
      exact ⟨hmem, hsame.trans (hag a hown (h.not_touched hR hne ha hnw hstep))⟩

/-- A byte of a region keeps its value, whatever the allocators and other clients do, until its
client stores to it or gives the region back. -/
theorem region_kept {s : State} {S₀ S S' : MemorySystem} {es es' : List MemoryEvent}
    (hinit : init s = some S₀) (hrun : run step S₀ es = some S) (hrun' : run step S es' = some S')
    {R : Region} (hR : R ∈ S.regions) (hheld : R.giveBack ∉ es') {a : Nat} (ha : a ∈ R.bytes)
    (hw : ∀ v, .write a v ∉ es') : R ∈ S'.regions ∧ S'.st.mem a = S.st.mem a := by
  obtain ⟨V, l, hI⟩ := run_inv (init_inv hinit) hrun
  exact hI.run_kept hrun' hR hheld ha hw

theorem region_kept_sample : ∃ S S' : MemorySystem,
    Region.pages ⟨8392704, 4096⟩ ∈ S'.regions ∧ S'.st.mem 2155876352 = S.st.mem 2155876352 := by
  have hpages : ((init PagesSystem.blank).bind fun S =>
      run step S [.pagesAlloc 4096, .write 2155876352 7]).map (fun S => S.pages) =
      some [⟨8392704, 4096⟩] := by
    decide +kernel
  obtain ⟨S, hS, hlive⟩ := Option.map_eq_some_iff.1 hpages
  obtain ⟨S₀, hinit, hrun⟩ := Option.bind_eq_some_iff.1 hS
  have hgo : (((init PagesSystem.blank).bind fun S =>
      run step S [.pagesAlloc 4096, .write 2155876352 7]).bind fun S =>
      run step S [.slbAlloc 64 64, .pagesAlloc 8192]).isSome = true := by
    decide +kernel
  rw [hS] at hgo
  obtain ⟨S', hrun'⟩ := Option.isSome_iff_exists.1 hgo
  have hR : Region.pages ⟨8392704, 4096⟩ ∈ S.regions := by
    refine List.mem_append_left _ (List.mem_map_of_mem ?_)
    rw [hlive]
    exact List.mem_singleton.2 rfl
  refine ⟨S, S', region_kept hinit hrun hrun' hR (by simp [Region.giveBack]) ?_ (by simp)⟩
  exact ⟨by decide, by decide, by decide⟩

/-! ## `kmalloc` and `kmfree` -/

/-- A block of `kmalloc` is an object with its size in the first word. -/
theorem Inv.kmalloc (h : S.Inv V l) {size q b : Nat} {s' : State} (hb : upBound size = .ok b)
    (hpos : 1 ≤ size) (hle : size + 4 ≤ b) (hmax : b ≤ 268435456)
    (hrun : Mm.kmalloc S.st size = .ok (some q, s')) :
    ∃ p, q = p + 4 ∧ s'.word p = size ∧ p + 4 < 4294967296 ∧
      ∃ V' l', Inv ⟨s', S.pages, ⟨p, b, 0⟩ :: S.objects⟩ V' l' := by
  obtain ⟨p, t, hcall, hq, rfl⟩ := kmalloc_of_some hb hrun
  obtain ⟨V', l', hI, -, -⟩ := h.slbAlloc (upBound_request hpos hle hmax).1 hcall
  obtain ⟨T, hT⟩ : ∃ T : MemorySystem, T = ⟨t, S.pages, ⟨p, b, 0⟩ :: S.objects⟩ := ⟨_, rfl⟩
  rw [← hT] at hI
  have ho : (⟨p, b, 0⟩ : Obj) ∈ T.objects := by
    rw [hT]
    exact List.mem_cons_self ..
  obtain ⟨d, v, hv, -, -, hu, -, hosize⟩ := hI.slab.object ho
  have hsize : b ≤ V'.osize d := hosize
  have hin := (hI.slab.slab.layout.pool_ok d v hv).inside p (View.mem_slots.2 (Or.inr hu))
  have hhi := (hI.slab.slab.layout.pool_ok d v hv).hi
  have hown := hI.object_own ho
  have hslab : SlabInv (t.setWord p size) V' l' := by
    have hTI : SlabInv T.st V' l' := hI.slab.slab
    rw [hT] at hTI
    refine hTI.congr rfl rfl fun c hc => store32_apply_of_outside ?_
    by_contra hmeet
    exact Set.disjoint_left.1 hown (show p ≤ c ∧ c < p + b by omega) hc
  have htaken := hI.slab.taken
  have hholds := hI.slab.holds
  have hpaged := hI.paged
  have hapart := hI.apart
  have hfree := hI.free_apart
  have hpool := hI.pool_apart
  have htotal := hI.total
  rw [hT] at htaken hholds hpaged hapart hfree hpool htotal
  exact ⟨p, hq.trans (add32_of_lt (by omega)), load32_store32_of_lt _ (by omega), by omega, V', l',
    ⟨hslab, htaken, hholds, hI.slab.last⟩, hpaged, hapart, hfree, hpool, htotal⟩

/-- `kmfree` never gives a block back: as long as nobody stores in front of it, the call finds no
descriptor with its key and changes nothing. -/
theorem kmfree_gives_nothing_back {s : State} {S₀ S S' : MemorySystem} {es es' : List MemoryEvent}
    {size q b : Nat} {s' : State} (hinit : init s = some S₀) (hrun : run step S₀ es = some S)
    (hpos : 1 ≤ size) (hsize : size + 4 ≤ 268435456) (hb : upBound size = .ok b)
    (hcall : Mm.kmalloc S.st size = .ok (some q, s'))
    (hrun' : run step ⟨s', S.pages, ⟨q - 4, b, 0⟩ :: S.objects⟩ es' = some S')
    (hheld : .slbFree ⟨q - 4, b, 0⟩ ∉ es') (hw : ∀ a v, q - 4 ≤ a → a < q → .write a v ∉ es') :
    kmfree S'.st q = .ok (1, S'.st) ∧ ⟨q - 4, b, 0⟩ ∈ S'.objects := by
  obtain ⟨b', hb', hle, hmax, -⟩ := upBound_spec hsize
  obtain rfl : b' = b := by
    have := hb'.symm.trans hb
    simpa using this
  obtain ⟨V, l, hI⟩ := run_inv (init_inv hinit) hrun
  obtain ⟨p, rfl, hword, hp, V', l', hI'⟩ := hI.kmalloc hb hpos hle hmax hcall
  rw [Nat.add_sub_cancel] at hrun' hheld hw ⊢
  obtain ⟨V'', l'', hI''⟩ := run_inv ⟨V', l', hI'⟩ hrun'
  have hR : Region.object ⟨p, b', 0⟩ ∈
      (⟨s', S.pages, ⟨p, b', 0⟩ :: S.objects⟩ : MemorySystem).regions :=
    List.mem_append_right _ (List.mem_cons_self ..)
  have hkept : ∀ i < 4, S'.st.mem (p + i) = s'.mem (p + i) := fun i hi =>
    (hI'.run_kept hrun' hR hheld (show p ≤ p + i ∧ p + i < p + b' by omega)
      fun v => hw (p + i) v (by omega) (by omega)).2
  have hmem : ⟨p, b', 0⟩ ∈ S'.objects := by
    have hreg := (hI'.run_kept hrun' hR hheld (show p ≤ p ∧ p < p + b' by omega)
      fun v => hw p v (by omega) (by omega)).1
    rcases List.mem_append.1 hreg with hpg | hob
    · obtain ⟨r, -, hr⟩ := List.mem_map.1 hpg
      exact absurd hr (by simp)
    · obtain ⟨o, ho, hoo⟩ := List.mem_map.1 hob
      obtain rfl : o = ⟨p, b', 0⟩ := by simpa using hoo
      exact ho
  have hsame : S'.st.word p = size := (load32_eq hkept).trans hword
  refine ⟨?_, hmem⟩
  rw [← add32_of_lt hp, kmfree_eq (by omega) hsame hb]
  exact SlabInv.free_disagree hI''.slab.slab (upBound_request hpos hle hmax).2

theorem kmfree_gives_nothing_back_sample : ∃ (S' : MemorySystem) (q : Nat),
    kmfree S'.st q = .ok (1, S'.st) := by
  have hall : ((init PagesSystem.blank).bind fun S => (Mm.kmalloc S.st 10).toOption.bind fun r =>
      r.1.bind fun q => run step ⟨r.2, S.pages, ⟨q - 4, 16, 0⟩ :: S.objects⟩
        [.slbAlloc 64 64, .pagesAlloc 4096]).isSome = true := by
    decide +kernel
  obtain ⟨S', hS'⟩ := Option.isSome_iff_exists.1 hall
  obtain ⟨S, hinit, hS'⟩ := Option.bind_eq_some_iff.1 hS'
  obtain ⟨⟨res, s'⟩, hcall, hS'⟩ := Option.bind_eq_some_iff.1 hS'
  obtain ⟨q, hq, hrun'⟩ := Option.bind_eq_some_iff.1 hS'
  obtain rfl : res = some q := hq
  have hb : upBound 10 = .ok 16 := by decide +kernel
  exact ⟨S', q, (kmfree_gives_nothing_back hinit (run_nil S) (by decide) (by decide) hb
    (Res.toOption_eq_some.1 hcall) hrun' (by simp) (by simp)).1⟩

end MemorySystem

end Aimv6.Mm
