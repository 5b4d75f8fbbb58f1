import Aimv6.Mm.MemorySystem
import Aimv6.Mm.Fresh

/-! # The allocators that `mmap.c` calls

`slb_alloc_align` and `pages_alloc` of this kernel hand out fresh memory: whoever
holds bytes outside what the two allocators keep for themselves is never given
one of them again, and finds them as they were.
-/

namespace Aimv6.Mm

open Support

/-- `slb_alloc_align` and `pages_alloc`. -/
def kernelAllocators : Allocators where
  slbAllocAlign s size align := Mm.slbAllocAlign s size align >>= fun r => .ok (ptrVal r.1, r.2)
  pagesAlloc := Mm.pagesAlloc

/-- The bytes `U` belong to clients. -/
def HeldByClients (s : State) (U : Set Nat) : Prop :=
  ∃ V l, SlabInv s V l ∧ Disjoint U (V.own l)

variable {s s' : State} {U : Set Nat} {V V' : View} {l l' : List Extent}

theorem View.own_apart_grow {p n : Nat} (hU : Disjoint U (V.own l)) (hshrink : V'.own l' ⊆ V.own l)
    (hslot : ∀ b ∈ V'.own l', ¬ (p ≤ b ∧ b < p + n)) :
    Disjoint (U ∪ Set.Ico p (p + n)) (V'.own l') := by
  refine Set.disjoint_union_left.2 ⟨hU.mono_right hshrink, Set.disjoint_left.2 fun b hb hown => ?_⟩
  exact hslot b hown ⟨hb.1, hb.2⟩

theorem HeldByClients.slbAlloc {size align p : Nat} (hU : HeldByClients s U)
    (hreq : Request size align) (hroom : align ≤ max 2048 size) (hsize : 4 ≤ size)
    (hrun : kernelAllocators.slbAllocAlign s size align = .ok (p, s')) :
    2155872256 ≤ p ∧ p + size ≤ 2667577344 ∧ (align ≠ 0 → align ∣ p) ∧
      Granted HeldByClients s U s' p size := by
  obtain ⟨V, l, hI, hdis⟩ := hU
  obtain ⟨⟨res, t⟩, hcall, hpair⟩ := Res.bind_eq_ok.1 hrun
  obtain ⟨hp, rfl⟩ := Prod.mk.inj (Except.ok.inj hpair)
  have hks : keySize size = size := by
    rw [hreq.keySize_eq]
    omega
  rcases hI.alloc_spec hreq.keyOk with hok | hno
  · obtain ⟨q, u, V', l', hcall', ha⟩ := hok
    obtain ⟨rfl, rfl⟩ : res = some q ∧ t = u := by
      have := hcall.symm.trans hcall'
      simpa using this
    obtain rfl : q = p := hp
    have hserved := hI.alloc_served hreq.keyOk hcall'
    obtain ⟨V₀, l₀, hinv₀, hkept₀⟩ := hserved.kept
    have hkept := hkept₀.congr hinv₀ ha.inv
    obtain ⟨d, pre, v, post, hd, hal, hos, hpools, -, hin⟩ := ha.slot
    have hv : V'.Pool d v := ⟨hd, by simp [hpools]⟩
    have hnodup := ha.inv.layout.taken_nodup
    have hfresh : q ∈ V'.taken ∧ q ∉ V'.slabs := by
      rcases ha.taken with ⟨htaken, hslabs⟩ | ⟨e, htaken, hslabs⟩
      · rw [htaken] at hnodup ⊢
        refine ⟨List.mem_cons_self .., fun hc => (List.nodup_cons.1 hnodup).1 ?_⟩
        rw [hslabs] at hc
        exact (hI.layout.descriptor q hc).1
      · rw [htaken] at hnodup ⊢
        refine ⟨List.mem_cons_self .., fun hc => (List.nodup_cons.1 hnodup).1 ?_⟩
        rw [hslabs] at hc
        rcases List.mem_cons.1 hc with rfl | hold
        · exact List.mem_cons_self ..
        · exact List.mem_cons_of_mem _ (hI.layout.descriptor q hold).1
    have hused : q ∈ V'.used v := View.mem_used.2 ⟨hfresh.1, hin⟩
    have hok := ha.inv.layout.pool_ok d v hv
    have hslot : q ∈ V'.slots v := View.mem_slots.2 (Or.inr hused)
    have hinside := hok.inside q hslot
    have hlo := hok.lo
    have hhi := hok.hi
    rw [hos, hks] at hinside
    refine ⟨by omega, by omega, fun hne => ?_, Set.disjoint_left.2 fun b hb hico => ?_,
      ⟨V', l', ha.inv, View.own_apart_grow hdis hkept.shrinks fun b hb => ?_⟩, hkept.frame.mono ?_⟩
    · have hand := hok.aligned q hslot
      rw [hal, keyAlign_ne _ hne] at hand
      obtain ⟨k, -, hk⟩ := hreq.2.2.resolve_left hne
      rw [hk, Nat.and_two_pow_sub_one_eq_mod] at hand
      rw [hk]
      exact Nat.dvd_of_mod_eq_zero hand
    · exact Set.disjoint_left.1 hdis hb (hserved.slot b hico.1 (by rw [hks]; exact hico.2))
    · have hout := ha.inv.own_not_used hv hused hfresh.2 hb
      rwa [hos, hks] at hout
    · exact fun b hb hown => Set.disjoint_left.1 hdis hb hown
  · have hspin := hno.2 (hreq.roomy hroom)
    rw [hspin] at hcall
    exact absurd hcall (by simp)

theorem HeldByClients.pagesAlloc {n p : Nat} (hU : HeldByClients s U) (hpos : 0 < n)
    (hn : n % 4096 = 0) (hrun : Mm.pagesAlloc s n = .ok (p, s')) :
    p % 4096 = 0 ∧ 0x800000 ≤ p ∧ p + n ≤ 0x1f000000 ∧ Granted HeldByClients s U s' (P2V p) n := by
  obtain ⟨V, l, hI, hdis⟩ := hU
  rcases pagesAlloc_spec hI.represents hpos hn with hfit | hspin
  · obtain ⟨l₁, e, l₂, t, rfl, -, hle, hcall, hrep, hframe⟩ := hfit
    obtain ⟨rfl, rfl⟩ : e.start = p ∧ t = s' := by
      have := hcall.symm.trans hrun
      simpa using this
    have hep := hI.represents.paged e (by simp)
    have hal := hep.start_aligned
    have hlo := hep.lo
    have hhi := hep.hi
    unfold Extent.fin at hhi
    have hcarve := covered_carve hI.represents.separated hle
    have hsub : covered (l₁ ++ (e.rest n ++ l₂)) ⊆ covered (l₁ ++ e :: l₂) := by
      rw [hcarve]
      exact Set.sdiff_subset
    have hpooled := hI.pooled_fresh
    have hslab := hI.repage hrep hframe hpooled
      (hpooled.mono_right (virt_mono hsub))
    have hP : P2V e.start = e.start + 2147483648 := P2V_of_lt (by omega)
    have hbytes : ∀ b, P2V e.start ≤ b → b < P2V e.start + n →
        b ∈ virt (covered (l₁ ++ e :: l₂)) := by
      intro b h₁ h₂
      refine ⟨by unfold KERNEL_BASE; omega, e, by simp, ?_⟩
      rw [Extent.mem_bytes, Extent.fin, KERNEL_BASE]
      omega
    have hgone : ∀ b, P2V e.start ≤ b → b < P2V e.start + n →
        b ∉ virt (covered (l₁ ++ (e.rest n ++ l₂))) := by
      intro b h₁ h₂ hb
      have hb₂ := hb.2
      rw [hcarve] at hb₂
      refine hb₂.2 ?_
      unfold KERNEL_BASE
      rw [Set.mem_Ico]
      omega
    have hshrink : V.own (l₁ ++ (e.rest n ++ l₂)) ⊆ V.own (l₁ ++ e :: l₂) := by
      rintro b (hb | hb)
      · exact Or.inl (virt_mono hsub hb)
      · exact Or.inr hb
    refine ⟨hal, hlo, by omega, Set.disjoint_left.2 fun b hb hico => ?_,
      ⟨V, _, hslab, View.own_apart_grow hdis hshrink fun b hb hin => ?_⟩,
      hframe.mem.mono fun b hb hfree => Set.disjoint_left.1 hdis hb (Or.inl hfree)⟩
    · exact Set.disjoint_left.1 hdis hb (Or.inl (hbytes b hico.1 hico.2))
    · rcases hb with hfree | hrest
      · exact hgone b hin.1 hin.2 hfree
      · have hpool := hslab.own_le_pooled (Or.inr hrest)
        rcases hpool with hpool | hfree
        · exact Set.disjoint_left.1 hpooled hpool (hbytes b hin.1 hin.2)
        · exact hgone b hin.1 hin.2 hfree
  · rw [hspin.2] at hrun
    exact absurd hrun (by simp)

theorem kernelAllocators_fresh : Fresh kernelAllocators HeldByClients := by
  refine ⟨fun s U p s' hU hrun => ?_, fun s U p s' hU hrun => ?_, fun s U m hU hm => ?_⟩
  · obtain ⟨hlo, hhi, hal, hg⟩ := hU.slbAlloc (by decide) (by decide) (by decide) hrun
    unfold PTE_L2SIZE at hhi hg
    have hdvd := hal (by decide)
    unfold PTE_L2ALIGN PTE_L2SIZE at hdvd
    have hp : p = P2V (p - 2147483648) := by
      rw [P2V_of_lt (by omega)]
      omega
    refine ⟨p - 2147483648, hp, ⟨by omega, by omega, by omega⟩, ?_⟩
    rw [← hp]
    exact hg
  · obtain ⟨hal, hlo, hhi, hg⟩ := hU.pagesAlloc (n := PAGE_L2SIZE) (by decide) (by decide) hrun
    exact ⟨⟨hal, hlo, hhi⟩, hg⟩
  · obtain ⟨V, l, hI, hdis⟩ := hU
    refine ⟨V, l, hI.congr rfl rfl (hm.mono fun b hb hU => ?_), hdis⟩
    exact Set.disjoint_left.1 hdis hU hb

/-! ## After the allocators' initialisation -/

theorem slbInit_frame (h : Represents s l) (hrun : slbInit s = .ok (0, s')) :
    AgreeOn (virt (covered l))ᶜ s.mem s'.mem := by
  obtain ⟨w, t, l₁, e, slots, hm, rfl⟩ := slbInit_made h hrun
  have hframe : AgreeOn (virt (covered l))ᶜ t.mem (t.firstSlab w e).mem :=
    hm.firstSlab_frame.mono fun b hb hin => hb (hm.wasFree b hin.1 hin.2)
  exact hm.frame.trans hframe

theorem HeldByClients.init {S : SlabSystem} (hrun : SlabSystem.init s = some S)
    (hU : ∀ b ∈ U, b < P2V 0x800000) : HeldByClients S.st U ∧ AgreeOn U s.mem S.st.mem := by
  have hempty : Represents { s with fareaHead := none } [] :=
    ⟨⟨by simp, rfl, by simp⟩, Separated.nil⟩
  have hspace : Returnable space [] := ⟨⟨by decide, by decide, by decide, by decide⟩,
    by decide, by simp⟩
  obtain ⟨s₁, l₁, hfree, hrep, hcov, hframe⟩ := pagesFree_spec hempty hspace
  have hpages : initPspace s = .ok (0, s₁) := hfree
  obtain ⟨P, hP, hrun⟩ := Option.bind_eq_some_iff.1 hrun
  obtain ⟨r, hr, rfl⟩ := Option.map_eq_some_iff.1 hP
  rw [hpages] at hr
  obtain rfl := Option.some.inj hr
  obtain ⟨⟨c, t⟩, hcall, hrun⟩ := Option.bind_eq_some_iff.1 hrun
  rw [covered_nil, Set.empty_union] at hcov hframe
  have hbelow : ∀ b ∈ U, b ∉ virt space.bytes := by
    intro b hb hin
    have hlt := hU b hb
    have hlo := hin.1
    have hspace := hin.2
    rw [Extent.mem_bytes] at hspace
    have h₁ : 0x800000 ≤ b - KERNEL_BASE := hspace.1
    rw [P2V_of_lt (by decide)] at hlt
    unfold KERNEL_BASE at hlo h₁
    omega
  rcases slbInit_spec hrep with hok | hspin
  · obtain ⟨s₂, d, v, rest, l₂, hrun₂, hinv⟩ := hok
    obtain ⟨rfl, rfl⟩ : 0 = c ∧ s₂ = t := by
      have := hrun₂.symm.trans (Res.toOption_eq_some.1 hcall)
      simpa using this
    obtain rfl := Option.some.inj hrun
    have hinit := slbInit_frame hrep hrun₂
    rw [hcov] at hinit
    refine ⟨⟨_, l₂, hinv, Set.disjoint_left.2 fun b hb hown => hbelow b hb ?_⟩, fun b hb => ?_⟩
    · rw [← hcov, ← slbInit_conserved hrep hrun₂ hinv]
      exact hinv.own_le_pooled hown
    · rw [hinit b (hbelow b hb)]
      exact hframe.mem b (hbelow b hb)
  · rw [hspin] at hcall
    simp [Res.toOption] at hcall

end Aimv6.Mm
