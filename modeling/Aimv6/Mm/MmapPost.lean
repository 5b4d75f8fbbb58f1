import Aimv6.Mm.MmapSpec

/-! # The postcondition of `mmap`

What a call leaves behind, by the walk of the memory management unit: for the
pages of the range, for the pages that had a frame before, and for the others.
-/

namespace Aimv6.Mm

open Support

/-- The word of the level 2 table that the walk of `va` comes to. -/
def State.ptel2 (s : State) (pt va : Nat) : Nat :=
  s.word (P2V (ptel1Base (s.word (pt + 4 * (va / PAGE_L1SIZE))) * PTE_L2SIZE) +
    4 * (va % PAGE_L1SIZE / PAGE_L2SIZE))

/-- The page of `va` meets `[start, finish)`. -/
def Meets (start finish va : Nat) : Prop :=
  start < va / PAGE_L2SIZE * PAGE_L2SIZE + PAGE_L2SIZE ∧ va / PAGE_L2SIZE * PAGE_L2SIZE < finish

/-- `mmap(pt, start, finish, ...)` took `s`, where the bytes `U` were in use, to `s'`. -/
structure Mmapped (s : State) (U : Set Nat) (pt start finish : Nat) (s' : State) : Prop where
  mapped : ∀ va < KERNEL_BASE, Meets start finish va → ∃ a, s'.walk pt va = some a
  old : ∀ va < KERNEL_BASE, ∀ a, s.walk pt va = some a → s'.walk pt va = some a ∧
    s'.ptel2 pt va = s.ptel2 pt va ∧ s'.mem (P2V a) = s.mem (P2V a)
  new : ∀ va < KERNEL_BASE, ∀ a, s.walk pt va = none → s'.walk pt va = some a →
    P2V a ∉ U ∧ s'.mem (P2V a) = 0
  own : ∀ va < KERNEL_BASE, ∀ va' < KERNEL_BASE, ∀ a, s'.walk pt va = some a →
    s'.walk pt va' = some a → va = va'
  outside : ∀ va < KERNEL_BASE, ¬ Meets start finish va → s'.walk pt va = s.walk pt va

variable {A : Allocators} {Holds : State → Set Nat → Prop} {s s' : State} {U U' : Set Nat}
  {M M' : Space} {pt va a start finish : Nat} {R : Nat → Prop}

/-! ## Physical addresses of a space -/

theorem Space.phys_eq_some : M.phys va = some a ↔
    ∃ f, M.frame (va / 4096) = some f ∧ f + va % 4096 = a := Option.map_eq_some_iff

theorem Space.phys_eq_none : M.phys va = none ↔ M.frame (va / 4096) = none := Option.map_eq_none_iff

theorem Maps.phys_P2V {f : Nat} (h : Maps s pt M) (hf : M.frame (va / 4096) = some f) :
    P2V (f + va % 4096) = P2V f + va % 4096 := by
  have hok := h.frame_ok _ f hf
  have hhi := hok.hi
  rw [hok.P2V_eq (by decide), P2V_of_lt (by omega)]
  omega

theorem Maps.phys_inj {va' : Nat} (h : Maps s pt M) (h₁ : M.phys va = some a)
    (h₂ : M.phys va' = some a) : va = va' := by
  obtain ⟨f, hf, hfa⟩ := Space.phys_eq_some.1 h₁
  obtain ⟨g, hg, hga⟩ := Space.phys_eq_some.1 h₂
  have hfal := (h.frame_ok _ f hf).aligned
  have hgal := (h.frame_ok _ g hg).aligned
  have hfg : f = g := by omega
  rw [← hfg] at hg hga
  have hpage := h.frame_once _ _ f hf hg
  omega

theorem Maps.ptel2_eq {f : Nat} (h : Maps s pt M) (hva : va < 2147483648)
    (hf : M.frame (va / 4096) = some f) : s.ptel2 pt va = f + 1058 := by
  have hi : va / 1048576 < 2048 := by omega
  have hj : va % 1048576 / 4096 < 256 := by omega
  have hv : 256 * (va / 1048576) + va % 1048576 / 4096 = va / 4096 := by omega
  unfold State.ptel2 PAGE_L1SIZE PAGE_L2SIZE
  rw [h.slot _ hi]
  cases ht : M.table (va / 1048576) with
  | none =>
      have hbare := h.bare _ hi ht _ hj
      rw [hv, hf] at hbare
      simp at hbare
  | some t =>
      have hword := h.page _ hi t ht _ hj
      rw [hv, hf] at hword
      have hbase := (ptel1_fields (h.table_ok _ t ht).aligned).2
      rw [show tableEntry (some t) = t + 481 from rfl, hbase, hword]
      rfl

/-! ## From the representation to the walk -/

theorem Grown.mmapped (h : Maps s pt M) (hbytes : M.bytes pt ⊆ U)
    (hg : Grown Holds pt (InRange start finish) s U M s' U' M')
    (hall : ∀ v, InRange start finish v → M'.frame v ≠ none) (hstart : start % 4096 = 0) :
    Mmapped s U pt start finish s' := by
  have hmeets : ∀ va, Meets start finish va ↔ InRange start finish (va / 4096) := by
    intro va
    unfold Meets InRange PAGE_L2SIZE
    omega
  have hold : ∀ va, ∀ a, M.phys va = some a → M'.phys va = some a := by
    intro va a ha
    obtain ⟨f, hf, hfa⟩ := Space.phys_eq_some.1 ha
    exact Space.phys_eq_some.2 ⟨f, hg.frame_old _ f hf, hfa⟩
  refine ⟨fun va hva hin => ?_, fun va hva a ha => ?_, fun va hva a hno ha => ?_,
    fun va hva va' hva' a h₁ h₂ => ?_, fun va hva hout => ?_⟩
  · obtain ⟨f, hf⟩ := Option.ne_none_iff_exists'.1 (hall _ ((hmeets va).1 hin))
    refine ⟨f + va % 4096, ?_⟩
    rw [hg.maps.walk_eq hva]
    exact Space.phys_eq_some.2 ⟨f, hf, rfl⟩
  · rw [h.walk_eq hva] at ha
    obtain ⟨f, hf, hfa⟩ := Space.phys_eq_some.1 ha
    refine ⟨?_, ?_, ?_⟩
    · rw [hg.maps.walk_eq hva]
      exact hold va a ha
    · rw [hg.maps.ptel2_eq hva (hg.frame_old _ f hf), h.ptel2_eq hva hf]
    · have hlt : va % 4096 < 4096 := Nat.mod_lt _ (by decide)
      rw [← hfa, h.phys_P2V hf]
      apply hg.kept
      · exact hbytes (Space.mem_bytes_frame hf (by omega) (by omega))
      · exact h.frame_not_table hf (by omega) (by omega)
  · rw [h.walk_eq hva, Space.phys_eq_none] at hno
    rw [hg.maps.walk_eq hva] at ha
    obtain ⟨f, hf, hfa⟩ := Space.phys_eq_some.1 ha
    have hlt : va % 4096 < 4096 := Nat.mod_lt _ (by decide)
    cases hg.frame_new _ f hf with
    | inl hfirst =>
        rw [hno] at hfirst
        simp at hfirst
    | inr hnew =>
        rw [← hfa, hg.maps.phys_P2V hf]
        exact hnew.2 _ (by omega) (by omega)
  · rw [hg.maps.walk_eq hva] at h₁
    rw [hg.maps.walk_eq hva'] at h₂
    exact hg.maps.phys_inj h₁ h₂
  · rw [hg.maps.walk_eq hva, h.walk_eq hva]
    cases hf : M'.frame (va / 4096) with
    | none =>
        rw [Space.phys_eq_none.2 hf]
        symm
        rw [Space.phys_eq_none]
        by_contra hsome
        obtain ⟨f, hf'⟩ := Option.ne_none_iff_exists'.1 hsome
        rw [hg.frame_old _ f hf'] at hf
        simp at hf
    | some f =>
        cases hg.frame_new _ f hf with
        | inl hfirst =>
            rw [Space.phys_eq_some.2 ⟨f, hf, rfl⟩, Space.phys_eq_some.2 ⟨f, hfirst, rfl⟩]
        | inr hnew => exact absurd ((hmeets va).2 hnew.1) hout

def Exhausted (A : Allocators) (e : Halt) : Prop :=
  ∃ u, A.slbAllocAlign u PTE_L2SIZE PTE_L2ALIGN = .error e ∨ A.pagesAlloc u PAGE_L2SIZE = .error e

/-- `mmap` with the patterns of `_exec`. The table that it leaves is one that it may be called for
again. -/
theorem mmap_post (hA : Fresh A Holds) (h : Maps s pt M) (hU : Holds s U) (hbytes : M.bytes pt ⊆ U)
    (hstart : start % 4096 = 0) (hlt : start < finish) (hle : finish ≤ KERNEL_BASE)
    (hrun : mmap A s pt start finish pattern1 pattern2 = .ok s') :
    Mmapped s U pt start finish s' ∧
    (∀ b ∈ U, b ∉ M.tables pt → s'.mem b = s.mem b) ∧
    ∃ U' M', Maps s' pt M' ∧ Holds s' U' ∧ U ∪ M'.bytes pt ⊆ U' := by
  obtain ⟨U', M', hg, hall⟩ := hA.mmap_spec h hU hbytes (by omega) hle hrun
  exact ⟨hg.mmapped h hbytes hall hstart, hg.kept, U', M', hg.maps, hg.holds,
    Set.union_subset hg.used hg.bytes⟩

theorem onePage_held : HoldsBelow State.onePage {b | b < 2155880448} ∧
    Space.onePage.bytes 0x80104000 ⊆ {b | b < 2155880448} := by
  have hbase : P2V 0x800000 = 0x80800000 := by decide
  have hframe : P2V 0x801000 = 0x80801000 := by decide
  refine ⟨⟨by decide, by decide, fun b hb => hb⟩, fun b hb => ?_⟩
  show b < 2155880448
  rcases hb with ((⟨-, h₂⟩ | ⟨i, t, ht, -, h₂⟩) | ⟨v, f, hf, -, h₂⟩) | ⟨-, h₂⟩
  · omega
  · rw [(Space.onePage_table ht).2, hbase] at h₂
    omega
  · rw [(Space.onePage_frame hf).2, hframe] at h₂
    omega
  · unfold PTE_L1SIZE at h₂
    omega

theorem mmap_post_sample : ∃ s',
    mmap bumpAllocators State.onePage 0x80104000 0x1000 0x2001 pattern1 pattern2 = .ok s' ∧
    Mmapped State.onePage {b | b < 2155880448} 0x80104000 0x1000 0x2001 s' := by
  have hsome : (mmap bumpAllocators State.onePage 0x80104000 0x1000 0x2001 pattern1
      pattern2).toOption.isSome = true := by decide +kernel
  obtain ⟨s', hs'⟩ := Option.isSome_iff_exists.1 hsome
  have hrun := Res.toOption_eq_some.1 hs'
  exact ⟨s', hrun, (mmap_post bumpAllocators_fresh maps_onePage onePage_held.1 onePage_held.2
    (by decide) (by decide) (by decide) hrun).1⟩

end Aimv6.Mm
