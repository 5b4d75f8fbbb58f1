import Aimv6.Mm.PagesRun

/-! # Free order does not matter

The free list is the list of the maximal extents of the free set, so it depends
on what was freed and not on the order, and freeing what was just allocated
restores it.
-/

namespace Aimv6.Mm

open Support

/-- Call `pages_free` on the regions, one after another. -/
def freeAll : State → List Extent → Res State
  | s, [] => .ok s
  | s, r :: rs => do
      let (_, s) ← pagesFree s r.start r.fin
      freeAll s rs

/-- Two states have the identical free list: the same areas, sizes and links. -/
structure SameFreeList (s s' : State) : Prop where
  head : s'.fareaHead = s.fareaHead
  /-- the areas that `farea_head` leads to -/
  nodes : ∃ areas, Chain s.areaNext s.fareaHead areas ∧ Chain s'.areaNext s'.fareaHead areas ∧
    ∀ a ∈ areas, s'.areaNext a = s.areaNext a ∧ s'.areaSize a = s.areaSize a

theorem Represents.same {s s' : State} {l : List Extent} (h : Represents s l)
    (h' : Represents s' l) : SameFreeList s s' := by
  refine ⟨h'.toFreeList.head_eq.trans h.toFreeList.head_eq.symm, l.map node, h.links, h'.links,
    fun a ha => ⟨Chain.next_eq h.links h'.links a ha, ?_⟩⟩
  obtain ⟨e, he, rfl⟩ := List.mem_map.1 ha
  exact (h'.sizes e he).trans (h.sizes e he).symm

/-- Freeing regions that are whole pages, apart from each other and from the free ones. -/
theorem freeAll_spec {s : State} {l rs : List Extent} (h : Represents s l)
    (hrs : ∀ r ∈ rs, Returnable r l) (hapart : rs.Pairwise fun e f => Disjoint e.bytes f.bytes) :
    ∃ s' l', freeAll s rs = .ok s' ∧ Represents s' l' ∧ covered l' = covered l ∪ covered rs := by
  induction rs generalizing s l with
  | nil => exact ⟨s, l, rfl, h, by rw [covered_nil, Set.union_empty]⟩
  | cons r rs ih =>
      obtain ⟨hr, hapart⟩ := List.pairwise_cons.1 hapart
      obtain ⟨s₁, l₁, hcall, hrep, hcov, -⟩ := pagesFree_spec h (hrs r (by simp))
      have hrest : ∀ q ∈ rs, Returnable q l₁ := by
        intro q hq
        have hret := hrs q (by simp [hq])
        refine ⟨hret.paged, hret.pos, ?_⟩
        rw [hcov, Set.disjoint_union_right]
        exact ⟨hret.taken, (hr q hq).symm⟩
      obtain ⟨s₂, l₂, hall, hrep₂, hcov₂⟩ := ih hrep hrest hapart
      refine ⟨s₂, l₂, ?_, hrep₂, ?_⟩
      · rw [freeAll, hcall, Res.ok_bind]
        exact hall
      · rw [hcov₂, hcov, covered_cons, Set.union_assoc]

namespace PagesSystem

/-- In every state that a run of the allocator reaches, any set of outstanding regions can be freed
in any order, with the identical free list; and freeing what an allocation returned restores the
free list. -/
theorem free_order {s : State} {S₀ S : PagesSystem} {es : List PagesEvent}
    (hinit : init s = some S₀) (hrun : run step S₀ es = some S) :
    (∀ rs rs' : List Extent, rs.Nodup → (∀ r ∈ rs, r ∈ S.out) → rs.Perm rs' →
      ∃ t t', freeAll S.st rs = .ok t ∧ freeAll S.st rs' = .ok t' ∧ SameFreeList t t') ∧
    ∀ size p t, 0 < size → size % 4096 = 0 → pagesAlloc S.st size = .ok (p, t) →
      ∃ t', pagesFree t p (p + size) = .ok (0, t') ∧ SameFreeList S.st t' := by
  obtain ⟨L, l, hI⟩ := run_inv (init_inv hinit) hrun
  have hret : ∀ r ∈ S.out, Returnable r l := by
    intro r hr
    obtain ⟨hp, hpos⟩ := hI.regions r hr
    refine ⟨hp, hpos, ?_⟩
    rw [hI.free_eq]
    exact (L.given_apart (hI.out_eq ▸ hr)).1.symm
  have hsymm : Std.Symm fun e f : Extent => Disjoint e.bytes f.bytes :=
    ⟨fun _ _ hd => Disjoint.symm hd⟩
  have hpw := L.apart
  rw [← hI.out_eq] at hpw
  constructor
  · intro rs rs' hnodup hout hperm
    have hapart : rs.Pairwise fun e f => Disjoint e.bytes f.bytes :=
      hnodup.pairwise_of_forall_ne fun e he f hf hne => hpw.forall (hout e he) (hout f hf) hne
    obtain ⟨t, m, hcall, hrep, hcov⟩ := freeAll_spec hI.represents (fun r hr => hret r (hout r hr))
      hapart
    obtain ⟨t', m', hcall', hrep', hcov'⟩ := freeAll_spec hI.represents
      (fun r hr => hret r (hout r (hperm.mem_iff.2 hr)))
      ((hperm.pairwise_iff fun hd => Disjoint.symm hd).1 hapart)
    have hsame : covered m = covered m' := by
      rw [hcov, hcov', covered_perm hperm]
    obtain rfl := hrep.separated.ext hrep'.separated hsame
    exact ⟨t, t', hcall, hcall', hrep.same hrep'⟩
  · intro size p t hpos hsize halloc
    rcases pagesAlloc_spec hI.represents hpos hsize with hfit | hspin
    · obtain ⟨l₁, e, l₂, t₁, rfl, -, hle, hcall, hrep, -⟩ := hfit
      obtain ⟨rfl, rfl⟩ := Prod.mk.inj (Except.ok.inj (hcall.symm.trans halloc))
      have hep := hI.represents.paged e (by simp)
      have hhi := hep.hi
      unfold Extent.fin at hhi
      have hcarve := covered_carve hI.represents.separated hle
      have hx : Returnable ⟨e.start, size⟩ (l₁ ++ (e.rest size ++ l₂)) := by
        refine ⟨⟨hep.start_aligned, hsize, hep.lo, by simp only [Extent.fin]; omega⟩, hpos, ?_⟩
        rw [hcarve]
        exact Set.disjoint_sdiff_right
      obtain ⟨t', l', hfree, hrep', hcov, -⟩ := pagesFree_spec hrep hx
      refine ⟨t', hfree, ?_⟩
      have hsub : (⟨e.start, size⟩ : Extent).bytes ⊆ covered (l₁ ++ e :: l₂) := by
        intro b hb
        refine ⟨e, by simp, ?_⟩
        rw [Extent.mem_bytes, Extent.fin] at hb ⊢
        simp only at hb
        omega
      have hback : covered l' = covered (l₁ ++ e :: l₂) := by
        rw [hcov, hcarve]
        exact Set.sdiff_union_of_subset hsub
      obtain rfl := hrep'.separated.ext hI.represents.separated hback
      exact hI.represents.same hrep'
    · rw [hspin.2] at halloc
      simp at halloc

def sampleTakes : List PagesEvent := [.alloc 4096, .alloc 8192, .alloc 4096]

theorem sampleTakes_out : ((init blank).bind fun S => run step S sampleTakes).map
    (fun S => S.out) = some [⟨8400896, 4096⟩, ⟨8392704, 8192⟩, ⟨8388608, 4096⟩] := by
  decide +kernel

theorem free_order_sample : ∃ (S : PagesSystem) (t t' : State),
    freeAll S.st [⟨8400896, 4096⟩, ⟨8388608, 4096⟩] = .ok t ∧
      freeAll S.st [⟨8388608, 4096⟩, ⟨8400896, 4096⟩] = .ok t' ∧ SameFreeList t t' := by
  obtain ⟨S, hS, hout⟩ := Option.map_eq_some_iff.1 sampleTakes_out
  obtain ⟨S₀, hinit, hrun⟩ := Option.bind_eq_some_iff.1 hS
  obtain ⟨t, t', hboth⟩ := (free_order hinit hrun).1 [⟨8400896, 4096⟩, ⟨8388608, 4096⟩]
    [⟨8388608, 4096⟩, ⟨8400896, 4096⟩] (by decide) (by rw [hout]; decide) (List.Perm.swap _ _ _)
  exact ⟨S, t, t', hboth⟩

end PagesSystem

end Aimv6.Mm
