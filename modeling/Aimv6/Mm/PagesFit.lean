import Aimv6.Mm.PagesRun
import Mathlib.Order.Bounds.Defs

/-! # First fit

`pages_alloc` looks for one area that is large enough. In every state that a run
reaches the areas are the maximal extents of the free bytes, so it finds one
exactly when there are that many consecutive free bytes, and the lowest ones.
-/

namespace Aimv6.Mm

open Support

namespace PagesSystem

/-- The managed bytes that are in no outstanding region. -/
def freeBytes (S : PagesSystem) : Set Nat := Set.Ico 0x800000 0x1f000000 \ covered S.out

/-- The addresses at which `n` consecutive free bytes start. -/
def fits (S : PagesSystem) (n : Nat) : Set Nat := {a | Set.Ico a (a + n) ⊆ S.freeBytes}

theorem Inv.freeBytes_eq {S : PagesSystem} {L : Ledger space.bytes} {l : List Extent}
    (h : S.Inv L l) : S.freeBytes = covered l := by
  have hfree : (L.free ∪ covered L.out) \ covered L.out = L.free := by
    rw [Set.union_sdiff_right]
    exact L.taken.sdiff_eq_left
  rw [L.total] at hfree
  unfold freeBytes
  rw [h.free_eq, h.out_eq]
  exact hfree

/-- What a call of `pages_alloc(n)` in `S` does to the free bytes and the areas. -/
structure FirstFit (S : PagesSystem) (n p : Nat) (st : State) : Prop where
  lowest : IsLeast (S.fits n) p
  /-- the areas before and after; `e.rest n` is what is left of the one that was chosen -/
  areas : ∃ l₁ e l₂, e.start = p ∧ n ≤ e.size ∧
    Represents S.st (l₁ ++ e :: l₂) ∧ covered (l₁ ++ e :: l₂) = S.freeBytes ∧
    Represents st (l₁ ++ (e.rest n ++ l₂)) ∧
    covered (l₁ ++ (e.rest n ++ l₂)) = S.freeBytes \ Set.Ico p (p + n)

theorem Inv.firstFit {S : PagesSystem} {L : Ledger space.bytes} {l : List Extent} (h : S.Inv L l)
    {n : Nat} (hpos : 0 < n) (hn : n % 4096 = 0) :
    (∃ p st, pagesAlloc S.st n = .ok (p, st) ∧ S.FirstFit n p st) ∨
    (S.fits n = ∅ ∧ pagesAlloc S.st n = .error .spin) := by
  have hsep := h.represents.separated
  have hfree := h.freeBytes_eq
  rcases pagesAlloc_spec h.represents hpos hn with
    ⟨l₁, e, l₂, st, rfl, hsmall, hle, hcall, hrep, -⟩ | ⟨hsmall, hspin⟩
  · refine Or.inl ⟨e.start, st, hcall, ⟨?_, ?_⟩, l₁, e, l₂, rfl, hle, h.represents, hfree.symm,
      hrep, ?_⟩
    · intro b hb
      rw [hfree]
      refine ⟨e, by simp, hb.1, ?_⟩
      have := hb.2
      unfold Extent.fin
      omega
    · intro a ha
      have hsub : Set.Ico a (a + n) ⊆ S.freeBytes := ha
      rw [hfree] at hsub
      obtain ⟨f, hf, hstart, hfin⟩ := hsep.interval hpos hsub
      unfold Extent.fin at hfin
      have hp := List.pairwise_append.1 hsep.pairwise
      cases List.mem_append.1 hf with
      | inl hearly =>
          have := hsmall f hearly
          omega
      | inr hlate =>
          cases List.mem_cons.1 hlate with
          | inl hfe => rw [← hfe]; exact hstart
          | inr hrest =>
              have := List.rel_of_pairwise_cons hp.2.1 hrest
              unfold Extent.fin at this
              omega
    · rw [covered_carve hsep hle, hfree]
  · refine Or.inr ⟨Set.eq_empty_iff_forall_notMem.2 fun a ha => ?_, hspin⟩
    have hsub : Set.Ico a (a + n) ⊆ S.freeBytes := ha
    rw [hfree] at hsub
    obtain ⟨f, hf, hstart, hfin⟩ := hsep.interval hpos hsub
    have := hsmall f hf
    unfold Extent.fin at hfin
    omega

/-- In every state that a run of the allocator reaches, `pages_alloc(n)` comes back exactly when
there are `n` consecutive free bytes, and takes the lowest ones. -/
theorem pages_alloc_first_fit {s : State} {S₀ S : PagesSystem} {es : List PagesEvent} {n : Nat}
    (hinit : init s = some S₀) (hrun : run step S₀ es = some S) (hpos : 0 < n) (hn : n % 4096 = 0) :
    ((∃ r, pagesAlloc S.st n = .ok r) ↔ (S.fits n).Nonempty) ∧
    (pagesAlloc S.st n = .error .spin ↔ S.fits n = ∅) ∧
    ∀ p st, pagesAlloc S.st n = .ok (p, st) → S.FirstFit n p st := by
  obtain ⟨L, l, hI⟩ := run_inv (init_inv hinit) hrun
  rcases hI.firstFit hpos hn with ⟨p, st, hcall, hfit⟩ | ⟨hempty, hspin⟩
  · refine ⟨⟨fun _ => ⟨p, hfit.lowest.1⟩, fun _ => ⟨_, hcall⟩⟩, ⟨fun herr => ?_, fun hno => ?_⟩,
      fun q st' hq => ?_⟩
    · exact absurd (hcall.symm.trans herr) (by simp)
    · exact absurd hno (Set.nonempty_iff_ne_empty.1 ⟨p, hfit.lowest.1⟩)
    · obtain ⟨rfl, rfl⟩ := Prod.mk.inj (Except.ok.inj (hcall.symm.trans hq))
      exact hfit
  · refine ⟨⟨fun hok => ?_, fun hne => ?_⟩, ⟨fun _ => hempty, fun _ => hspin⟩, fun q st' hq => ?_⟩
    · obtain ⟨r, hr⟩ := hok
      exact absurd (hspin.symm.trans hr) (by simp)
    · exact absurd hempty (Set.nonempty_iff_ne_empty.1 hne)
    · exact absurd (hspin.symm.trans hq) (by simp)

theorem pages_alloc_first_fit_sample : ∃ (S : PagesSystem) (p : Nat) (st : State),
    pagesAlloc S.st 8192 = .ok (p, st) ∧ S.FirstFit 8192 p st := by
  obtain ⟨S, hS⟩ := Option.isSome_iff_exists.1 sampleRun_returns
  obtain ⟨S₀, hinit, hrun⟩ := Option.bind_eq_some_iff.1 hS
  have hout : ((init blank).bind fun S => run step S sampleRun).map (fun S => S.out) = some [] := by
    decide +kernel
  obtain ⟨hiff, -, hfit⟩ := pages_alloc_first_fit (n := 8192) hinit hrun (by decide) (by decide)
  rw [hS] at hout
  have hempty : S.out = [] := Option.some.inj hout
  obtain ⟨⟨p, st⟩, hcall⟩ := hiff.2 ⟨0x800000, fun b hb => ⟨⟨hb.1, by have := hb.2; omega⟩, by
    rw [hempty, covered_nil]
    exact Set.notMem_empty b⟩⟩
  exact ⟨S, p, st, hcall, hfit p st hcall⟩

end PagesSystem

end Aimv6.Mm
