import Aimv6.Support.Extents

/-! # A ledger of handed-out extents

A space of addresses is divided between a free set and extents handed out to
clients. Taking an extent out of the free set and giving an extent back keep the
division exact: nothing is lost and nothing is owned twice.
-/

namespace Support

structure Ledger (space : Set Nat) where
  free : Set Nat
  out : List Extent
  apart : out.Pairwise (fun e f => Disjoint e.bytes f.bytes)
  taken : Disjoint free (covered out)
  total : free ∪ covered out = space

theorem covered_perm {l l' : List Extent} (h : l.Perm l') : covered l = covered l' := by
  ext b
  simp only [mem_covered]
  constructor
  · rintro ⟨e, he, hb⟩
    exact ⟨e, h.mem_iff.1 he, hb⟩
  · rintro ⟨e, he, hb⟩
    exact ⟨e, h.mem_iff.2 he, hb⟩

theorem disjoint_covered {s : Set Nat} {l : List Extent} :
    Disjoint s (covered l) ↔ ∀ e ∈ l, Disjoint s e.bytes := by
  simp only [Set.disjoint_left, mem_covered]
  constructor
  · intro h e he b hb hbe
    exact h hb ⟨e, he, hbe⟩
  · intro h b hb hex
    obtain ⟨e, he, hbe⟩ := hex
    exact h e he hb hbe

namespace Ledger

variable {space : Set Nat}

/-- Nothing has been handed out. -/
def start (space : Set Nat) : Ledger space where
  free := space
  out := []
  apart := List.Pairwise.nil
  taken := by simp
  total := by simp

def take (L : Ledger space) (e : Extent) (h : e.bytes ⊆ L.free) : Ledger space where
  free := L.free \ e.bytes
  out := e :: L.out
  apart := by
    refine List.Pairwise.cons (fun f hf => ?_) L.apart
    exact (disjoint_covered.1 L.taken f hf).mono_left h
  taken := by
    rw [covered_cons, Set.disjoint_union_right]
    exact ⟨Set.disjoint_sdiff_left, L.taken.mono_left Set.sdiff_subset⟩
  total := by
    rw [covered_cons, ← Set.union_assoc, Set.sdiff_union_self, Set.union_eq_self_of_subset_right h]
    exact L.total

/-- A handed-out extent meets neither the free set nor any other handed-out extent. -/
theorem given_apart (L : Ledger space) {e : Extent} (h : e ∈ L.out) :
    Disjoint L.free e.bytes ∧ ∀ f ∈ L.out.erase e, Disjoint e.bytes f.bytes := by
  refine ⟨disjoint_covered.1 L.taken e h, ?_⟩
  have hp := List.perm_cons_erase h
  have hpw := (hp.pairwise_iff fun hd => Disjoint.symm hd).1 L.apart
  exact (List.pairwise_cons.1 hpw).1

def give (L : Ledger space) (e : Extent) (h : e ∈ L.out) : Ledger space where
  free := L.free ∪ e.bytes
  out := L.out.erase e
  apart := L.apart.sublist List.erase_sublist
  taken := by
    rw [Set.disjoint_union_left]
    constructor
    · refine disjoint_covered.2 fun f hf => ?_
      exact disjoint_covered.1 L.taken f (List.mem_of_mem_erase hf)
    · exact disjoint_covered.2 (L.given_apart h).2
  total := by
    have hc := covered_perm (List.perm_cons_erase h)
    rw [covered_cons] at hc
    rw [Set.union_assoc, ← hc]
    exact L.total

end Ledger

end Support
