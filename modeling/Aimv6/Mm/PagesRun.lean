import Aimv6.Mm.PagesSpec
import Aimv6.Support.Ledger
import Aimv6.Support.Runs

/-! # Runs of the page allocator

Clients take regions with `pages_alloc`, return them with `pages_free`, and
store into the regions they hold. Along every such run the free list stores the
free side of a ledger of the managed memory.
-/

namespace Aimv6.Mm

open Support

inductive PagesEvent where
  /-- `pages_alloc(size)`, for a positive multiple of the page size -/
  | alloc (size : Nat)
  /-- `pages_free(r.start, r.fin)`, for a region held by a client -/
  | free (r : Extent)
  /-- a store by a client into a region it holds, at its kernel-virtual address -/
  | write (a : Nat) (v : UInt8)

/-- The allocator and the regions returned by it and not yet freed. -/
structure PagesSystem where
  st : State
  out : List Extent

namespace PagesSystem

instance (a : Nat) (out : List Extent) : Decidable (∃ r ∈ out, KERNEL_BASE ≤ a ∧
    r.start ≤ a - KERNEL_BASE ∧ a - KERNEL_BASE < r.fin) :=
  inferInstanceAs (Decidable (∃ r ∈ out, _))

def step (S : PagesSystem) : PagesEvent → Option PagesSystem
  | .alloc size =>
      if 0 < size ∧ size % 4096 = 0 then
        (pagesAlloc S.st size).toOption.map fun r => ⟨r.2, ⟨r.1, size⟩ :: S.out⟩
      else none
  | .free r =>
      if r ∈ S.out then
        (pagesFree S.st r.start r.fin).toOption.map fun c => ⟨c.2, S.out.erase r⟩
      else none
  | .write a v =>
      if ∃ r ∈ S.out, KERNEL_BASE ≤ a ∧ r.start ≤ a - KERNEL_BASE ∧ a - KERNEL_BASE < r.fin then
        some { S with st := { S.st with mem := store8 S.st.mem a v } }
      else none

/-- `init_pspace()` on a memory with any contents. -/
def init (s : State) : Option PagesSystem :=
  (initPspace s).toOption.map fun r => ⟨r.2, []⟩

/-- The free list `l` in memory, together with the regions held by clients. -/
structure Safe (S : PagesSystem) (l : List Extent) : Prop where
  /-- the links from `farea_head` visit the areas of `l` and end in `NULL` -/
  links : Chain S.st.areaNext S.st.fareaHead (l.map fun e => P2V e.start)
  sizes : ∀ e ∈ l, S.st.areaSize (P2V e.start) = e.size
  increasing : l.Pairwise (fun e f => e.start < f.start)
  whole_pages : ∀ e ∈ l, 0 < e.size ∧ e.size % 4096 = 0
  apart : l.Pairwise (fun e f => e.fin < f.start)
  /-- no byte is both free and allocated, or in two regions -/
  owned_once : (l ++ S.out).Pairwise (fun e f => Disjoint e.bytes f.bytes)
  /-- no byte is lost -/
  conserved : covered (l ++ S.out) = Set.Ico 0x800000 0x1f000000

/-- The free list stores the free side of a ledger of the managed memory. -/
structure Inv (S : PagesSystem) (L : Ledger space.bytes) (l : List Extent) : Prop where
  represents : Represents S.st l
  free_eq : covered l = L.free
  out_eq : S.out = L.out
  regions : ∀ r ∈ S.out, Paged r ∧ 0 < r.size

theorem Inv.safe {S : PagesSystem} {L : Ledger space.bytes} {l : List Extent} (h : S.Inv L l) :
    S.Safe l := by
  have hsep := h.represents.separated
  refine ⟨h.represents.links, h.represents.sizes, ?_, ?_, hsep.pairwise, ?_, ?_⟩
  · exact hsep.pairwise.imp fun hlt => Nat.lt_of_le_of_lt (Nat.le_add_right _ _) hlt
  · exact fun e he => ⟨hsep.pos e he, (h.represents.paged e he).size_aligned⟩
  · rw [List.pairwise_append, h.out_eq]
    refine ⟨hsep.pairwise.imp fun hlt => ?_, L.apart, fun e he f hf => ?_⟩
    · exact Set.disjoint_left.2 fun b hb hb' =>
        absurd (Nat.lt_trans hb.2 hlt) (Nat.not_lt.2 hb'.1)
    · have hdis := disjoint_covered.1 L.taken f hf
      rw [← h.free_eq] at hdis
      exact hdis.mono_left (bytes_subset_covered he)
  · rw [covered_append, h.free_eq, h.out_eq, L.total]
    rfl

theorem init_inv {s : State} {S : PagesSystem} (h : init s = some S) :
    ∃ L l, S.Inv L l := by
  have hempty : Represents { s with fareaHead := none } [] :=
    ⟨⟨by simp, rfl, by simp⟩, Separated.nil⟩
  have hspace : Returnable space [] := ⟨⟨by decide, by decide, by decide, by decide⟩, by decide,
    by simp⟩
  obtain ⟨s', l', hfree, hrep, hcov, -⟩ := pagesFree_spec hempty hspace
  unfold init initPspace at h
  have hcall : pagesFree { s with fareaHead := none } 0x800000 0x1f000000 = .ok (0, s') := hfree
  rw [hcall] at h
  obtain rfl := Option.some.inj h
  refine ⟨Ledger.start space.bytes, l', hrep, ?_, rfl, by simp⟩
  rw [hcov, covered_nil, Set.empty_union]
  rfl

theorem alloc_inv {S S' : PagesSystem} {L : Ledger space.bytes} {l : List Extent} {n : Nat}
    (hI : S.Inv L l) (h : S.step (.alloc n) = some S') : ∃ L' l', S'.Inv L' l' := by
  unfold step at h
  dsimp only at h
  split at h
  case isFalse => simp at h
  case isTrue hn =>
    rcases pagesAlloc_spec hI.represents hn.1 hn.2 with hfit | hspin
    · obtain ⟨l₁, e, l₂, s', rfl, -, hle, hcall, hrep, -⟩ := hfit
      rw [hcall] at h
      obtain rfl := Option.some.inj h
      have hep := hI.represents.paged e (by simp)
      have hbytes : (⟨e.start, n⟩ : Extent).bytes ⊆ e.bytes := by
        intro b hb
        rw [Extent.mem_bytes, Extent.fin] at hb ⊢
        simp only at hb
        omega
      have hsub : (⟨e.start, n⟩ : Extent).bytes ⊆ L.free := by
        rw [← hI.free_eq]
        exact hbytes.trans (bytes_subset_covered (by simp))
      refine ⟨L.take _ hsub, _, hrep, ?_, ?_, ?_⟩
      · rw [covered_carve hI.represents.separated hle, hI.free_eq]
        rfl
      · exact congrArg (List.cons _) hI.out_eq
      · intro r hr
        rcases List.mem_cons.1 hr with rfl | hr
        · have hhi := hep.hi
          unfold Extent.fin at hhi
          exact ⟨⟨hep.start_aligned, hn.2, hep.lo, by simp only [Extent.fin]; omega⟩, hn.1⟩
        · exact hI.regions r hr
    · rw [hspin.2] at h
      simp [Res.toOption] at h

theorem free_inv {S S' : PagesSystem} {L : Ledger space.bytes} {l : List Extent} {r : Extent}
    (hI : S.Inv L l) (h : S.step (.free r) = some S') : ∃ L' l', S'.Inv L' l' := by
  unfold step at h
  dsimp only at h
  split at h
  case isFalse => simp at h
  case isTrue hr =>
    have hrL : r ∈ L.out := hI.out_eq ▸ hr
    obtain ⟨hp, hpos⟩ := hI.regions r hr
    have hret : Returnable r l := ⟨hp, hpos, by
      rw [hI.free_eq]
      exact (L.given_apart hrL).1.symm⟩
    obtain ⟨s', l', hcall, hrep, hcov, -⟩ := pagesFree_spec hI.represents hret
    rw [hcall] at h
    obtain rfl := Option.some.inj h
    refine ⟨L.give r hrL, l', hrep, ?_, ?_, fun f hf => ?_⟩
    · rw [hcov, hI.free_eq]
      rfl
    · simp only [Ledger.give, hI.out_eq]
    · exact hI.regions f (List.mem_of_mem_erase hf)

theorem write_inv {S S' : PagesSystem} {L : Ledger space.bytes} {l : List Extent} {a : Nat}
    {v : UInt8} (hI : S.Inv L l) (h : S.step (.write a v) = some S') : S'.Inv L l := by
  unfold step at h
  dsimp only at h
  split at h
  case isFalse => simp at h
  case isTrue hex =>
    obtain ⟨r, hr, hbase, hlo, hhi⟩ := hex
    obtain rfl := Option.some.inj h
    refine ⟨hI.represents.congr rfl fun b hb => store8_apply_of_ne ?_, hI.free_eq, hI.out_eq,
      hI.regions⟩
    have hdis := (L.given_apart (show r ∈ L.out from hI.out_eq ▸ hr)).1
    rw [← hI.free_eq] at hdis
    intro hba
    subst hba
    exact Set.disjoint_left.1 hdis hb.2 ⟨hlo, hhi⟩

theorem step_inv {S S' : PagesSystem} {e : PagesEvent} (hI : ∃ L l, S.Inv L l)
    (h : S.step e = some S') : ∃ L l, S'.Inv L l := by
  obtain ⟨L, l, hI⟩ := hI
  cases e with
  | alloc n => exact alloc_inv hI h
  | free r => exact free_inv hI h
  | write a v => exact ⟨L, l, write_inv hI h⟩

theorem run_inv {S S' : PagesSystem} {es : List PagesEvent} (hI : ∃ L l, S.Inv L l)
    (h : run step S es = some S') : ∃ L l, S'.Inv L l :=
  run_invariant (fun _ _ _ hI h => step_inv hI h) hI h

/-- In every state that a run of the allocator reaches, the free list and the outstanding regions
partition the managed memory, and every outstanding region can be freed. -/
theorem pages_run_safe {s : State} {S₀ S : PagesSystem} {es : List PagesEvent}
    (hinit : init s = some S₀) (hrun : run step S₀ es = some S) :
    (∃ l, S.Safe l) ∧ ∀ r ∈ S.out, ∃ st, pagesFree S.st r.start r.fin = .ok (0, st) := by
  obtain ⟨L, l, hI⟩ := run_inv (init_inv hinit) hrun
  refine ⟨⟨l, hI.safe⟩, fun r hr => ?_⟩
  obtain ⟨hp, hpos⟩ := hI.regions r hr
  have hret : Returnable r l := ⟨hp, hpos, by
    rw [hI.free_eq]
    exact (L.given_apart (show r ∈ L.out from hI.out_eq ▸ hr)).1.symm⟩
  obtain ⟨st, -, hcall, -⟩ := pagesFree_spec hI.represents hret
  exact ⟨st, hcall⟩

/-- The allocator on memory that holds zeros, and a run that splits, frees and merges. -/
def blank : State := ⟨fun _ => 0, none, none⟩

def sampleRun : List PagesEvent :=
  [.alloc 4096, .alloc 8192, .free ⟨8388608, 4096⟩, .free ⟨8392704, 8192⟩]

theorem sampleRun_returns : ((init blank).bind fun S => run step S sampleRun).isSome = true := by
  decide +kernel

theorem pages_run_safe_sample : ∃ S : PagesSystem, (∃ l, S.Safe l) ∧
    ∀ r ∈ S.out, ∃ st, pagesFree S.st r.start r.fin = .ok (0, st) := by
  obtain ⟨S, hS⟩ := Option.isSome_iff_exists.1 sampleRun_returns
  obtain ⟨S₀, hinit, hrun⟩ := Option.bind_eq_some_iff.1 hS
  exact ⟨S, pages_run_safe hinit hrun⟩

end PagesSystem

end Aimv6.Mm
