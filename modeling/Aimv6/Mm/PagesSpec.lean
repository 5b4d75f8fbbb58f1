import Aimv6.Mm.PagesList
import Mathlib.Tactic.Set

/-! # What one page-allocator call does

`pages_alloc` takes the prefix of the first extent that is large enough, or
spins; `pages_free` adds the region to the covered addresses. Both write only
inside memory that is free before or after the call.
-/

namespace Aimv6.Mm

open Support

/-- The kernel-virtual image of a set of physical addresses. -/
def virt (S : Set Nat) : Set Nat := {b | KERNEL_BASE ≤ b ∧ b - KERNEL_BASE ∈ S}

theorem virt_mono {S T : Set Nat} (h : S ⊆ T) : virt S ⊆ virt T := fun _ hb => ⟨hb.1, h hb.2⟩

/-- Only bytes of `S` may differ, and `slb_head` is kept. -/
structure Frame (S : Set Nat) (s s' : State) : Prop where
  slbHead : s'.slbHead = s.slbHead
  mem : AgreeOn Sᶜ s.mem s'.mem

namespace Frame

variable {S T : Set Nat} {s s₁ s₂ : State}

theorem refl (S : Set Nat) (s : State) : Frame S s s := ⟨rfl, AgreeOn.refl _ _⟩

theorem trans (h₁ : Frame S s s₁) (h₂ : Frame S s₁ s₂) : Frame S s s₂ :=
  ⟨h₂.slbHead.trans h₁.slbHead, h₁.mem.trans h₂.mem⟩

theorem mono (h : Frame S s s₁) (hST : S ⊆ T) : Frame T s s₁ :=
  ⟨h.slbHead, h.mem.mono (Set.compl_subset_compl.2 hST)⟩

theorem setWord {a v : Nat} (h : Set.Ico a (a + 4) ⊆ S) : Frame S s (s.setWord a v) := by
  refine ⟨rfl, store32_agreeOn fun b hb => ?_⟩
  by_contra hin
  exact hb (h ⟨by omega, by omega⟩)

theorem setAreaNext {a : Nat} {p : Option Nat} (h : Set.Ico a (a + 8) ⊆ S) :
    Frame S s (s.setAreaNext a p) :=
  setWord fun b hb => h ⟨hb.1, by have := hb.2; omega⟩

theorem setAreaSize {a v : Nat} (h : Set.Ico a (a + 8) ⊆ S) : Frame S s (s.setAreaSize a v) :=
  setWord fun b hb => h ⟨by have := hb.1; omega, by have := hb.2; omega⟩

theorem withHead (p : Option Nat) : Frame S s { s with fareaHead := p } := ⟨rfl, AgreeOn.refl _ _⟩

theorem absorbArea {a b : Nat} (h : Set.Ico a (a + 8) ⊆ S) : Frame S s (s.absorbArea a b) :=
  (setAreaNext h).trans (setAreaSize h)

theorem unlinkArea {last : Option Nat} {next : Nat} (h : ∀ a ∈ last, Set.Ico a (a + 8) ⊆ S) :
    Frame S s (s.unlinkArea last next) := by
  unfold State.unlinkArea
  cases last with
  | none =>
      dsimp only
      split
      · exact withHead _
      · exact refl S s
  | some a =>
      dsimp only
      split
      · exact (setAreaNext (h a rfl)).trans (withHead _)
      · exact setAreaNext (h a rfl)

theorem linkArea {last next : Option Nat} {temp size : Nat}
    (h : ∀ a ∈ last, Set.Ico a (a + 8) ⊆ S) (ht : Set.Ico temp (temp + 8) ⊆ S) :
    Frame S s (s.linkArea last next temp size) := by
  have hfirst : Frame S s ((s.setAreaSize temp size).setAreaNext temp next) :=
    (setAreaSize ht).trans (setAreaNext ht)
  cases last with
  | none => exact hfirst.trans (withHead _)
  | some a => exact hfirst.trans (setAreaNext (h a rfl))

theorem mergeLeft {last : Option Nat} {temp : Nat} (h : ∀ a ∈ last, Set.Ico a (a + 8) ⊆ S) :
    Frame S s (s.mergeLeft last temp).1 := by
  cases last with
  | none => exact refl S s
  | some a =>
      unfold State.mergeLeft
      dsimp only
      split
      · exact absorbArea (h a rfl)
      · exact refl S s

theorem mergeRight {temp : Nat} {next : Option Nat} (h : Set.Ico temp (temp + 8) ⊆ S) :
    Frame S s (s.mergeRight temp next) := by
  cases next with
  | none => exact refl S s
  | some b =>
      unfold State.mergeRight
      dsimp only
      split
      · exact absorbArea h
      · exact refl S s

theorem pagesSplit {p n : Nat} (h : Set.Ico p (p + 8) ⊆ S)
    (hq : Set.Ico (add32 p n) (add32 p n + 8) ⊆ S) : Frame S s (pagesSplit s (some p) n).2 := by
  unfold Mm.pagesSplit
  dsimp only
  split
  · exact refl S s
  · split
    · exact refl S s
    · exact (((setAreaSize hq).trans (setAreaNext hq)).trans (setAreaSize h)).trans (setAreaNext h)

end Frame

theorem header_subset {e : Extent} (he : Paged e) (hpos : 0 < e.size) :
    Set.Ico (node e) (node e + 8) ⊆ virt e.bytes := by
  have hnode := he.node_eq
  have hal := he.size_aligned
  intro b hb
  have h₁ := hb.1
  have h₂ := hb.2
  refine ⟨by unfold KERNEL_BASE; omega, ?_⟩
  rw [Extent.mem_bytes, KERNEL_BASE, Extent.fin]
  omega

theorem bytes_subset_covered {e : Extent} {l : List Extent} (he : e ∈ l) : e.bytes ⊆ covered l :=
  fun _ hb => ⟨e, he, hb⟩

theorem FreeList.header_subset {s : State} {l : List Extent} (h : FreeList s l)
    (hsep : Separated l) {e : Extent} (he : e ∈ l) :
    Set.Ico (node e) (node e + 8) ⊆ virt (covered l) := fun _ hb =>
  virt_mono (bytes_subset_covered he) (Mm.header_subset (h.paged e he) (hsep.pos e he) hb)

/-- The free list lives in free memory: a change elsewhere does not reach it. -/
theorem Represents.congr {s s' : State} {l : List Extent} (h : Represents s l)
    (hhead : s'.fareaHead = s.fareaHead) (hm : AgreeOn (virt (covered l)) s.mem s'.mem) :
    Represents s' l := by
  have hword : ∀ e ∈ l, ∀ a, node e ≤ a → a + 4 ≤ node e + 8 → s'.word a = s.word a := by
    intro e he a ha ha'
    refine load32_congr hm fun b hb hb' => ?_
    exact h.toFreeList.header_subset h.separated he ⟨by omega, by omega⟩
  refine ⟨h.toFreeList.congr hhead (fun e he => ?_) (fun e he => ?_), h.separated⟩
  · exact hword e he _ (Nat.le_refl _) (by omega)
  · exact hword e he _ (by omega) (by omega)

theorem and_mask_eq_zero {n : Nat} : n &&& 0xFFF = 0 ↔ n % 4096 = 0 := by
  rw [show (0xFFF : Nat) = 2 ^ 12 - 1 from rfl, Nat.and_two_pow_sub_one_eq_mod]

theorem FreeList.last_header_subset {s : State} {l₁ l₂ : List Extent} (h : FreeList s (l₁ ++ l₂))
    (hsep : Separated (l₁ ++ l₂)) :
    ∀ a ∈ l₁.getLast?.map node, Set.Ico a (a + 8) ⊆ virt (covered (l₁ ++ l₂)) := by
  intro a ha
  obtain ⟨e, he, rfl⟩ := Option.map_eq_some_iff.1 ha
  have hmem : e ∈ l₁ := List.mem_of_getLast? he
  exact h.header_subset hsep (by simp [hmem])

theorem pagesAlloc_spec {s : State} {l : List Extent} {n : Nat} (h : Represents s l)
    (hpos : 0 < n) (hn : n % 4096 = 0) :
    (∃ l₁ e l₂ s', l = l₁ ++ e :: l₂ ∧ (∀ f ∈ l₁, f.size < n) ∧ n ≤ e.size ∧
      pagesAlloc s n = .ok (e.start, s') ∧ Represents s' (l₁ ++ (e.rest n ++ l₂)) ∧
      Frame (virt (covered l)) s s') ∨
    ((∀ f ∈ l, f.size < n) ∧ pagesAlloc s n = .error .spin) := by
  obtain ⟨l₁, l₂, rfl, hfail, hstop, hscan⟩ :=
    h.toFreeList.scan_spec (fun a => decide (¬ n > s.areaSize a))
  have hsmall : ∀ f ∈ l₁, f.size < n := by
    intro f hf
    have := hfail f hf
    rw [h.sizes f (by simp [hf])] at this
    simpa using this
  have hmask : n &&& 0xFFF = 0 := and_mask_eq_zero.2 hn
  cases l₂ with
  | nil =>
      refine Or.inr ⟨by simpa using hsmall, ?_⟩
      unfold pagesAlloc
      rw [if_neg (by simpa using hmask), hscan]
      rfl
  | cons e l₂ =>
      have hes := h.sizes e (by simp)
      have hep := h.paged e (by simp)
      have hfit : n ≤ e.size := by
        have := hstop e (by simp)
        rw [hes] at this
        simpa using this
      have hlast := h.toFreeList.last_header_subset h.separated
      have hehead := h.toFreeList.header_subset h.separated (show e ∈ l₁ ++ e :: l₂ by simp)
      have hcarve := h.separated.carve (n := n)
      refine Or.inl ⟨l₁, e, l₂, ?_⟩
      by_cases hlt : n < e.size
      · obtain ⟨hcode, hsplit⟩ := h.toFreeList.split h.separated hpos hn hlt
        have hrest : e.rest n = [⟨e.start + n, e.size - n⟩] := if_pos hlt
        refine ⟨(pagesSplit s (some (node e)) n).2.unlinkArea (l₁.getLast?.map node) (node e),
          rfl, hsmall, hfit, ?_, ⟨?_, hcarve⟩, ?_⟩
        · unfold pagesAlloc
          rw [if_neg (by simpa using hmask), hscan]
          simp only [Res.ofFuel_some, Res.ok_bind, List.head?_cons, Option.map_some, hes]
          rw [if_neg (by omega), if_pos hlt]
          simp only [hcode, ne_eq, not_true_eq_false, if_false, hep.V2P_node]
        · rw [hrest]
          exact hsplit.unlink
        · refine Frame.trans (Frame.pagesSplit hehead ?_) (Frame.unlinkArea hlast)
          have hq := hsplit.paged ⟨e.start + n, e.size - n⟩ (by simp)
          rw [hep.add32_node (e.size - n) hq]
          intro b hb
          refine virt_mono ?_ (Mm.header_subset hq (by simp only; omega) hb)
          intro c hc
          refine ⟨e, by simp, ?_⟩
          rw [Extent.mem_bytes] at hc ⊢
          unfold Extent.fin at hc ⊢
          simp only at hc
          omega
      · have heq : e.size = n := by omega
        have hrest : e.rest n = [] := if_neg hlt
        refine ⟨s.unlinkArea (l₁.getLast?.map node) (node e), rfl, hsmall, hfit, ?_,
          ⟨?_, hcarve⟩, Frame.unlinkArea hlast⟩
        · unfold pagesAlloc
          rw [if_neg (by simpa using hmask), hscan]
          simp only [Res.ofFuel_some, Res.ok_bind, List.head?_cons, Option.map_some, hes]
          rw [if_neg (by omega), if_neg hlt]
          simp only [ne_eq, not_true_eq_false, if_false, hep.V2P_node]
        · rw [hrest]
          exact h.toFreeList.unlink

/-- First fit on the extents: where the first one with `n` bytes starts, and what is left of all. -/
def firstFit (n : Nat) : List Extent → Option (Nat × List Extent)
  | [] => none
  | e :: l =>
      if n ≤ e.size then some (e.start, e.rest n ++ l)
      else (firstFit n l).map fun r => (r.1, e :: r.2)

theorem firstFit_append {n : Nat} {l₁ l : List Extent} (h : ∀ f ∈ l₁, f.size < n) :
    firstFit n (l₁ ++ l) = (firstFit n l).map fun r => (r.1, l₁ ++ r.2) := by
  induction l₁ with
  | nil => simp
  | cons e l₁ ih =>
      have hsmall := h e (List.mem_cons_self ..)
      rw [List.cons_append, firstFit, if_neg (by omega),
        ih fun f hf => h f (List.mem_cons_of_mem e hf), Option.map_map]
      rfl

theorem firstFit_found {n : Nat} {l₁ l₂ : List Extent} {e : Extent} (h : ∀ f ∈ l₁, f.size < n)
    (he : n ≤ e.size) :
    firstFit n (l₁ ++ e :: l₂) = some (e.start, l₁ ++ (e.rest n ++ l₂)) := by
  rw [firstFit_append h, firstFit, if_pos he]
  rfl

theorem firstFit_none {n : Nat} {l : List Extent} (h : ∀ f ∈ l, f.size < n) :
    firstFit n l = none := by
  have hall := @firstFit_append n l [] h
  rw [List.append_nil] at hall
  exact hall

/-- A region that may be handed back: whole pages of the managed memory, none of them free. -/
structure Returnable (x : Extent) (l : List Extent) : Prop where
  paged : Paged x
  pos : 0 < x.size
  taken : Disjoint x.bytes (covered l)

theorem Returnable.ends {x e : Extent} {l : List Extent} (h : Returnable x l) (he : e ∈ l)
    (hpos : 0 < e.size) : e.fin ≤ x.start ∨ x.fin ≤ e.start := by
  have hx := h.pos
  have hdis := Set.disjoint_left.1 h.taken
  by_contra hno
  have hmem : max e.start x.start ∈ x.bytes := by
    rw [Extent.mem_bytes, Extent.fin]
    unfold Extent.fin at hno
    omega
  refine hdis hmem ⟨e, he, ?_⟩
  rw [Extent.mem_bytes, Extent.fin]
  unfold Extent.fin at hno
  omega

theorem Returnable.not_start {x f : Extent} {l : List Extent} (h : Returnable x l) (hf : f ∈ l)
    (hpos : 0 < f.size) : f.start ≠ x.start := by
  have hxpos := h.pos
  have hends := h.ends hf hpos
  unfold Extent.fin at hends
  omega

/-- The extents at lower addresses end before a region that can be given back. -/
theorem Returnable.behind {x e : Extent} {l : List Extent} (h : Returnable x l) (he : e ∈ l)
    (hpos : 0 < e.size) (hlt : e.start < x.start) : e.fin ≤ x.start := by
  have hends := h.ends he hpos
  unfold Extent.fin at hends ⊢
  omega

theorem Returnable.before {x e : Extent} {l : List Extent} (h : Returnable x l) (he : e ∈ l)
    (hpos : 0 < e.size) (hle : x.start ≤ e.start) : x.fin ≤ e.start := by
  have hends := h.ends he hpos
  unfold Extent.fin at hends ⊢
  omega

theorem Paged.fin_aligned {x : Extent} (h : Paged x) : x.fin &&& 0xFFF = 0 := by
  have h₁ := h.start_aligned
  have h₂ := h.size_aligned
  rw [and_mask_eq_zero]
  unfold Extent.fin
  omega

theorem Paged.sub32_fin {x : Extent} (h : Paged x) : sub32 x.fin x.start = x.size := by
  have hhi := h.hi
  unfold Extent.fin at hhi ⊢
  rw [sub32_of_le (by omega) (by omega)]
  omega

/-- Linking `x` in and merging it write in free pages and in `x` only. -/
theorem Represents.free_frame {s s₁ : State} {l₁ l₂ : List Extent} {x : Extent}
    (h : Represents s (l₁ ++ l₂)) (hx : Returnable x (l₁ ++ l₂))
    (hlast : ∀ e ∈ l₁.getLast?, e.fin ≤ x.start)
    (hleft : FreeList s₁ ((joinLeft l₁ x).1 ++ (joinLeft l₁ x).2 :: l₂)) :
    (∀ a ∈ l₁.getLast?.map node,
      Set.Ico a (a + 8) ⊆ virt (covered (l₁ ++ l₂) ∪ x.bytes)) ∧
    Set.Ico (node x) (node x + 8) ⊆ virt (covered (l₁ ++ l₂) ∪ x.bytes) ∧
    Set.Ico (node (joinLeft l₁ x).2) (node (joinLeft l₁ x).2 + 8) ⊆
      virt (covered (l₁ ++ l₂) ∪ x.bytes) := by
  refine ⟨fun a ha b hb => ?_, fun b hb => ?_, fun b hb => ?_⟩
  · exact virt_mono Set.subset_union_left
      (h.toFreeList.last_header_subset h.separated a ha hb)
  · exact virt_mono Set.subset_union_right (header_subset hx.paged hx.pos hb)
  · have hjoin : ∀ b ∈ (joinLeft l₁ x).2.bytes, b ∈ covered (l₁ ++ l₂) ∪ x.bytes := by
      intro b hb
      have hu : b ∈ covered l₁ ∪ x.bytes := by
        rw [← covered_joinLeft]
        exact Or.inr hb
      rcases hu with hu | hu
      · exact Or.inl (by rw [covered_append]; exact Or.inl hu)
      · exact Or.inr hu
    have hjp := hleft.paged (joinLeft l₁ x).2 (by simp)
    have hjpos := (Separated.concat_iff.1 (joinLeft_separated
      (Separated.append_iff.1 h.separated).1 hx.pos hlast).1).2.1
    exact virt_mono hjoin (header_subset hjp hjpos hb)

theorem pagesFree_spec {s : State} {l : List Extent} {x : Extent} (h : Represents s l)
    (hx : Returnable x l) :
    ∃ s' l', pagesFree s x.start x.fin = .ok (0, s') ∧ Represents s' l' ∧
      covered l' = covered l ∪ x.bytes ∧ Frame (virt (covered l ∪ x.bytes)) s s' := by
  obtain ⟨l₁, l₂, rfl, hfail, hstop, hscan⟩ :=
    h.toFreeList.scan_spec (fun a => decide (¬ V2P a < x.start))
  have hlast : ∀ e ∈ l₁.getLast?, e.fin ≤ x.start := by
    intro e he
    have hmem := List.mem_of_getLast? he
    have hlt := hfail e hmem
    rw [(h.paged e (by simp [hmem])).V2P_node] at hlt
    exact hx.behind (by simp [hmem]) (h.separated.pos e (by simp [hmem])) (by simpa using hlt)
  have hnext : ∀ f ∈ l₂.head?, x.fin ≤ f.start := by
    intro f hf
    have hmem := List.mem_of_mem_head? hf
    have hle := hstop f hf
    rw [(h.paged f (by simp [hmem])).V2P_node] at hle
    exact hx.before (by simp [hmem]) (h.separated.pos f (by simp [hmem])) (by simpa using hle)
  have hne : ∀ f ∈ l₁ ++ l₂, f.start ≠ x.start := fun f hf =>
    hx.not_start hf (h.separated.pos f hf)
  have hlink := h.toFreeList.link hx.paged hne
  obtain ⟨htemp, hleft⟩ := hlink.mergeLeft
  have hright := hleft.mergeRight
  have hst : x.start &&& 0xFFF = 0 := and_mask_eq_zero.2 hx.paged.start_aligned
  refine ⟨_, coalesce l₁ x l₂, ?_, ⟨hright, h.separated.coalesce hx.pos hlast hnext⟩, ?_, ?_⟩
  · unfold pagesFree
    rw [if_neg (by simp [hst, hx.paged.fin_aligned]), hscan]
    simp only [Res.ofFuel_some, Res.ok_bind, hx.paged.sub32_fin]
    rw [← htemp]
    rfl
  · rw [covered_coalesce, covered_append, Set.union_right_comm]
  · obtain ⟨hl, hxh, hjoin⟩ := h.free_frame hx hlast hleft
    exact ((Frame.linkArea hl hxh).trans (Frame.mergeLeft hl)).trans (Frame.mergeRight hjoin)

/-! ## A region at kernel-virtual addresses -/

/-- The state after a call that leaves pages on no list or a list that is none: whatever is stored
beside the free pages of before, no extents are represented. -/
structure Spoilt (s : State) (l : List Extent) (s' : State) : Prop where
  slbHead : s'.slbHead = s.slbHead
  frame : AgreeOn {b | 2147483648 ≤ b ∧ b ∉ virt (covered l)} s.mem s'.mem
  spoilt : ∀ t : State, t.fareaHead = s'.fareaHead →
    AgreeOn {b | b < 2147483648 ∨ b ∈ virt (covered l)} s'.mem t.mem → ∀ m, ¬ Represents t m

theorem Paged.node_bounds {e : Extent} (h : Paged e) :
    2155872256 ≤ node e ∧ node e + e.size ≤ 2667577344 := by
  have h₁ := h.node_eq
  have h₂ := h.lo
  have h₃ := h.hi
  unfold Extent.fin at h₃
  omega

theorem not_represents {s : State} {nodes : List Nat} {a : Nat}
    (h : Chain s.areaNext s.fareaHead (nodes ++ [a])) (ha : a < 2147483648) (m : List Extent) :
    ¬ Represents s m := by
  intro hm
  have hmem : a ∈ m.map node := by
    rw [Chain.unique hm.links h]
    simp
  obtain ⟨e, he, hea⟩ := List.mem_map.1 hmem
  have := (hm.paged e he).node_bounds
  omega

theorem P2V_virtual {a : Nat} (h : a < 2147483648) : P2V (a + 2147483648) = a := by
  unfold P2V KERNEL_BASE add32
  omega

theorem Represents.linkArea_low {s : State} {l : List Extent} {a n : Nat} (h : Represents s l)
    (hpos : 0 < a) (ha : a + 8 ≤ 2147483648) :
    Chain (s.linkArea (l.getLast?.map node) none a n).areaNext
        (s.linkArea (l.getLast?.map node) none a n).fareaHead (l.map node ++ [a]) ∧
      (∀ e ∈ l, (s.linkArea (l.getLast?.map node) none a n).areaSize (node e) = e.size) := by
  obtain ⟨t, ht⟩ : ∃ t, t = (s.setAreaSize a n).setAreaNext a none := ⟨_, rfl⟩
  have hword : ∀ b, 2147483648 ≤ b → t.word b = s.word b := by
    intro b hb
    rw [ht]
    unfold State.setAreaNext State.setAreaSize
    rw [State.word_setWord_ne _ (by omega), State.word_setWord_ne _ (by omega)]
  have hnode : ∀ e ∈ l, 2147483648 ≤ node e := fun e he => by
    have := (h.paged e he).node_bounds
    omega
  have hlinks : Chain t.areaNext s.fareaHead (l.map node) := by
    refine Seg.congr h.links fun b hb => ?_
    obtain ⟨e, he, rfl⟩ := List.mem_map.1 hb
    exact congrArg ptr (hword _ (hnode e he))
  have hsizes : ∀ e ∈ l, t.areaSize (node e) = e.size := fun e he =>
    (hword _ (Nat.le_add_right_of_le (hnode e he))).trans (h.sizes e he)
  have hlow : t.areaNext a = none := by
    rw [ht]
    unfold State.areaNext State.setAreaNext
    rw [State.word_setWord_same _ (by decide)]
    rfl
  rcases List.eq_nil_or_concat l with rfl | ⟨k, e, hk⟩
  · have heq : s.linkArea (([] : List Extent).getLast?.map node) none a n =
        { t with fareaHead := some a } := by
      rw [ht]
      rfl
    rw [heq]
    exact ⟨⟨rfl, hlow⟩, by simp⟩
  · rw [List.concat_eq_append] at hk
    subst hk
    have heq : s.linkArea ((k ++ [e]).getLast?.map node) none a n = t.setAreaNext (node e) (some a) := by
      rw [ht, List.getLast?_concat]
      rfl
    have he := h.paged e (by simp)
    have hne : ∀ f ∈ k, f.start ≠ e.start := by
      intro f hf
      have hlist : FreeList s (k ++ e :: []) := h.toFreeList
      exact hlist.start_ne (by simpa using hf)
    have hhead : (t.setAreaNext (node e) (some a)).fareaHead = s.fareaHead := by
      rw [ht]
      rfl
    have hsame : (t.setAreaNext (node e) (some a)).areaNext (node e) = some a := by
      refine FreeList.areaNext_setAreaNext_same t (node e) fun b hb => ?_
      obtain rfl := Option.mem_some.1 hb
      omega
    rw [heq, hhead, List.map_append, List.map_singleton, List.append_assoc, List.singleton_append]
    constructor
    · rw [List.map_append, List.map_singleton] at hlinks
      have htail : Chain _ (some a) [a] := ⟨rfl, hlow⟩
      refine Chain.join hlinks htail hsame fun b hb => ?_
      rcases List.mem_append.1 hb with hb | hb
      · obtain ⟨f, hf, rfl⟩ := List.mem_map.1 hb
        exact congrArg ptr (FreeList.word_setAreaNext_node he (h.paged f (by simp [hf]))
          (hne f hf).symm (some a))
      · obtain rfl := List.mem_singleton.1 hb
        have := he.node_bounds
        exact congrArg ptr (State.word_setWord_ne _ (by omega))
    · intro f hf
      rw [← hsizes f hf]
      exact FreeList.areaSize_setAreaNext he (h.paged f hf) (some a)

/-- The node that `pages_free` makes of a region given at its kernel-virtual address lies at the
physical one, behind all others. -/
theorem pagesFree_virtual {s : State} {l : List Extent} {a n : Nat} (h : Represents s l)
    (ha : a % 4096 = 0) (hn : n % 4096 = 0) (hpos : 0 < a) (hhi : a + n ≤ 520093696) :
    ∃ s', pagesFree s (a + 2147483648) (a + 2147483648 + n) = .ok (0, s') ∧
      Chain s'.areaNext s'.fareaHead (l.map node ++ [a]) ∧ s'.slbHead = s.slbHead ∧
      AgreeOn {b | 2147483648 ≤ b ∧ b ∉ virt (covered l)} s.mem s'.mem := by
  have hscan := @scan_chain_none Nat s.areaNext (fun b => decide (¬ V2P b < a + 2147483648)) walkFuel
    none s.fareaHead (l.map node) h.links h.toFreeList.length_lt (by
      intro b hb
      obtain ⟨e, he, rfl⟩ := List.mem_map.1 hb
      have hfin := (h.paged e he).hi
      unfold Extent.fin at hfin
      rw [(h.paged e he).V2P_node]
      exact decide_eq_false (by omega))
  obtain ⟨hchain, hsizes⟩ := @Represents.linkArea_low s l a n h hpos (by omega)
  obtain ⟨t, ht⟩ : ∃ t, t = s.linkArea (l.getLast?.map node) none a n := ⟨_, rfl⟩
  rw [← ht] at hchain hsizes
  have hframe : Frame ({b | b < 2147483648} ∪ virt (covered l)) s t := by
    rw [ht]
    refine Frame.linkArea (fun b hb c hc => Or.inr ?_) fun b hb => Or.inl ?_
    · obtain ⟨e, he, rfl⟩ := Option.map_eq_some_iff.1 hb
      exact h.toFreeList.header_subset h.separated (List.mem_of_getLast? he) hc
    · have := hb.2
      show b < 2147483648
      omega
  have hmerge : t.mergeLeft (l.getLast?.map node) a = (t, a) := by
    cases hlast : l.getLast? with
    | none => rfl
    | some e =>
        have hmem := List.mem_of_getLast? hlast
        have hep := h.paged e hmem
        have hfin := hep.hi
        unfold Extent.fin at hfin
        unfold State.mergeLeft
        dsimp only [Option.map_some]
        rw [hsizes e hmem, hep.node_eq, P2V_virtual (by omega), add32_of_lt (by omega),
          P2V_of_lt (by omega), if_neg (by omega)]
  refine ⟨t, ?_, hchain, hframe.slbHead, hframe.mem.mono fun b hb hc => ?_⟩
  · have hst : (a + 2147483648) &&& 0xFFF = 0 := and_mask_eq_zero.2 (by omega)
    have hfi : (a + 2147483648 + n) &&& 0xFFF = 0 := and_mask_eq_zero.2 (by omega)
    have hlast : (l.map node).getLast?.or none = l.getLast?.map node := by
      rw [Option.or_none, List.getLast?_map]
    unfold pagesFree
    dsimp only
    rw [if_neg (by simp [hst, hfi]), hscan, Res.ofFuel_some, Res.ok_bind]
    dsimp only
    rw [P2V_virtual (by omega), sub32_of_le (by omega) (by omega), Nat.add_sub_cancel_left, hlast,
      ← ht, hmerge]
    rfl
  · rcases hc with hc | hc
    · exact absurd hb.1 (Nat.not_le.2 hc)
    · exact hb.2 hc

end Aimv6.Mm
