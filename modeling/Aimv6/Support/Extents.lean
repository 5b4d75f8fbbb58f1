import Mathlib.Data.List.Chain
import Mathlib.Order.Interval.Set.Basic
import Mathlib.Data.Set.Lattice
import Mathlib.Order.CompletePartialOrder

/-! # Sorted lists of separated extents

A set of addresses is kept as a list of nonempty extents in increasing order, a
gap between any two of them. The list is then determined by the set, so an
operation on such lists is fixed by its effect on the set. `carve` removes a
prefix of one extent; `insert` adds an extent and absorbs it into the
neighbours it touches.
-/

namespace Support

/-- The addresses from `start` up to, and without, `start + size`. -/
structure Extent where
  start : Nat
  size : Nat
deriving DecidableEq, Repr

namespace Extent

def fin (e : Extent) : Nat := e.start + e.size

def bytes (e : Extent) : Set Nat := Set.Ico e.start e.fin

theorem mem_bytes {e : Extent} {b : Nat} : b ∈ e.bytes ↔ e.start ≤ b ∧ b < e.fin := Iff.rfl

/-- The extent that covers `e` and the extent `f` right behind it. -/
def absorb (e f : Extent) : Extent := ⟨e.start, e.size + f.size⟩

@[simp] theorem absorb_start (e f : Extent) : (e.absorb f).start = e.start := rfl

theorem absorb_fin {e f : Extent} (h : e.fin = f.start) : (e.absorb f).fin = f.fin := by
  simp only [fin, absorb] at *
  omega

end Extent

/-- The addresses covered by a list of extents. -/
def covered (l : List Extent) : Set Nat := {b | ∃ e ∈ l, b ∈ e.bytes}

theorem mem_covered {l : List Extent} {b : Nat} : b ∈ covered l ↔ ∃ e ∈ l, b ∈ e.bytes := Iff.rfl

@[simp] theorem covered_nil : covered [] = ∅ := by
  ext b
  simp [mem_covered]

@[simp] theorem covered_cons (e : Extent) (l : List Extent) :
    covered (e :: l) = e.bytes ∪ covered l := by
  ext b
  simp [mem_covered]

@[simp] theorem covered_append (l₁ l₂ : List Extent) :
    covered (l₁ ++ l₂) = covered l₁ ∪ covered l₂ := by
  ext b
  simp [mem_covered, or_and_right, exists_or]

/-- Nonempty extents in increasing order with a gap behind each of them. -/
structure Separated (l : List Extent) : Prop where
  pos : ∀ e ∈ l, 0 < e.size
  gaps : l.IsChain (fun e f => e.fin < f.start)

namespace Separated

theorem nil : Separated [] := ⟨by simp, by simp⟩

theorem singleton {e : Extent} (h : 0 < e.size) : Separated [e] := ⟨by simpa using h, by simp⟩

theorem tail {e : Extent} {l : List Extent} (h : Separated (e :: l)) : Separated l :=
  ⟨fun f hf => h.pos f (by simp [hf]), h.gaps.tail⟩

/-- Splitting a list at any place leaves two separated lists and a gap between them. -/
theorem append_iff {l₁ l₂ : List Extent} :
    Separated (l₁ ++ l₂) ↔ Separated l₁ ∧ Separated l₂ ∧
      ∀ e ∈ l₁.getLast?, ∀ f ∈ l₂.head?, e.fin < f.start := by
  constructor
  · intro h
    obtain ⟨h₁, h₂, hb⟩ := List.isChain_append.1 h.gaps
    exact ⟨⟨fun e he => h.pos e (by simp [he]), h₁⟩, ⟨fun e he => h.pos e (by simp [he]), h₂⟩, hb⟩
  · rintro ⟨h₁, h₂, hb⟩
    refine ⟨fun e he => ?_, List.isChain_append.2 ⟨h₁.gaps, h₂.gaps, hb⟩⟩
    rcases List.mem_append.1 he with he | he
    · exact h₁.pos e he
    · exact h₂.pos e he

theorem cons_iff {e : Extent} {l : List Extent} :
    Separated (e :: l) ↔ 0 < e.size ∧ Separated l ∧ ∀ f ∈ l.head?, e.fin < f.start := by
  constructor
  · intro h
    exact ⟨h.pos e (by simp), h.tail, (List.isChain_cons.1 h.gaps).1⟩
  · rintro ⟨he, hl, hb⟩
    refine ⟨fun f hf => ?_, List.isChain_cons.2 ⟨hb, hl.gaps⟩⟩
    rcases List.mem_cons.1 hf with rfl | hf
    · exact he
    · exact hl.pos f hf

theorem concat_iff {e : Extent} {l : List Extent} :
    Separated (l ++ [e]) ↔ Separated l ∧ 0 < e.size ∧ ∀ f ∈ l.getLast?, f.fin < e.start := by
  rw [append_iff, cons_iff]
  simp [Separated.nil]

/-- The first extent ends before every later one starts. -/
theorem fin_lt_of_mem {e : Extent} {l : List Extent} (h : Separated (e :: l)) :
    ∀ f ∈ l, e.fin < f.start := by
  induction l generalizing e with
  | nil => simp
  | cons g l ih =>
      obtain ⟨-, hl, hb⟩ := cons_iff.1 h
      have hg : e.fin < g.start := hb g (by simp)
      intro f hf
      rcases List.mem_cons.1 hf with rfl | hf
      · exact hg
      · have hgf := ih hl f hf
        simp only [Extent.fin] at hg hgf ⊢
        omega

theorem pairwise {l : List Extent} (h : Separated l) :
    l.Pairwise (fun e f => e.fin < f.start) := by
  induction l with
  | nil => exact List.Pairwise.nil
  | cons e l ih => exact List.Pairwise.cons h.fin_lt_of_mem (ih h.tail)

theorem lt_of_mem_covered {e : Extent} {l : List Extent} (h : Separated (e :: l)) {b : Nat}
    (hb : b ∈ covered l) : e.fin < b := by
  obtain ⟨f, hf, hbf⟩ := hb
  exact Nat.lt_of_lt_of_le (h.fin_lt_of_mem f hf) hbf.1

theorem start_mem {e : Extent} {l : List Extent} (h : Separated (e :: l)) :
    e.start ∈ covered (e :: l) :=
  ⟨e, by simp, Nat.le_refl _, Nat.lt_add_of_pos_right (h.pos e (by simp))⟩

/-- The first address behind the first extent is not covered. -/
theorem fin_not_mem {e : Extent} {l : List Extent} (h : Separated (e :: l)) :
    e.fin ∉ covered (e :: l) := by
  simp only [covered_cons, Set.mem_union, not_or]
  exact ⟨fun hb => Nat.lt_irrefl _ hb.2, fun hb => Nat.lt_irrefl _ (h.lt_of_mem_covered hb)⟩

theorem start_le {e : Extent} {l : List Extent} (h : Separated (e :: l)) {b : Nat}
    (hb : b ∈ covered (e :: l)) : e.start ≤ b := by
  rw [covered_cons] at hb
  rcases hb with hb | hb
  · exact hb.1
  · have := h.lt_of_mem_covered hb
    simp only [Extent.fin] at this
    omega

theorem interval {l : List Extent} (h : Separated l) {a n : Nat} (hn : 0 < n)
    (hsub : Set.Ico a (a + n) ⊆ covered l) : ∃ e ∈ l, e.start ≤ a ∧ a + n ≤ e.fin := by
  induction l with
  | nil =>
      have ha : a ∈ covered [] := hsub ⟨Nat.le_refl a, by omega⟩
      simp at ha
  | cons e l ih =>
      have ha : a ∈ covered (e :: l) := hsub ⟨Nat.le_refl a, by omega⟩
      by_cases hin : a < e.fin
      · refine ⟨e, List.mem_cons_self, h.start_le ha, ?_⟩
        by_contra hout
        exact h.fin_not_mem (hsub ⟨by omega, by omega⟩)
      · have hrest : Set.Ico a (a + n) ⊆ covered l := by
          intro b hb
          have hmem := hsub hb
          rw [covered_cons] at hmem
          cases hmem with
          | inl hbe =>
              have h₁ := hb.1
              have h₂ := hbe.2
              omega
          | inr hbl => exact hbl
        obtain ⟨f, hf, hle⟩ := ih h.tail hrest
        exact ⟨f, List.mem_cons_of_mem e hf, hle⟩

private theorem fin_le_of_covered_eq {e e' : Extent} {l l' : List Extent}
    (h : Separated (e :: l)) (hs : e.start = e'.start)
    (hc : covered (e :: l) = covered (e' :: l')) : e'.fin ≤ e.fin := by
  by_contra hlt
  have hmem : e.fin ∈ covered (e' :: l') := by
    refine ⟨e', by simp, ?_, by omega⟩
    rw [← hs]
    exact Nat.le_add_right _ _
  rw [← hc] at hmem
  exact h.fin_not_mem hmem

/-- A separated list is determined by the addresses it covers. -/
theorem ext {l l' : List Extent} (h : Separated l) (h' : Separated l')
    (hc : covered l = covered l') : l = l' := by
  induction l generalizing l' with
  | nil =>
      cases l' with
      | nil => rfl
      | cons e' l' =>
          have hmem := h'.start_mem
          rw [← hc] at hmem
          simp at hmem
  | cons e l ih =>
      cases l' with
      | nil =>
          have hmem := h.start_mem
          rw [hc] at hmem
          simp at hmem
      | cons e' l' =>
          have hs : e.start = e'.start :=
            Nat.le_antisymm (h.start_le (hc ▸ h'.start_mem)) (h'.start_le (hc ▸ h.start_mem))
          have hfin : e.fin = e'.fin :=
            Nat.le_antisymm (fin_le_of_covered_eq h' hs.symm hc.symm)
              (fin_le_of_covered_eq h hs hc)
          have he : e = e' := by
            cases e
            cases e'
            simp only [Extent.fin] at hs hfin
            simp only [Extent.mk.injEq]
            omega
          subst he
          rw [ih h.tail h'.tail]
          ext b
          have hb := Set.ext_iff.1 hc b
          simp only [covered_cons, Set.mem_union] at hb
          constructor
          · intro hl
            refine (hb.1 (Or.inr hl)).resolve_left fun hbe => ?_
            exact Nat.lt_asymm (h.lt_of_mem_covered hl) hbe.2
          · intro hl
            refine (hb.2 (Or.inr hl)).resolve_left fun hbe => ?_
            exact Nat.lt_asymm (h'.lt_of_mem_covered hl) hbe.2

end Separated

/-! ## Carving a prefix -/

/-- What is left of an extent behind its first `n` addresses. -/
def Extent.rest (e : Extent) (n : Nat) : List Extent :=
  if n < e.size then [⟨e.start + n, e.size - n⟩] else []

theorem Extent.covered_rest (e : Extent) (n : Nat) :
    covered (e.rest n) = e.bytes \ Set.Ico e.start (e.start + n) := by
  ext b
  unfold Extent.rest
  split
  · simp only [covered_cons, covered_nil, Set.union_empty, Set.mem_sdiff, Extent.mem_bytes,
      Extent.fin, Set.mem_Ico]
    omega
  · simp only [covered_nil, Set.mem_empty_iff_false, false_iff]
    rintro ⟨hb, hn⟩
    rw [Extent.mem_bytes, Extent.fin] at hb
    exact hn ⟨hb.1, by omega⟩

theorem Separated.carve {e : Extent} {l₁ l₂ : List Extent} {n : Nat}
    (h : Separated (l₁ ++ e :: l₂)) : Separated (l₁ ++ (e.rest n ++ l₂)) := by
  obtain ⟨h₁, he, hb⟩ := Separated.append_iff.1 h
  obtain ⟨hpos, h₂, hb₂⟩ := Separated.cons_iff.1 he
  have hlast : ∀ f ∈ l₁.getLast?, f.fin < e.start := fun f hf => hb f hf e (by simp)
  unfold Extent.rest
  split
  · refine Separated.append_iff.2 ⟨h₁, Separated.cons_iff.2 ⟨by simp; omega, h₂, ?_⟩, ?_⟩
    · intro f hf
      have := hb₂ f hf
      simp only [Extent.fin] at this ⊢
      omega
    · intro f hf g hg
      obtain rfl := by simpa using hg
      exact Nat.lt_of_lt_of_le (hlast f hf) (Nat.le_add_right _ _)
  · refine Separated.append_iff.2 ⟨h₁, h₂, fun f hf g hg => ?_⟩
    have h1 := hlast f hf
    have h2 := hb₂ g hg
    simp only [Extent.fin] at h1 h2 ⊢
    omega

theorem covered_carve {e : Extent} {l₁ l₂ : List Extent} {n : Nat}
    (h : Separated (l₁ ++ e :: l₂)) (hn : n ≤ e.size) :
    covered (l₁ ++ (e.rest n ++ l₂)) =
      covered (l₁ ++ e :: l₂) \ Set.Ico e.start (e.start + n) := by
  have hp := List.pairwise_append.1 h.pairwise
  have hbefore : ∀ b ∈ covered l₁, b ∉ Set.Ico e.start (e.start + n) := by
    rintro b ⟨f, hf, hbf⟩ hb
    have := hp.2.2 f hf e (by simp)
    exact absurd hb.1 (Nat.not_le.2 (Nat.lt_trans hbf.2 this))
  have hafter : ∀ b ∈ covered l₂, b ∉ Set.Ico e.start (e.start + n) := by
    rintro b hb hmem
    have hlt := (Separated.append_iff.1 h).2.1.lt_of_mem_covered hb
    have := hmem.2
    simp only [Extent.fin] at hlt
    omega
  simp only [covered_append, covered_cons, Extent.covered_rest]
  ext b
  simp only [Set.mem_union, Set.mem_sdiff]
  constructor
  · rintro (hb | ⟨hb, hn⟩ | hb)
    · exact ⟨Or.inl hb, hbefore b hb⟩
    · exact ⟨Or.inr (Or.inl hb), hn⟩
    · exact ⟨Or.inr (Or.inr hb), hafter b hb⟩
  · rintro ⟨hb | hb | hb, hn⟩
    · exact Or.inl hb
    · exact Or.inr (Or.inl ⟨hb, hn⟩)
    · exact Or.inr (Or.inr hb)

/-! ## Inserting and coalescing -/

/-- Join the last extent of the first list with `x` when they touch. -/
def joinLeft (l₁ : List Extent) (x : Extent) : List Extent × Extent :=
  match l₁.getLast? with
  | some e => if e.fin = x.start then (l₁.dropLast, e.absorb x) else (l₁, x)
  | none => (l₁, x)

/-- Join `x` with the first extent behind it when they touch. -/
def joinRight (x : Extent) (l₂ : List Extent) : Extent × List Extent :=
  match l₂ with
  | [] => (x, [])
  | f :: l₂ => if x.fin = f.start then (x.absorb f, l₂) else (x, f :: l₂)

/-- Put `x` between two lists and coalesce it with its neighbours. -/
def coalesce (l₁ : List Extent) (x : Extent) (l₂ : List Extent) : List Extent :=
  let left := joinLeft l₁ x
  let right := joinRight left.2 l₂
  left.1 ++ right.1 :: right.2

theorem joinLeft_concat (l : List Extent) (e x : Extent) :
    joinLeft (l ++ [e]) x = if e.fin = x.start then (l, e.absorb x) else (l ++ [e], x) := by
  simp [joinLeft]

theorem Extent.bytes_absorb {e f : Extent} (h : e.fin = f.start) :
    (e.absorb f).bytes = e.bytes ∪ f.bytes := by
  ext b
  simp only [Set.mem_union, Extent.mem_bytes, Extent.absorb, Extent.fin] at h ⊢
  omega

theorem covered_joinLeft (l₁ : List Extent) (x : Extent) :
    covered (joinLeft l₁ x).1 ∪ (joinLeft l₁ x).2.bytes = covered l₁ ∪ x.bytes := by
  rcases List.eq_nil_or_concat l₁ with rfl | ⟨l, e, rfl⟩
  · simp [joinLeft]
  · rw [List.concat_eq_append, joinLeft_concat]
    split
    · rename_i h
      simp [Extent.bytes_absorb h, Set.union_assoc]
    · simp

theorem covered_joinRight (x : Extent) (l₂ : List Extent) :
    (joinRight x l₂).1.bytes ∪ covered (joinRight x l₂).2 = x.bytes ∪ covered l₂ := by
  cases l₂ with
  | nil => simp [joinRight]
  | cons f l₂ =>
      simp only [joinRight]
      split
      · rename_i h
        simp [Extent.bytes_absorb h, Set.union_assoc]
      · simp

theorem covered_coalesce (l₁ : List Extent) (x : Extent) (l₂ : List Extent) :
    covered (coalesce l₁ x l₂) = covered l₁ ∪ x.bytes ∪ covered l₂ := by
  simp only [coalesce, covered_append, covered_cons]
  rw [covered_joinRight, ← Set.union_assoc, covered_joinLeft]

theorem joinLeft_separated {l₁ : List Extent} {x : Extent} (h₁ : Separated l₁) (hx : 0 < x.size)
    (hle : ∀ e ∈ l₁.getLast?, e.fin ≤ x.start) :
    Separated ((joinLeft l₁ x).1 ++ [(joinLeft l₁ x).2]) ∧ (joinLeft l₁ x).2.fin = x.fin := by
  rcases List.eq_nil_or_concat l₁ with rfl | ⟨l, e, rfl⟩
  · exact ⟨Separated.singleton hx, rfl⟩
  · rw [List.concat_eq_append] at *
    obtain ⟨hl, he, hb⟩ := Separated.concat_iff.1 h₁
    rw [joinLeft_concat]
    split
    · rename_i hfin
      refine ⟨Separated.concat_iff.2 ⟨hl, ?_, hb⟩, Extent.absorb_fin hfin⟩
      simp only [Extent.absorb]
      omega
    · rename_i hfin
      refine ⟨Separated.concat_iff.2 ⟨h₁, hx, fun f hf => ?_⟩, rfl⟩
      obtain rfl : e = f := by simpa using hf
      exact Nat.lt_of_le_of_ne (hle e (by simp)) hfin

theorem joinRight_separated {l₂ : List Extent} {x : Extent} (h₂ : Separated l₂) (hx : 0 < x.size)
    (hle : ∀ f ∈ l₂.head?, x.fin ≤ f.start) :
    Separated ((joinRight x l₂).1 :: (joinRight x l₂).2) ∧ (joinRight x l₂).1.start = x.start := by
  cases l₂ with
  | nil => exact ⟨Separated.singleton hx, rfl⟩
  | cons f l₂ =>
      obtain ⟨hf, hl, hb⟩ := Separated.cons_iff.1 h₂
      simp only [joinRight]
      split
      · rename_i hfin
        refine ⟨Separated.cons_iff.2 ⟨?_, hl, fun g hg => ?_⟩, rfl⟩
        · simp only [Extent.absorb]
          omega
        · rw [Extent.absorb_fin hfin]
          exact hb g hg
      · rename_i hfin
        refine ⟨Separated.cons_iff.2 ⟨hx, h₂, fun g hg => ?_⟩, rfl⟩
        obtain rfl : f = g := by simpa using hg
        exact Nat.lt_of_le_of_ne (hle f (by simp)) hfin

/-- Inserting an extent between its neighbours keeps the list separated. -/
theorem Separated.coalesce {l₁ l₂ : List Extent} {x : Extent} (h : Separated (l₁ ++ l₂))
    (hx : 0 < x.size) (hlast : ∀ e ∈ l₁.getLast?, e.fin ≤ x.start)
    (hnext : ∀ f ∈ l₂.head?, x.fin ≤ f.start) : Separated (coalesce l₁ x l₂) := by
  obtain ⟨h₁, h₂, -⟩ := Separated.append_iff.1 h
  obtain ⟨hleft, hfin⟩ := joinLeft_separated h₁ hx hlast
  obtain ⟨hl, hpos, hb⟩ := Separated.concat_iff.1 hleft
  obtain ⟨hright, hstart⟩ := joinRight_separated h₂ hpos (by rw [hfin]; exact hnext)
  refine Separated.append_iff.2 ⟨hl, hright, fun e he f hf => ?_⟩
  obtain rfl : (joinRight (joinLeft l₁ x).2 l₂).1 = f := by simpa using hf
  rw [hstart]
  exact hb e he

end Support
