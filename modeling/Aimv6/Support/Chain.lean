import Mathlib.Data.List.Nodup
import Mathlib.Data.Finset.Card
import Mathlib.Order.Interval.Finset.Nat

/-! # Null-terminated chains

A singly linked structure is observed through its successor function
`succ : α → Option α`, `none` standing for the null link. `Seg` lists the nodes
between two links; a chain is a segment that ends in null. Everything below is
about the links alone: what a node stores beside its link is the client's
business. `scan` is the search loop with a trailing pointer that intrusive
lists are walked by.
-/

namespace Support

variable {α : Type*} {succ succ' : α → Option α}

/-- From the link `p` the successors visit exactly the nodes `l`, and the link
found behind the last of them is `q`. -/
def Seg (succ : α → Option α) : Option α → List α → Option α → Prop
  | p, [], q => p = q
  | p, a :: l, q => p = some a ∧ Seg succ (succ a) l q

/-- A segment that ends in the null link. -/
abbrev Chain (succ : α → Option α) (p : Option α) (l : List α) : Prop := Seg succ p l none

instance decidableSeg [DecidableEq α] : ∀ p l q, Decidable (Seg succ p l q)
  | p, [], q => inferInstanceAs (Decidable (p = q))
  | p, a :: l, q =>
      have := decidableSeg (succ a) l q
      inferInstanceAs (Decidable (p = some a ∧ Seg succ (succ a) l q))

@[simp] theorem seg_nil {p q : Option α} : Seg succ p [] q ↔ p = q := Iff.rfl

@[simp] theorem seg_cons {p q : Option α} {a : α} {l : List α} :
    Seg succ p (a :: l) q ↔ p = some a ∧ Seg succ (succ a) l q := Iff.rfl

theorem seg_append {p q : Option α} {l₁ l₂ : List α} :
    Seg succ p (l₁ ++ l₂) q ↔ ∃ r, Seg succ p l₁ r ∧ Seg succ r l₂ q := by
  induction l₁ generalizing p with
  | nil => simp
  | cons a l ih => simp [ih, and_assoc]

/-- The last node of a segment is the one whose link leaves it. -/
theorem seg_concat {p q : Option α} {l : List α} {a : α} :
    Seg succ p (l ++ [a]) q ↔ Seg succ p l (some a) ∧ succ a = q := by
  simp only [seg_append, seg_cons, seg_nil]
  constructor
  · rintro ⟨r, hl, rfl, hq⟩
    exact ⟨hl, hq⟩
  · rintro ⟨hl, hq⟩
    exact ⟨_, hl, rfl, hq⟩

theorem seg_append_cons {p q : Option α} {l₁ l₂ : List α} {a : α} :
    Seg succ p (l₁ ++ a :: l₂) q ↔ Seg succ p l₁ (some a) ∧ Seg succ (succ a) l₂ q := by
  simp only [seg_append, seg_cons]
  constructor
  · rintro ⟨r, hl, rfl, hq⟩
    exact ⟨hl, hq⟩
  · rintro ⟨hl, hq⟩
    exact ⟨_, hl, rfl, hq⟩

theorem Seg.congr {p q : Option α} {l : List α} (h : Seg succ p l q)
    (hs : ∀ a ∈ l, succ' a = succ a) : Seg succ' p l q := by
  induction l generalizing p with
  | nil => exact h
  | cons a l ih =>
      obtain ⟨hp, hl⟩ := h
      refine ⟨hp, ?_⟩
      rw [hs a (by simp)]
      exact ih hl (fun b hb => hs b (by simp [hb]))

theorem Chain.head_eq {p : Option α} {l : List α} (h : Chain succ p l) : p = l.head? := by
  cases l with
  | nil => exact h
  | cons a l => exact h.1

/-- The nodes of a chain are determined by its first link. -/
theorem Chain.unique {p : Option α} {l l' : List α} (h : Chain succ p l) (h' : Chain succ p l') :
    l = l' := by
  induction l generalizing p l' with
  | nil =>
      cases l' with
      | nil => rfl
      | cons b l' => exact absurd (h.symm.trans h'.1) (by simp)
  | cons a l ih =>
      cases l' with
      | nil => exact absurd (h'.symm.trans h.1) (by simp)
      | cons b l' =>
          obtain rfl : a = b := Option.some.inj (h.1.symm.trans h'.1)
          rw [ih h.2 h'.2]

/-- Two chains with the same nodes have the same links. -/
theorem Chain.next_eq {p p' : Option α} {l : List α} (h : Chain succ p l)
    (h' : Chain succ' p' l) : ∀ a ∈ l, succ' a = succ a := by
  induction l generalizing p p' with
  | nil => simp
  | cons b l ih =>
      obtain ⟨-, hl⟩ := h
      obtain ⟨-, hl'⟩ := h'
      intro a ha
      rcases List.mem_cons.1 ha with rfl | ha
      · rw [Chain.head_eq hl, Chain.head_eq hl']
      · exact ih hl hl' a ha

/-- A chain is acyclic: a repeated node would make two of its tails equal. -/
theorem Chain.nodup {p : Option α} {l : List α} (h : Chain succ p l) : l.Nodup := by
  induction l generalizing p with
  | nil => simp
  | cons a l ih =>
      refine List.nodup_cons.2 ⟨fun hmem => ?_, ih h.2⟩
      obtain ⟨l₁, l₂, rfl⟩ := List.append_of_mem hmem
      have hrest : Chain succ (succ a) l₂ := (seg_append_cons.1 h.2).2
      have hlen := congrArg List.length (Chain.unique h.2 hrest)
      simp at hlen
      omega

/-- A duplicate-free list of addresses below `N` has at most `N` members. -/
theorem nodup_length_le {l : List Nat} {N : Nat} (hn : l.Nodup) (hb : ∀ x ∈ l, x < N) :
    l.length ≤ N := by
  have hsub : l.toFinset ⊆ Finset.range N := by
    intro x hx
    exact Finset.mem_range.2 (hb x (List.mem_toFinset.1 hx))
  have hcard := Finset.card_le_card hsub
  rwa [List.toFinset_card_of_nodup hn, Finset.card_range] at hcard

/-- A chain through nonzero addresses below `N` has fewer than `N` nodes. -/
theorem Chain.length_lt {succ : Nat → Option Nat} {p : Option Nat} {l : List Nat} {N : Nat}
    (h : Chain succ p l) (hN : 0 < N) (hb : ∀ a ∈ l, 0 < a ∧ a < N) : l.length < N := by
  have hsub : l.toFinset ⊆ Finset.Ioo 0 N := by
    intro a ha
    rw [Finset.mem_Ioo]
    exact hb a (List.mem_toFinset.1 ha)
  have hcard := Finset.card_le_card hsub
  rw [List.toFinset_card_of_nodup h.nodup, Nat.card_Ioo] at hcard
  omega

/-- The nodes `f i`, `f (i + 1)`, ... of an array in which each links to the one behind it. -/
theorem chain_range' {f : Nat → α} {n : Nat}
    (hnext : ∀ i < n, succ (f i) = if i + 1 = n then none else some (f (i + 1))) (k : Nat) :
    ∀ i, i + k = n → Chain succ (if i = n then none else some (f i)) ((List.range' i k).map f) := by
  induction k with
  | zero =>
      intro i hi
      rw [if_pos (by omega)]
      rfl
  | succ k ih =>
      intro i hi
      have hrest := ih (i + 1) (by omega)
      rw [← hnext i (by omega)] at hrest
      rw [if_neg (by omega), List.range'_succ]
      exact ⟨rfl, hrest⟩

/-- Unlinking the node behind `a`: `a` takes over the link of its successor. -/
theorem Chain.unlink {p : Option α} {l₁ l₂ : List α} {a b : α}
    (h : Chain succ p (l₁ ++ a :: b :: l₂)) (ha : succ' a = succ b)
    (hs : ∀ c ∈ l₁ ++ l₂, succ' c = succ c) : Chain succ' p (l₁ ++ a :: l₂) := by
  obtain ⟨h₁, -, h₂⟩ := seg_append_cons.1 h
  refine seg_append_cons.2 ⟨h₁.congr fun c hc => hs c (by simp [hc]), ?_⟩
  rw [ha]
  exact Seg.congr h₂ fun c hc => hs c (by simp [hc])

theorem Chain.insert {p : Option α} {l₁ l₂ : List α} {a b : α}
    (h : Chain succ p (l₁ ++ a :: l₂)) (ha : succ' a = some b) (hb : succ' b = succ a)
    (hs : ∀ c ∈ l₁ ++ l₂, succ' c = succ c) : Chain succ' p (l₁ ++ a :: b :: l₂) := by
  obtain ⟨h₁, h₂⟩ := seg_append_cons.1 h
  refine seg_append_cons.2 ⟨h₁.congr fun c hc => hs c (by simp [hc]), ha, ?_⟩
  rw [hb]
  exact Seg.congr h₂ fun c hc => hs c (by simp [hc])

theorem Chain.cut {p : Option α} {l₁ l₂ : List α} {a : α} (h : Chain succ p (l₁ ++ a :: l₂))
    (ha : succ' a = none) (hs : ∀ b ∈ l₁ ++ l₂, succ' b = succ b) :
    Chain succ' p (l₁ ++ [a]) ∧ succ a = l₂.head? ∧ Chain succ' l₂.head? l₂ := by
  obtain ⟨h₁, h₂⟩ := seg_append_cons.1 h
  refine ⟨seg_concat.2 ⟨h₁.congr fun b hb => hs b (by simp [hb]), ha⟩, Chain.head_eq h₂, ?_⟩
  rw [← Chain.head_eq h₂]
  exact Seg.congr h₂ fun b hb => hs b (by simp [hb])

/-- Linking a chain behind the last node of another. -/
theorem Chain.join {p q : Option α} {l₁ l₂ : List α} {a : α} (h₁ : Chain succ p (l₁ ++ [a]))
    (h₂ : Chain succ q l₂) (ha : succ' a = q) (hs : ∀ b ∈ l₁ ++ l₂, succ' b = succ b) :
    Chain succ' p (l₁ ++ a :: l₂) := by
  obtain ⟨hl, -⟩ := seg_concat.1 h₁
  refine seg_append_cons.2 ⟨hl.congr fun b hb => hs b (by simp [hb]), ?_⟩
  rw [ha]
  exact Seg.congr h₂ fun b hb => hs b (by simp [hb])

/-! ## The search loop -/

/-- `for (next = p; next != null && !stop(next); last = next, next = succ(next))`, returning
`(last, next)`. It gives `none` when the fuel runs out. -/
def scan (succ : α → Option α) (stop : α → Bool) :
    Nat → Option α → Option α → Option (Option α × Option α)
  | 0, _, _ => none
  | _ + 1, last, none => some (last, none)
  | fuel + 1, last, some a =>
      if stop a then some (last, some a) else scan succ stop fuel (some a) (succ a)

/-- On a chain shorter than the fuel the loop stops at the first node that meets `stop`. -/
theorem scan_chain {stop : α → Bool} {fuel : Nat} {last p : Option α} {l : List α}
    (h : Chain succ p l) (hf : l.length < fuel) :
    ∃ l₁ l₂, l = l₁ ++ l₂ ∧ (∀ a ∈ l₁, stop a = false) ∧ (∀ a ∈ l₂.head?, stop a = true) ∧
      scan succ stop fuel last p = some (l₁.getLast?.or last, l₂.head?) := by
  induction l generalizing p fuel last with
  | nil =>
      obtain ⟨fuel, rfl⟩ : ∃ k, fuel = k + 1 := ⟨fuel - 1, by simp at hf; omega⟩
      obtain rfl : p = none := h
      exact ⟨[], [], rfl, by simp, by simp, by simp [scan]⟩
  | cons a l ih =>
      obtain ⟨fuel, rfl⟩ : ∃ k, fuel = k + 1 := ⟨fuel - 1, by simp at hf; omega⟩
      obtain ⟨rfl, hl⟩ := h
      by_cases hstop : stop a = true
      · exact ⟨[], a :: l, rfl, by simp, by simpa using hstop, by simp [scan, hstop]⟩
      · obtain ⟨l₁, l₂, rfl, h₁, h₂, hscan⟩ :=
          @ih fuel (some a) _ hl (by simpa using hf)
        refine ⟨a :: l₁, l₂, rfl, ?_, h₂, ?_⟩
        · intro b hb
          rcases List.mem_cons.1 hb with rfl | hb
          · simpa using hstop
          · exact h₁ b hb
        · simp only [scan, hstop, Bool.false_eq_true, if_false, hscan]
          cases l₁ <;> simp [List.getLast?_cons]

/-- Without a stopping node the loop runs to the end of the chain. -/
theorem scan_chain_none {stop : α → Bool} {fuel : Nat} {last p : Option α} {l : List α}
    (h : Chain succ p l) (hf : l.length < fuel) (hno : ∀ a ∈ l, stop a = false) :
    scan succ stop fuel last p = some (l.getLast?.or last, none) := by
  obtain ⟨l₁, l₂, rfl, -, h₂, hscan⟩ := @scan_chain α succ stop fuel last p l h hf
  cases l₂ with
  | nil => simpa using hscan
  | cons b l₂ =>
      have hb := h₂ b (by simp)
      rw [hno b (by simp)] at hb
      exact absurd hb (by simp)

end Support
