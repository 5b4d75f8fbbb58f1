import Mathlib.Data.List.Basic
import Mathlib.Order.Lattice

/-! # Searches that are resumed by position

A search over items in increasing positions is called again and again with the
position of its last hit. Every call starts over: it passes by the hits up to
that position and gives up at the first miss behind a hit. What the calls
enumerate is the first block of hits.
-/

namespace Support

/-- How a call ends: at a new hit, at a miss behind a hit, or behind the last item. -/
inductive Found (ι : Type*) where
  | hit (i : ι)
  | left
  | ended
deriving DecidableEq

variable {ι α : Type*} [LinearOrder α]

/-- One call, for the items `l`, when a hit has been seen before them or not. -/
def search (pos : ι → α) (hit : ι → Bool) (last : α) : Bool → List ι → Found ι
  | _, [] => .ended
  | seen, i :: l =>
      if hit i then
        if last < pos i then .hit i else search pos hit last true l
      else if seen then .left else search pos hit last false l

/-- The hits of successive calls, and how the last call ends; nothing where the bound on the number of
calls is too small. -/
def enumerate (pos : ι → α) (hit : ι → Bool) (l : List ι) : Nat → α → Option (List ι × Found ι)
  | 0, _ => none
  | fuel + 1, last =>
      match search pos hit last false l with
      | .hit i => (enumerate pos hit l fuel (pos i)).map fun r => (i :: r.1, r.2)
      | .left => some ([], .left)
      | .ended => some ([], .ended)

variable {pos : ι → α} {hit : ι → Bool} {last : α} {l : List ι}

theorem search_skip {pre : List ι} (hpre : ∀ i ∈ pre, hit i = false) :
    search pos hit last false (pre ++ l) = search pos hit last false l := by
  induction pre with
  | nil => rfl
  | cons i pre ih =>
      rw [List.cons_append, search, hpre i (by simp)]
      exact ih fun j hj => hpre j (by simp [hj])

theorem search_none (hl : ∀ i ∈ l, hit i = false) : search pos hit last false l = .ended := by
  have hskip := @search_skip _ _ _ pos hit last [] l hl
  rwa [List.append_nil] at hskip

/-- The hits up to the last one are passed by. -/
theorem search_pass {block : List ι} (hblock : ∀ i ∈ block, hit i = true)
    (hlast : ∀ i ∈ block, pos i ≤ last) (seen : Bool) :
    search pos hit last seen (block ++ l) = search pos hit last (seen || !block.isEmpty) l := by
  induction block generalizing seen with
  | nil => simp
  | cons i block ih =>
      rw [List.cons_append, search, if_pos (hblock i (by simp)),
        if_neg (not_lt.2 (hlast i (by simp))),
        ih (fun j hj => hblock j (by simp [hj])) fun j hj => hlast j (by simp [hj])]
      simp

/-- Calls with too small a bound apart, the bound does not matter. -/
theorem enumerate_mono {fuel : Nat} {r : List ι × Found ι}
    (h : enumerate pos hit l fuel last = some r) (k : Nat) :
    enumerate pos hit l (fuel + k) last = some r := by
  induction fuel generalizing last r with
  | zero => exact absurd h (by simp [enumerate])
  | succ fuel ih =>
      rw [Nat.add_right_comm]
      unfold enumerate at h ⊢
      cases hs : search pos hit last false l with
      | hit i =>
          rw [hs] at h
          obtain ⟨r', hr', rfl⟩ := Option.map_eq_some_iff.1 h
          dsimp only
          rw [ih hr']
          rfl
      | left | ended =>
          rw [hs] at h
          exact h

theorem enumerate_unique {m n : Nat} {r r' : List ι × Found ι}
    (h : enumerate pos hit l m last = some r) (h' : enumerate pos hit l n last = some r') :
    r = r' := by
  have h₁ := enumerate_mono h n
  have h₂ := enumerate_mono h' m
  rw [Nat.add_comm] at h₂
  exact Option.some.inj (h₁.symm.trans h₂)

theorem enumerate_none (hl : ∀ i ∈ l, hit i = false) (fuel : Nat) :
    enumerate pos hit l (fuel + 1) last = some ([], .ended) := by
  rw [enumerate, search_none hl]

/-- How the calls behind the first block of hits end. -/
def endOf : List ι → Found ι
  | [] => .ended
  | _ :: _ => .left

/-- The calls enumerate what is left of the first block of hits. -/
theorem enumerate_block {pre done rest post : List ι} (hpre : ∀ i ∈ pre, hit i = false)
    (hblock : ∀ i ∈ done ++ rest, hit i = true) (hne : done ++ rest ≠ [])
    (hpost : ∀ i ∈ post.head?, hit i = false) (hdone : ∀ i ∈ done, pos i ≤ last)
    (hrest : ∀ i ∈ rest, last < pos i) (hsorted : rest.Pairwise fun i j => pos i < pos j) :
    enumerate pos hit (pre ++ (done ++ rest) ++ post) (rest.length + 1) last =
      some (rest, endOf post) := by
  induction rest generalizing done last with
  | nil =>
      rw [List.append_nil] at hblock hne
      rw [enumerate, List.append_nil, List.append_assoc, search_skip hpre, search_pass hblock hdone]
      have hseen : (false || !done.isEmpty) = true := by simpa using hne
      rw [hseen]
      cases post with
      | nil => rfl
      | cons i post =>
          have hi : ¬ hit i = true := by simp [hpost i rfl]
          rw [search, if_neg hi, if_pos rfl]
          rfl
  | cons i rest ih =>
      have hpass : ∀ j ∈ done, hit j = true := fun j hj => hblock j (by simp [hj])
      have hfound : search pos hit last false (pre ++ (done ++ i :: rest) ++ post) = .hit i := by
        rw [List.append_assoc, search_skip hpre, List.append_assoc, search_pass hpass hdone,
          List.cons_append, search, if_pos (hblock i (by simp)), if_pos (hrest i (by simp))]
      obtain ⟨hi, hsorted⟩ := List.pairwise_cons.1 hsorted
      have hnext := @ih (pos i) (done ++ [i]) (by simpa using hblock) (by simp) (by
        intro j hj
        rcases List.mem_append.1 hj with hj | hj
        · exact le_of_lt (lt_of_le_of_lt (hdone j hj) (hrest i (by simp)))
        · rw [List.mem_singleton.1 hj]) hi hsorted
      rw [List.append_assoc done, List.singleton_append] at hnext
      rw [List.length_cons, enumerate, hfound]
      dsimp only
      rw [hnext]
      rfl

theorem exists_block (hit : ι → Bool) (l : List ι) : ∃ block post, l = block ++ post ∧
    (∀ i ∈ block, hit i = true) ∧ ∀ i ∈ post.head?, hit i = false := by
  induction l with
  | nil => exact ⟨[], [], rfl, by simp, by simp⟩
  | cons i l ih =>
      cases hi : hit i with
      | false => exact ⟨[], i :: l, rfl, by simp, by simpa using hi⟩
      | true =>
          obtain ⟨block, post, rfl, hblock, hpost⟩ := ih
          exact ⟨i :: block, post, rfl, by simpa [hi] using hblock, hpost⟩

theorem exists_first_block (hex : ∃ i ∈ l, hit i = true) : ∃ pre block post,
    l = pre ++ block ++ post ∧ block ≠ [] ∧ (∀ i ∈ pre, hit i = false) ∧
      (∀ i ∈ block, hit i = true) ∧ ∀ i ∈ post.head?, hit i = false := by
  induction l with
  | nil => simp at hex
  | cons i l ih =>
      cases hi : hit i with
      | true =>
          obtain ⟨block, post, rfl, hblock, hpost⟩ := exists_block hit l
          exact ⟨[], i :: block, post, rfl, by simp, by simp, by simpa [hi] using hblock, hpost⟩
      | false =>
          obtain ⟨pre, block, post, rfl, hne, hpre, hblock, hpost⟩ := ih (by simpa [hi] using hex)
          exact ⟨i :: pre, block, post, rfl, hne, by simpa [hi] using hpre, hblock, hpost⟩

/-- The hits of a list and what a caller expects behind them: a miss, or without hits the end. -/
def hitsOf (hit : ι → Bool) (l : List ι) : List ι × Found ι :=
  (l.filter hit, if l.any hit then .left else .ended)

theorem hitsOf_none (hl : ∀ i ∈ l, hit i = false) : hitsOf hit l = ([], .ended) := by
  unfold hitsOf
  rw [List.filter_eq_nil_iff.2 (by simpa using hl), List.any_eq_false.2 (by simpa using hl)]
  rfl

theorem hitsOf_block {pre block post : List ι} (hpre : ∀ i ∈ pre, hit i = false)
    (hblock : ∀ i ∈ block, hit i = true) (hne : block ≠ []) :
    hitsOf hit (pre ++ block ++ post) = (block ++ post.filter hit, .left) := by
  obtain ⟨i, hi⟩ := List.exists_mem_of_ne_nil block hne
  have hany : (pre ++ block ++ post).any hit = true :=
    List.any_eq_true.2 ⟨i, by simp [hi], hblock i hi⟩
  unfold hitsOf
  rw [if_pos hany, List.filter_append, List.filter_append,
    List.filter_eq_nil_iff.2 (by simpa using hpre), List.filter_eq_self.2 hblock, List.nil_append]

/-- The hits are one block, and a miss follows it. -/
def OneBlock (hit : ι → Bool) (l : List ι) : Prop :=
  ∃ pre block i post, l = pre ++ block ++ i :: post ∧ block ≠ [] ∧
    (∀ j ∈ pre, hit j = false) ∧ (∀ j ∈ block, hit j = true) ∧ ∀ j ∈ i :: post, hit j = false

/-- From a position in front of all items the calls enumerate all hits and end as expected exactly
where there is none or all of them are one block with a miss behind it. -/
theorem enumerate_all_iff (hlast : ∀ i ∈ l, last < pos i)
    (hsorted : l.Pairwise fun i j => pos i < pos j) :
    (∃ fuel, enumerate pos hit l fuel last = some (hitsOf hit l)) ↔
      (∀ i ∈ l, hit i = false) ∨ OneBlock hit l := by
  have hrun : ∀ {pre block post : List ι}, l = pre ++ block ++ post → block ≠ [] →
      (∀ i ∈ pre, hit i = false) → (∀ i ∈ block, hit i = true) →
      (∀ i ∈ post.head?, hit i = false) →
      enumerate pos hit l (block.length + 1) last = some (block, endOf post) := by
    rintro pre block post rfl hne hpre hblock hpost
    have hinner := (List.pairwise_append.1 (List.pairwise_append.1 hsorted).1).2.1
    exact @enumerate_block _ _ _ pos hit last pre [] block post hpre hblock hne hpost (by simp)
      (fun i hi => hlast i (by simp [hi])) hinner
  constructor
  · rintro ⟨fuel, hfuel⟩
    by_cases hex : ∃ i ∈ l, hit i = true
    · right
      obtain ⟨pre, block, post, hl, hne, hpre, hblock, hpost⟩ := exists_first_block hex
      have hend := enumerate_unique (hrun hl hne hpre hblock hpost) hfuel
      rw [hl, hitsOf_block hpre hblock hne] at hend
      obtain ⟨hlist, hleft⟩ := Prod.mk.inj hend
      have hclean : ∀ i ∈ post, hit i = false := by
        have hnil : post.filter hit = [] := List.append_cancel_left (hlist.symm.trans (by simp))
        simpa using List.filter_eq_nil_iff.1 hnil
      cases post with
      | nil => exact absurd hleft (by simp [endOf])
      | cons i post => exact ⟨pre, block, i, post, hl, hne, hpre, hblock, hclean⟩
    · left
      simpa using hex
  · rintro (hnone | ⟨pre, block, i, post, hl, hne, hpre, hblock, hclean⟩)
    · exact ⟨1, by rw [enumerate_none hnone, hitsOf_none hnone]⟩
    · refine ⟨block.length + 1, ?_⟩
      rw [hrun hl hne hpre hblock (by simpa using hclean i (by simp)), hl,
        hitsOf_block hpre hblock hne, List.filter_eq_nil_iff.2 (by simpa using hclean),
        List.append_nil]
      rfl

end Support
