import Aimv6.Support.Chain

/-! # Linked queues with a tail pointer

A queue keeps the first and the last node of a chain. Appending goes through the
last node and never walks the chain; removing a node has to repair the first
pointer, the last pointer and the link of its predecessor.
-/

namespace Support

variable {α : Type*} {succ succ' : α → Option α}

/-- The queue with the pointers `head` and `tail` holds the nodes `l`, first to last. -/
structure Fifo (succ : α → Option α) (head tail : Option α) (l : List α) : Prop where
  chain : Chain succ head l
  last : tail = l.getLast?

namespace Fifo

variable {head tail : Option α} {l l₁ l₂ : List α} {a b : α}

theorem empty : Fifo succ none none [] := ⟨rfl, rfl⟩

theorem head_eq (h : Fifo succ head tail l) : head = l.head? := Chain.head_eq h.chain

theorem congr (h : Fifo succ head tail l) (hs : ∀ c ∈ l, succ' c = succ c) :
    Fifo succ' head tail l :=
  ⟨Seg.congr h.chain hs, h.last⟩

theorem single (hb : succ b = none) : Fifo succ (some b) (some b) [b] := ⟨⟨rfl, hb⟩, rfl⟩

theorem append (h : Fifo succ head tail (l ++ [a])) (ha : succ' a = some b) (hb : succ' b = none)
    (hs : ∀ c ∈ l, succ' c = succ c) : Fifo succ' head (some b) (l ++ [a, b]) := by
  constructor
  · have hl : Seg succ head l (some a) := (seg_concat.1 h.chain).1
    apply seg_append_cons.2 ⟨hl.congr hs, ?_⟩
    rw [ha]
    exact ⟨rfl, hb⟩
  · simp

theorem removeFirst (h : Fifo succ head tail (b :: l)) :
    Fifo succ (succ b) (if l = [] then none else tail) l := by
  refine ⟨h.chain.2, ?_⟩
  rw [h.last]
  cases l with
  | nil => rfl
  | cons c l => simp

/-- Removing the node behind `a`, whose link `a` takes over. -/
theorem removeBehind (h : Fifo succ head tail (l₁ ++ a :: b :: l₂)) (ha : succ' a = succ b)
    (hs : ∀ c ∈ l₁ ++ l₂, succ' c = succ c) :
    Fifo succ' head (if l₂ = [] then some a else tail) (l₁ ++ a :: l₂) := by
  refine ⟨Chain.unlink h.chain ha hs, ?_⟩
  rw [h.last]
  cases l₂ with
  | nil => simp
  | cons c l₂ => simp

end Fifo

end Support
