import Mathlib.Data.List.Rotate

/-! # A rota with newcomers

The first of a list has the turn. A tick gives it to the next one and sends the
first to the end; a newcomer joins at the end. Whoever stands behind `i` others
keeps his place in front of all newcomers, so he waits for `i` ticks.
-/

namespace Support

variable {α ε : Type*} {l : List α} {a : α} {i : Nat}

inductive RotaMove (α : Type*) where
  | tick
  | join (a : α)
  | rest

namespace RotaMove

def isTick : RotaMove α → Bool
  | tick => true
  | _ => false

def apply (l : List α) : RotaMove α → List α
  | tick => l.rotate 1
  | join a => l ++ [a]
  | rest => l

theorem tick_apply (a : α) (l : List α) : tick.apply (a :: l) = l ++ [a] := by
  show (a :: l).rotate 1 = l ++ [a]
  rw [List.rotate_cons_succ, List.rotate_zero]

theorem join_apply (a : α) (l : List α) : (join a).apply l = l ++ [a] := rfl

/-- What is not a tick lets everybody stand where he stands. -/
theorem apply_kept {m : RotaMove α} (hm : m.isTick = false) (h : l[i]? = some a) :
    (m.apply l)[i]? = some a := by
  have hi : i < l.length := (List.getElem?_eq_some_iff.1 h).1
  cases m with
  | tick => simp [isTick] at hm
  | join b =>
      rw [join_apply, List.getElem?_append_left hi]
      exact h
  | rest => exact h

/-- A tick brings everybody but the first one place forward. -/
theorem apply_tick {m : RotaMove α} (hm : m.isTick = true) (h : l[i + 1]? = some a) :
    (m.apply l)[i]? = some a := by
  cases m with
  | tick =>
      cases l with
      | nil => exact absurd h (by simp)
      | cons b l =>
          rw [List.getElem?_cons_succ] at h
          have hi : i < l.length := (List.getElem?_eq_some_iff.1 h).1
          rw [tick_apply, List.getElem?_append_left hi]
          exact h
  | join b => simp [isTick] at hm
  | rest => simp [isTick] at hm

/-- After at most `i` ticks the one at place `i` stands as many places further in front. -/
theorem place {ms : List (RotaMove α)} (h : l[i]? = some a) (hticks : ms.countP isTick ≤ i) :
    (ms.foldl apply l)[i - ms.countP isTick]? = some a := by
  induction ms generalizing l i with
  | nil => exact h
  | cons m ms ih =>
      rw [List.foldl_cons]
      by_cases hm : m.isTick = true
      · rw [List.countP_cons_of_pos hm] at hticks ⊢
        obtain ⟨j, rfl⟩ : ∃ j, i = j + 1 := ⟨i - 1, by omega⟩
        rw [Nat.add_sub_add_right]
        exact ih (apply_tick hm h) (by omega)
      · rw [List.countP_cons_of_neg hm] at hticks ⊢
        exact ih (apply_kept (by simpa using hm) h) hticks

end RotaMove

/-- The event that is the one behind `i` others of its kind ends a part of the list. -/
theorem countP_split {p : ε → Bool} {es : List ε} (h : i < es.countP p) :
    ∃ es₁ e es₂, es = es₁ ++ e :: es₂ ∧ p e = true ∧ es₁.countP p = i := by
  induction es generalizing i with
  | nil => exact absurd h (by simp)
  | cons e es ih =>
      by_cases he : p e = true
      · rw [List.countP_cons_of_pos he] at h
        cases i with
        | zero => exact ⟨[], e, es, rfl, he, rfl⟩
        | succ i =>
            obtain ⟨es₁, e', es₂, rfl, he', hcount⟩ := ih (i := i) (by omega)
            refine ⟨e :: es₁, e', es₂, rfl, he', ?_⟩
            rw [List.countP_cons_of_pos he, hcount]
      · rw [List.countP_cons_of_neg he] at h
        obtain ⟨es₁, e', es₂, rfl, he', hcount⟩ := ih h
        refine ⟨e :: es₁, e', es₂, rfl, he', ?_⟩
        rw [List.countP_cons_of_neg he, hcount]

end Support
