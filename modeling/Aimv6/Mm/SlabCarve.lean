import Aimv6.Mm.Slab
import Aimv6.Mm.PagesSpec

/-! # Carving a pool into slots

The loop of `pool_segm` walks the pool in steps of the larger of size and
alignment and pushes every aligned slot on the pool's free-object list. The
slots do not overlap, lie between the first candidate and the end of the pool,
and nothing else in memory changes except the list head.
-/

namespace Aimv6.Mm

open Support

/-- The addresses of one pool's slots, most recently pushed first. -/
structure Carved (lo lim osize align : Nat) (slots : List Nat) : Prop where
  inside : ∀ p ∈ slots, lo ≤ p ∧ p + osize ≤ lim
  stride : ∀ p ∈ slots, ∃ k, p = lo + k * (if osize > align then osize else align)
  aligned : ∀ p ∈ slots, align = 0 ∨ p &&& (align - 1) = 0
  apart : slots.Pairwise fun p q => q + osize ≤ p

theorem Carved.nil (lo lim osize align : Nat) : Carved lo lim osize align [] :=
  ⟨by simp, by simp, by simp, List.Pairwise.nil⟩

theorem Carved.cons {lo lim osize align i : Nat} {slots : List Nat}
    (h : Carved lo lim osize align slots) (hlo : lo ≤ i) (hfit : i + osize ≤ lim)
    (hk : ∃ k, i = lo + k * (if osize > align then osize else align))
    (hal : align = 0 ∨ i &&& (align - 1) = 0) (hbelow : ∀ p ∈ slots, p + osize ≤ i) :
    Carved lo lim osize align (i :: slots) := by
  refine ⟨?_, ?_, ?_, List.Pairwise.cons hbelow h.apart⟩
  · intro p hp
    rcases List.mem_cons.1 hp with rfl | hp
    · exact ⟨hlo, hfit⟩
    · exact h.inside p hp
  · intro p hp
    rcases List.mem_cons.1 hp with rfl | hp
    · exact hk
    · exact h.stride p hp
  · intro p hp
    rcases List.mem_cons.1 hp with rfl | hp
    · exact hal
    · exact h.aligned p hp

/-- The test of the loop, where `align - 1` wraps for no alignment at all. -/
theorem aligned_iff {align i : Nat} (h : align < 4294967296) :
    (align = 0 ∨ i &&& sub32 align 1 = 0) ↔ (align = 0 ∨ i &&& (align - 1) = 0) := by
  by_cases hz : align = 0
  · simp [hz]
  · rw [sub32_of_le h (by omega)]

theorem pushObj_word_ne {s : State} {v i a : Nat} (hi : i + 4 ≤ a ∨ a + 4 ≤ i)
    (hv : v + 8 + 4 ≤ a ∨ a + 4 ≤ v + 8) : (s.pushObj v i).word a = s.word a := by
  unfold State.pushObj State.setObjHead State.setNextObj
  rw [State.word_setWord_ne _ hv, State.word_setWord_ne _ hi]

/-- Pushing an object that is not on the list, away from the list head. -/
theorem pushObj_chain {s : State} {v i : Nat} {slots : List Nat} (hpos : 0 < i)
    (hlt : i < 4294967296) (hvi : v + 12 ≤ i ∨ i + 4 ≤ v + 8)
    (h : Chain s.nextObj (s.objHead v) slots)
    (hslots : ∀ p ∈ slots, (p + 4 ≤ i ∨ i + 4 ≤ p) ∧ (v + 12 ≤ p ∨ p + 4 ≤ v + 8)) :
    Chain (s.pushObj v i).nextObj ((s.pushObj v i).objHead v) (i :: slots) := by
  have hhead : (s.pushObj v i).objHead v = some i := by
    unfold State.pushObj State.setObjHead State.objHead
    rw [ptrVal_some, State.word_setWord_same _ hlt]
    exact ptr_of_pos hpos
  have hnext : (s.pushObj v i).nextObj i = s.objHead v := by
    unfold State.pushObj State.setObjHead State.nextObj State.objHead State.setNextObj
    rw [State.word_setWord_ne _ (by omega), State.word_setWord_same _ (by
      rw [ptrVal_ptr]
      exact State.word_lt s _), ptrVal_ptr]
  refine ⟨hhead, ?_⟩
  rw [hnext]
  refine Seg.congr h fun p hp => ?_
  have hpi := hslots p hp
  exact congrArg ptr (pushObj_word_ne (by omega) (by omega))

theorem segmLoop_spec {v lim osize align lo : Nat} (hos : 4 ≤ osize) (hlo : v + 16 ≤ lo)
    (hlim : lim + (if osize > align then osize else align) < 4294967296)
    {fuel : Nat} {s : State} {i : Nat} {slots : List Nat} (hfuel : lim - i < fuel)
    (hi : i + osize < 4294967296) (hloi : lo ≤ i)
    (hk : ∃ k, i = lo + k * (if osize > align then osize else align))
    (hchain : Chain s.nextObj (s.objHead v) slots) (hc : Carved lo lim osize align slots)
    (hbelow : ∀ p ∈ slots, p + osize ≤ i) :
    ∃ s' slots', segmLoop v lim osize align fuel s i = .ok s' ∧
      Chain s'.nextObj (s'.objHead v) slots' ∧ Carved lo lim osize align slots' ∧
      (slots ≠ [] ∨ (i + osize ≤ lim ∧ (align = 0 ∨ i &&& (align - 1) = 0)) → slots' ≠ []) ∧
      s'.fareaHead = s.fareaHead ∧ s'.slbHead = s.slbHead ∧
      AgreeOn {b | ¬ (v + 8 ≤ b ∧ b < v + 12) ∧ ¬ (lo ≤ b ∧ b < lim)} s.mem s'.mem := by
  induction fuel generalizing s i slots with
  | zero => omega
  | succ fuel ih =>
      have hadd : add32 i osize = i + osize := add32_of_lt hi
      have halign : align < 4294967296 := by
        split at hlim <;> omega
      by_cases hfit : i + osize ≤ lim
      · have hnext : add32 i (if osize > align then osize else align) =
            i + (if osize > align then osize else align) := add32_of_lt (by omega)
        have hstep : osize ≤ (if osize > align then osize else align) := by
          split <;> omega
        obtain ⟨k, hk⟩ := hk
        have hk' : i + (if osize > align then osize else align) =
            lo + (k + 1) * (if osize > align then osize else align) := by
          rw [Nat.add_mul, Nat.one_mul]
          omega
        by_cases hal : align = 0 ∨ i &&& sub32 align 1 = 0
        · have hchain' := pushObj_chain (s := s) (v := v) (i := i) (by omega) (by omega) (by omega)
            hchain (fun p hp => by
              have h₁ := hbelow p hp
              have h₂ := (hc.inside p hp).1
              omega)
          have hc' : Carved lo lim osize align (i :: slots) :=
            hc.cons hloi hfit ⟨k, hk⟩ ((aligned_iff halign).1 hal) hbelow
          obtain ⟨s', slots', hrun, hch, hcv, hne, hfa, hsl, hag⟩ :=
            ih (s := s.pushObj v i) (i := i + (if osize > align then osize else align))
              (by omega) (by omega) (by omega) ⟨k + 1, hk'⟩ hchain' hc' (by
                intro p hp
                rcases List.mem_cons.1 hp with rfl | hp
                · omega
                · have := hbelow p hp
                  omega)
          refine ⟨s', slots', ?_, hch, hcv, fun _ => hne (Or.inl (by simp)), hfa, hsl, ?_⟩
          · rw [segmLoop, hadd, if_pos hfit, if_pos hal, hnext]
            exact hrun
          · refine AgreeOn.trans (fun b hb => ?_) hag
            have h₁ := hb.1
            have h₂ := hb.2
            exact (store32_apply_of_outside (by omega)).trans (store32_apply_of_outside (by omega))
        · obtain ⟨s', slots', hrun, hch, hcv, hne, hfa, hsl, hag⟩ :=
            ih (s := s) (i := i + (if osize > align then osize else align))
              (by omega) (by omega) (by omega) ⟨k + 1, hk'⟩ hchain hc
              (fun p hp => by have := hbelow p hp; omega)
          refine ⟨s', slots', ?_, hch, hcv, ?_, hfa, hsl, hag⟩
          · rw [segmLoop, hadd, if_pos hfit, if_neg hal, hnext]
            exact hrun
          · rintro (hs | ⟨-, haligned⟩)
            · exact hne (Or.inl hs)
            · exact absurd ((aligned_iff halign).2 haligned) hal
      · refine ⟨s, slots, ?_, hchain, hc, ?_, rfl, rfl, AgreeOn.refl _ _⟩
        · rw [segmLoop, hadd, if_neg hfit]
        · rintro (hs | ⟨hle, -⟩)
          · exact hs
          · exact absurd hle hfit

end Aimv6.Mm
