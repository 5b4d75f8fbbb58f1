import Aimv6.Mm.Space
import Mathlib.Order.CompletePartialOrder

/-! # Fresh memory

What the two allocators promise to `mmap.c`: the memory that they hand out was in
use by nobody, and nobody's bytes change. `Holds s U` says that clients hold the
bytes `U` in state `s`. New tables and pages are then fresh, zeroed and entered.
-/

namespace Aimv6.Mm

open Support

/-- An allocator handed out the `n` bytes at `a`. -/
structure Granted (Holds : State → Set Nat → Prop) (s : State) (U : Set Nat) (s' : State)
    (a n : Nat) : Prop where
  free : Disjoint U (Set.Ico a (a + n))
  holds : Holds s' (U ∪ Set.Ico a (a + n))
  kept : AgreeOn U s.mem s'.mem

/-- `slb_alloc_align` and `pages_alloc` return fresh memory. -/
structure Fresh (A : Allocators) (Holds : State → Set Nat → Prop) : Prop where
  table : ∀ s U p s', Holds s U → A.slbAllocAlign s PTE_L2SIZE PTE_L2ALIGN = .ok (p, s') →
    ∃ t, p = P2V t ∧ Managed 1024 t ∧ Granted Holds s U s' (P2V t) 1024
  page : ∀ s U p s', Holds s U → A.pagesAlloc s PAGE_L2SIZE = .ok (p, s') →
    Managed 4096 p ∧ Granted Holds s U s' (P2V p) 4096
  /-- clients may store into what they hold -/
  store : ∀ s U m, Holds s U → AgreeOn Uᶜ s.mem m → Holds { s with mem := m } U

variable {A : Allocators} {Holds : State → Set Nat → Prop} {s s' : State} {U : Set Nat} {a e n v : Nat}

theorem Fresh.setWord (h : Fresh A Holds) (hU : Holds s U) (ha : ∀ b, a ≤ b → b < a + 4 → b ∈ U) :
    Holds (s.setWord a v) U := by
  apply h.store s U _ hU
  refine store32_agreeOn fun b hb => ?_
  by_contra hc
  exact hb (ha b (by omega) (by omega))

theorem Fresh.memset (h : Fresh A Holds) (hU : Holds s U)
    (ha : ∀ b, a ≤ b → b < a + n → b ∈ U) : Holds (s.memset a n) U := by
  apply h.store s U _ hU
  intro b hb
  refine fillBytes_outside ?_
  by_contra hc
  exact hb (ha b (by omega) (by omega))

theorem memset_zero (h₁ : a ≤ e) (h₂ : e < a + n) : (s.memset a n).mem e = 0 := by
  obtain ⟨k, rfl⟩ := Nat.exists_eq_add_of_le h₁
  exact fillBytes_at (by omega)

theorem word_eq_zero (h : ∀ b, a ≤ b → b < a + 4 → s.mem b = 0) : s.word a = 0 := by
  unfold State.word load32
  rw [h a (by omega) (by omega), h (a + 1) (by omega) (by omega), h (a + 2) (by omega) (by omega),
    h (a + 3) (by omega) (by omega)]
  rfl

/-- A block of fresh memory, cleared and entered at `e`. -/
structure Entered (Holds : State → Set Nat → Prop) (s : State) (U : Set Nat) (e v a n : Nat)
    (s' : State) : Prop where
  free : Disjoint U (Set.Ico a (a + n))
  holds : Holds s' (U ∪ Set.Ico a (a + n))
  entry : s'.word e = v
  clear : ∀ b, a ≤ b → b < a + n → s'.mem b = 0
  kept : ∀ b ∈ U, b < e ∨ e + 4 ≤ b → s'.mem b = s.mem b

theorem Entered.word_kept {p : Nat} (h : Entered Holds s U e v a n s')
    (hp : ∀ b, p ≤ b → b < p + 4 → b ∈ U) (hne : p + 4 ≤ e ∨ e + 4 ≤ p) :
    s'.word p = s.word p :=
  load32_ext fun b h₁ h₂ => h.kept b (hp b h₁ h₂) (by omega)

theorem Fresh.entered (h : Fresh A Holds) (hg : Granted Holds s U s' a n)
    (he : ∀ b, e ≤ b → b < e + 4 → b ∈ U) (hv : v < 4294967296) :
    Entered Holds s U e v a n ((s'.memset a n).setWord e v) := by
  have hout : ∀ b ∈ U, b < a ∨ a + n ≤ b := by
    intro b hb
    by_contra hc
    exact Set.disjoint_left.1 hg.free hb ⟨by omega, by omega⟩
  refine ⟨hg.free, ?_, load32_store32_of_lt _ hv, fun b h₁ h₂ => ?_, fun b hb hne => ?_⟩
  · refine h.setWord (h.memset hg.holds fun b h₁ h₂ => Or.inr ⟨h₁, h₂⟩) fun b h₁ h₂ => ?_
    exact Or.inl (he b h₁ h₂)
  · have hne : b < e ∨ e + 4 ≤ b := by
      by_contra hc
      have := hout b (he b (by omega) (by omega))
      omega
    exact (store32_apply_of_outside hne).trans (memset_zero h₁ h₂)
  · exact (store32_apply_of_outside hne).trans ((fillBytes_outside (hout b hb)).trans (hg.kept b hb))

theorem Fresh.newTable_spec (h : Fresh A Holds) (hU : Holds s U)
    (he : ∀ b, e ≤ b → b < e + 4 → b ∈ U) (hrun : newTable A pattern1 e s = .ok s') :
    (ptel1Type (s.word e) ≠ 0 ∧ s' = s) ∨
    (ptel1Type (s.word e) = 0 ∧ ∃ t, Managed 1024 t ∧
      Entered Holds s U e (t + 481) (P2V t) 1024 s') := by
  unfold newTable at hrun
  by_cases htype : ptel1Type (s.word e) = 0
  · rw [if_pos htype] at hrun
    obtain ⟨⟨p, s₁⟩, halloc, hrun⟩ := Res.bind_eq_ok.1 hrun
    obtain ⟨t, hp, ht, hg⟩ := h.table s U p s₁ hU halloc
    have hhi := ht.hi
    have heq := Except.ok.inj hrun
    rw [hp, V2P_P2V (by omega), pattern1_or ht.aligned] at heq
    rw [← heq]
    refine Or.inr ⟨htype, t, ht, ?_⟩
    exact h.entered hg he (by omega)
  · rw [if_neg htype] at hrun
    exact Or.inl ⟨htype, (Except.ok.inj hrun).symm⟩

theorem Fresh.newPage_spec (h : Fresh A Holds) (hU : Holds s U)
    (he : ∀ b, e ≤ b → b < e + 4 → b ∈ U) (hrun : newPage A pattern2 e s = .ok s') :
    (ptel2Type (s.word e) ≠ 0 ∧ s' = s) ∨
    (ptel2Type (s.word e) = 0 ∧ ∃ f, Managed 4096 f ∧
      Entered Holds s U e (f + 1058) (P2V f) 4096 s') := by
  unfold newPage at hrun
  by_cases htype : ptel2Type (s.word e) = 0
  · rw [if_pos htype] at hrun
    obtain ⟨⟨f, s₁⟩, halloc, hrun⟩ := Res.bind_eq_ok.1 hrun
    obtain ⟨hf, hg⟩ := h.page s U f s₁ hU halloc
    have hhi := hf.hi
    obtain rfl := Except.ok.inj hrun
    refine Or.inr ⟨htype, f, hf, ?_⟩
    rw [pattern2_or hf.aligned]
    exact h.entered hg he (by omega)
  · rw [if_neg htype] at hrun
    exact Or.inl ⟨htype, (Except.ok.inj hrun).symm⟩

/-! ## An allocator that never takes memory back -/

/-- Hand out the next page above `0x802000`; its address stands in place of the list head. -/
def bumpAlloc (s : State) : Res (Nat × State) :=
  let p := s.fareaHead.getD 0x802000
  if p + 4096 ≤ 0x1f000000 then .ok (p, { s with fareaHead := some (p + 4096) })
  else .error .spin

def bumpAllocators : Allocators where
  slbAllocAlign s _ _ := bumpAlloc s >>= fun r => .ok (P2V r.1, r.2)
  pagesAlloc s _ := bumpAlloc s

/-- Clients hold bytes below the next page only. -/
structure HoldsBelow (s : State) (U : Set Nat) : Prop where
  aligned : s.fareaHead.getD 0x802000 % 4096 = 0
  lo : 0x802000 ≤ s.fareaHead.getD 0x802000
  below : ∀ b ∈ U, b < s.fareaHead.getD 0x802000 + 2147483648

theorem bumpAlloc_granted {p : Nat} (hU : HoldsBelow s U) (hn : n ≤ 4096)
    (hrun : bumpAlloc s = .ok (p, s')) :
    Managed 4096 p ∧ Granted HoldsBelow s U s' (P2V p) n := by
  obtain ⟨hal, hlo, hbelow⟩ := hU
  unfold bumpAlloc at hrun
  dsimp only at hrun
  generalize s.fareaHead.getD 0x802000 = q at hal hlo hbelow hrun
  split at hrun
  · obtain ⟨rfl, rfl⟩ := Prod.mk.inj (Except.ok.inj hrun)
    have hmanaged : Managed 4096 q := ⟨hal, by omega, by assumption⟩
    have hhi := hmanaged.hi
    refine ⟨hmanaged, ?_, ⟨?_, ?_, ?_⟩, AgreeOn.refl _ _⟩
    · rw [hmanaged.P2V_eq (by decide), Set.disjoint_left]
      intro b hb hc
      have h₁ := hbelow b hb
      have h₂ := hc.1
      omega
    · show (q + 4096) % 4096 = 0
      omega
    · show 0x802000 ≤ q + 4096
      omega
    · rw [hmanaged.P2V_eq (by decide)]
      intro b hb
      show b < q + 4096 + 2147483648
      rcases hb with hb | hb
      · have := hbelow b hb
        omega
      · have := hb.2
        omega
  · simp at hrun

theorem bumpAllocators_fresh : Fresh bumpAllocators HoldsBelow := by
  refine ⟨fun s U p s' hU hrun => ?_, fun s U p s' hU hrun => ?_, fun s U m hU _ => ?_⟩
  · unfold bumpAllocators at hrun
    obtain ⟨⟨t, s₁⟩, halloc, hpair⟩ := Res.bind_eq_ok.1 hrun
    obtain ⟨hp, rfl⟩ := Prod.mk.inj (Except.ok.inj hpair)
    obtain ⟨hok, hg⟩ := bumpAlloc_granted (n := 1024) hU (by decide) halloc
    have hhi := hok.hi
    have hal := hok.aligned
    exact ⟨t, hp.symm, ⟨by omega, hok.lo, by omega⟩, hg⟩
  · unfold bumpAllocators at hrun
    dsimp only at hrun
    exact bumpAlloc_granted hU (Nat.le_refl 4096) hrun
  · exact ⟨hU.aligned, hU.lo, hU.below⟩

end Aimv6.Mm
