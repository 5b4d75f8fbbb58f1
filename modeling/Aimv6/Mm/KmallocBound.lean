import Aimv6.Mm.KmallocBlock

/-! # The size that `kmalloc` and `kmfree` agree on

`up_bound` gives the least power of two with room for the block and its size
word. `kmfree` has only the size word to compute it from again.
-/

namespace Aimv6.Mm

open Support

/-- The powers of two with room for `size` bytes and the size word. -/
def boundsOf (size : Nat) : Set Nat := {b | (∃ k, b = 2 ^ k) ∧ size + 4 ≤ b}

theorem upBound_least {size : Nat} (hsize : size + 4 ≤ 2147483648) :
    ∃ b, upBound size = .ok b ∧ IsLeast (boundsOf size) b := by
  obtain ⟨t, ht, hrun, hle⟩ := upBound_below hsize
  refine ⟨2 ^ t, hrun, ⟨⟨t, rfl⟩, hle⟩, ?_⟩
  rintro b ⟨⟨k, rfl⟩, hk⟩
  by_cases hsmall : k ≤ 31
  · -- the loop stops at `2 ^ k` at the latest
    obtain ⟨t', ht', hrun', -⟩ := upBound_at_most hsmall hk
    rw [Except.ok.inj (hrun.symm.trans hrun')]
    exact Nat.pow_le_pow_right (by decide) ht'
  · exact Nat.pow_le_pow_right (by decide) (by omega)

theorem boundsOf_anti {a b : Nat} (h : a ≤ b) : boundsOf b ⊆ boundsOf a := by
  rintro c ⟨hpow, hle⟩
  exact ⟨hpow, by omega⟩

/-! ## What the slab allocator returns is an address -/

theorem State.takeObj_lt {s s' : State} {pool p : Nat} (h : s.takeObj pool = .ok (some p, s')) :
    p < 4294967296 := by
  unfold State.takeObj at h
  cases hobj : s.objHead pool with
  | none =>
      rw [hobj] at h
      exact absurd h (by simp)
  | some obj =>
      rw [hobj] at h
      obtain rfl := Option.some.inj (Prod.mk.inj (Except.ok.inj h)).1
      unfold State.objHead at hobj
      rw [← (ptr_eq_some.1 hobj).1]
      exact word_lt s _

theorem allocRec_no_descriptor {s : State} {size align depth : Nat}
    (hslab : scan s.nextSlb (fun d => decide (s.objAlign d = keyAlign size align ∧
      s.objSize d = keySize size)) walkFuel none s.slbHead = none) :
    slbAllocAlignRec (depth + 1) s size align = .error .diverge := by
  unfold keyAlign keySize at hslab
  rw [slbAllocAlignRec, hslab]
  rfl

theorem allocRec_no_pool {s : State} {size align depth d : Nat} {last : Option Nat}
    (hslab : scan s.nextSlb (fun d => decide (s.objAlign d = keyAlign size align ∧
      s.objSize d = keySize size)) walkFuel none s.slbHead = some (last, some d))
    (hpool : scan s.nextPool (fun v => (s.objHead v).isSome) walkFuel none (s.poolHead d) = none) :
    slbAllocAlignRec (depth + 1) s size align = .error .diverge := by
  unfold keyAlign keySize at hslab
  rw [slbAllocAlignRec, hslab, Res.ofFuel_some, Res.ok_bind]
  dsimp only
  rw [hpool]
  rfl

theorem slbAllocAlignRec_lt {depth size align p : Nat} {s s' : State}
    (h : slbAllocAlignRec depth s size align = .ok (some p, s')) : p < 4294967296 := by
  induction depth generalizing s size align p s' with
  | zero => exact absurd h (by simp [slbAllocAlignRec])
  | succ depth ih =>
      cases hslab : scan s.nextSlb (fun d => decide (s.objAlign d = keyAlign size align ∧
          s.objSize d = keySize size)) walkFuel none s.slbHead with
      | none =>
          rw [allocRec_no_descriptor hslab] at h
          exact absurd h (by simp)
      | some found =>
          obtain ⟨last, slb⟩ := found
          cases slb with
          | none =>
              rw [allocRec_miss hslab] at h
              obtain ⟨⟨slb, t⟩, -, h⟩ := Res.bind_eq_ok.1 h
              cases slb with
              | none => exact absurd h (by simp)
              | some slb =>
                  obtain ⟨⟨pool, u⟩, -, h⟩ := Res.bind_eq_ok.1 h
                  cases pool with
                  | none =>
                      obtain ⟨c, -, h⟩ := Res.bind_eq_ok.1 h
                      exact absurd h (by simp)
                  | some pool => exact ih h
          | some d =>
              cases hpool : scan s.nextPool (fun v => (s.objHead v).isSome) walkFuel none
                  (s.poolHead d) with
              | none =>
                  rw [allocRec_no_pool hslab hpool] at h
                  exact absurd h (by simp)
              | some held =>
                  obtain ⟨last', pool⟩ := held
                  cases pool with
                  | some v =>
                      rw [allocRec_found hslab hpool] at h
                      exact State.takeObj_lt h
                  | none =>
                      rw [allocRec_grow hslab hpool] at h
                      obtain ⟨⟨pool, u⟩, -, h⟩ := Res.bind_eq_ok.1 h
                      cases pool with
                      | none => exact absurd h (by simp)
                      | some v => exact State.takeObj_lt h

theorem slbAlloc_lt {size p : Nat} {s s' : State} (h : slbAlloc s size = .ok (some p, s')) :
    p < 4294967296 :=
  slbAllocAlignRec_lt h

/-! ## The round trip -/

/-- For sizes up to `2 ^ 31 - 4` the loop of `up_bound` ends at the least power of two with room for
the size and its word, larger sizes have larger bounds, and `kmfree` asks the slab allocator for the
size that `kmalloc` asked it for, as long as the word in front of the block is as `kmalloc` left
it. -/
theorem kmalloc_bound_kept (size : Nat) (hsize : size + 4 ≤ 2147483648) :
    ∃ b, upBound size = .ok b ∧ IsLeast (boundsOf size) b ∧
      (∀ size' ≤ size, ∃ b' ≤ b, upBound size' = .ok b') ∧
      ∀ (s s₁ : State) (q : Nat), kmalloc s size = .ok (some q, s₁) →
        ∃ p t, slbAlloc s b = .ok (some p, t) ∧ q = add32 p 4 ∧ s₁ = t.setWord p size ∧
          s₁.word p = size ∧
          ∀ s' : State, s'.word p = s₁.word p → kmfree s' q = slbFree s' p b := by
  obtain ⟨b, hrun, hleast⟩ := upBound_least hsize
  refine ⟨b, hrun, hleast, fun size' hle => ?_, fun s s₁ q hcall => ?_⟩
  · obtain ⟨b', hrun', hleast'⟩ := @upBound_least size' (by omega)
    exact ⟨b', hleast'.2 (boundsOf_anti hle hleast.1), hrun'⟩
  · obtain ⟨p, t, halloc, rfl, rfl⟩ := kmalloc_of_some hrun hcall
    have hword : (t.setWord p size).word p = size := t.word_setWord_same (by omega)
    refine ⟨p, t, halloc, rfl, rfl, hword, fun s' hkept => ?_⟩
    exact kmfree_eq (slbAlloc_lt halloc) (hkept.trans hword) hrun

/-- The block of 600 bytes that the first call after start-up returns. -/
theorem kmalloc_bound_kept_sample : ∃ (s s₁ : State) (q p b : Nat),
    kmalloc s 600 = .ok (some q, s₁) ∧ upBound 600 = .ok b ∧ kmfree s₁ q = slbFree s₁ p b := by
  obtain ⟨q, hq⟩ := Option.isSome_iff_exists.1 SlabSystem.kmalloc_sizes_return.1
  obtain ⟨S, -, hbind⟩ := Option.bind_eq_some_iff.1 hq
  obtain ⟨⟨res, s₁⟩, hres, hsome⟩ := Option.bind_eq_some_iff.1 hbind
  obtain rfl : res = some q := hsome
  have hcall := Res.toOption_eq_some.1 hres
  obtain ⟨b, hb, -, -, hkept⟩ := kmalloc_bound_kept 600 (by decide)
  obtain ⟨p, t, -, -, -, -, hfree⟩ := hkept S.st s₁ q hcall
  exact ⟨S.st, s₁, q, p, b, hcall, hb, hfree s₁ rfl⟩

end Aimv6.Mm
