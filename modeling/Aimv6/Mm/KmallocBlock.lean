import Aimv6.Mm.SlabGrowth

/-! # The block that `kmalloc` returns

For sizes up to `2 ^ 30 - 4` the rounded size does not wrap, and a block lies with
its size word in one slot that nobody held. Above, the bound is `2 ^ 31`, for which
the loop that carves the pool has no end, or has wrapped around to at most 4.
-/

namespace Aimv6.Mm

open Support

namespace SlabSystem

/-- The block of `size` bytes at `q`, with the size word in front, lies in one slot `p` of one pool
of the state `s'`, which no object and no descriptor of `S` had a part of. -/
structure Block (S : SlabSystem) (V : View) (size q : Nat) (s' : State) : Prop where
  placed : ∃ V' l' d v p, SlabInv s' V' l' ∧ V'.Pool d v ∧ p ∈ V'.used v ∧ q = p + 4 ∧
    q + size ≤ p + V'.osize d ∧ v + 16 ≤ p ∧ p + V'.osize d ≤ v + s'.poolSize v ∧
    (∀ o ∈ S.live, o.ptr + o.size ≤ p ∨ p + V'.osize d ≤ o.ptr) ∧
    ∀ e ∈ V.slabs, e + 16 ≤ p ∨ p + V'.osize d ≤ e

/-- `kmalloc(size)` comes back with `NULL` or a whole block, or waits for pages. -/
def Whole (S : SlabSystem) (V : View) (size : Nat) : Prop :=
  kmalloc S.st size = .error .spin ∨ (∃ s', kmalloc S.st size = .ok (none, s')) ∨
    ∃ q s', kmalloc S.st size = .ok (some q, s') ∧ S.Block V size q s'

end SlabSystem

theorem SlabInv.alloc_large {s : State} {V : View} {l : List Extent} {size align : Nat}
    (h : SlabInv s V l)
    (hno : ∀ d ∈ V.slabs, V.align d = keyAlign size align → V.osize d ≠ keySize size)
    (hpages : poolBytes (keySize size) % 4096 = 0) (hlarge : 536870912 ≤ poolBytes (keySize size)) :
    slbAllocAlign s size align = .error .spin := by
  obtain ⟨depth, hdepth⟩ : ∃ k, walkFuel = k + 2 := ⟨4294967294, rfl⟩
  obtain ⟨last, hslab⟩ := h.scan_slabs_none _ _ hno
  unfold slbAllocAlign
  rw [hdepth, allocRec_miss hslab]
  rcases h.alloc_descriptor depth with hdesc | hstop
  · obtain ⟨d, s₁, V₁, l₁, v, hrun, -, -, -, -, -, -, -, hreps⟩ := hdesc
    have hpool := @poolAlloc_of_large _ l₁ (keySize size) (keyAlign size align)
      (hreps (keyAlign size align) (keySize size)) hpages hlarge
    rw [hrun, Res.ok_bind]
    dsimp only
    rw [hpool]
    rfl
  · rw [hstop.2]
    rfl

namespace SlabSystem

variable {S : SlabSystem} {V : View} {l : List Extent} {size : Nat}

/-- A store of a word into a live object is four stores of clients. -/
theorem run_setWord {o : Obj} {v : Nat} (ho : o ∈ S.live) (hsize : 4 ≤ o.size) :
    ∃ es, run step S es = some { S with st := S.st.setWord o.ptr v } := by
  have hstep : ∀ (T : SlabSystem) (i : Nat) (b : UInt8), T.live = S.live → i < 4 →
      T.step (.write (o.ptr + i) b) =
        some { T with st := { T.st with mem := store8 T.st.mem (o.ptr + i) b } } := by
    intro T i b hT hi
    refine if_pos ⟨o, ?_, by omega, by omega⟩
    rw [hT]
    exact ho
  refine ⟨[.write (o.ptr + 0) (UInt8.ofNat v), .write (o.ptr + 1) (UInt8.ofNat (v / 256)),
    .write (o.ptr + 2) (UInt8.ofNat (v / 65536)), .write (o.ptr + 3) (UInt8.ofNat (v / 16777216))],
    ?_⟩
  have hword : S.st.setWord o.ptr v = { S.st with mem := store32 S.st.mem o.ptr v } := rfl
  rw [hword, store32_eq_store8]
  refine run_cons.2 ⟨_, hstep S 0 _ rfl (by decide), run_cons.2 ⟨_, hstep _ 1 _ rfl (by decide),
    run_cons.2 ⟨_, hstep _ 2 _ rfl (by decide), run_cons.2 ⟨_, hstep _ 3 _ rfl (by decide), rfl⟩⟩⟩⟩

/-- Bounds up to `2 ^ 28`: a slot that nobody held, or no pages. -/
theorem Inv.kmalloc_small (h : S.Inv V l) {t : Nat} (ht : t ≤ 28)
    (hb : upBound size = .ok (2 ^ t)) (hle : size + 4 ≤ 2 ^ t) :
    kmalloc S.st size = .error .spin ∨
    ∃ q s', kmalloc S.st size = .ok (some q, s') ∧ S.Block V size q s' ∧
      ∃ es, run step S es = some ⟨s', ⟨q - 4, 2 ^ t, 0⟩ :: S.live⟩ := by
  have hsmall : 2 ^ t ≤ 2 ^ 28 := Nat.pow_le_pow_right (by decide) ht
  have hreq : Request (2 ^ t) 0 := ⟨by omega, by omega, Or.inl rfl⟩
  rcases h.slab.alloc_spec hreq.keyOk with hok | hno
  · obtain ⟨p, u, -, -, hcall, -⟩ := hok
    obtain ⟨V₁, l₁, ha, hI⟩ := h.alloc hreq hcall
    obtain ⟨d, v, hv, -, hos, hused, hnd, -⟩ := hI.object (List.mem_cons_self ..)
    have hsize : V₁.osize d = 2 ^ t := by
      rw [hos, hreq.keySize_eq]
      omega
    have hin := (hI.slab.layout.pool_ok d v hv).inside p (View.mem_slots.2 (Or.inr hused))
    have hbounds : 2155872272 ≤ p ∧ p + V₁.osize d ≤ 2667577344 :=
      hI.slab.layout.slot_bounds hv (View.mem_slots.2 (Or.inr hused))
    have hkeep : SlabInv (u.setWord p size) V₁ l₁ := by
      refine hI.slab.client hv hused hnd rfl rfl fun b hb => store32_apply_of_outside ?_
      have hout : ¬ (p ≤ b ∧ b < p + V₁.osize d) := hb
      omega
    have hsafe := hI.safe
    have hq : add32 p 4 = p + 4 := add32_of_lt (by omega)
    have hrun : kmalloc S.st size = .ok (some (p + 4), u.setWord p size) := by
      unfold kmalloc
      rw [hb, Res.ok_bind, show slbAlloc S.st (2 ^ t) = _ from hcall, ← hq]
      rfl
    refine Or.inr ⟨p + 4, u.setWord p size, hrun, ⟨V₁, l₁, d, v, p, hkeep, hv, hused, rfl, by omega,
      hin.1, ?_, fun o ho => ?_, fun e he => ?_⟩, ?_⟩
    · rw [(hkeep.stored.pool d v hv).size]
      exact hin.2
    · have hapart := List.rel_of_pairwise_cons hsafe.live_apart ho
      rw [hsize]
      exact hapart.symm
    · have hapart := hsafe.descriptors ⟨p, 2 ^ t, 0⟩ (List.mem_cons_self ..) e
        (ha.grows.key e he).1
      rw [hsize]
      exact hapart.symm
    · have halloc : S.step (.alloc (2 ^ t) 0) = some ⟨u, ⟨p, 2 ^ t, 0⟩ :: S.live⟩ := by
        unfold step
        dsimp only
        rw [if_pos hreq, hcall]
        rfl
      obtain ⟨es, hes⟩ := @run_setWord ⟨u, ⟨p, 2 ^ t, 0⟩ :: S.live⟩ ⟨p, 2 ^ t, 0⟩ size
        (List.mem_cons_self ..) (by show 4 ≤ 2 ^ t; omega)
      exact ⟨.alloc (2 ^ t) 0 :: es, run_cons.2 ⟨_, halloc, hes⟩⟩
  · refine Or.inl ?_
    unfold kmalloc
    rw [hb, Res.ok_bind, show slbAlloc S.st (2 ^ t) = _ from hno.2 (hreq.roomy (by omega))]
    rfl

/-- Bounds of `2 ^ 29` and `2 ^ 30`: the size of the pool wraps to one that no pages have. -/
theorem Inv.kmalloc_middle (h : S.Inv V l) {t : Nat} (ht : t = 29 ∨ t = 30)
    (hb : upBound size = .ok (2 ^ t)) : kmalloc S.st size = .error .spin := by
  have hspin : slbAllocAlign S.st (2 ^ t) 0 = .error .spin := by
    rcases ht with rfl | rfl
    · refine h.slab.alloc_large (fun d hd _ hos => ?_) (by decide) (by decide)
      have hsmall := (h.slab.layout.key_ok d hd).small
      rw [hos, show keySize (2 ^ 29) = 536870912 from rfl] at hsmall
      omega
    · refine h.slab.alloc_large (fun d hd _ hos => ?_) (by decide) (by decide)
      have hsmall := (h.slab.layout.key_ok d hd).small
      rw [hos, show keySize (2 ^ 30) = 1073741824 from rfl] at hsmall
      omega
  unfold kmalloc
  rw [hb, Res.ok_bind, show slbAlloc S.st (2 ^ t) = _ from hspin]
  rfl

theorem Block.size_le {q : Nat} {s' : State} (h : S.Block V size q s') : size ≤ 511705068 := by
  obtain ⟨V', l', d, v, p, hinv, hv, -, rfl, hfit, hlo, hhi, -⟩ := h.placed
  have hok := hinv.layout.pool_ok d v hv
  have hvlo := hok.lo
  have hvhi := hok.hi
  rw [(hinv.stored.pool d v hv).size] at hhi
  omega

/-- In every state that a run of the allocator reaches, `kmalloc(size)` for a size up to `2 ^ 30 - 4`
comes back with a whole block or waits for pages, and the state behind it is one that a run reaches.
A block that it returns for a larger size is never whole. -/
theorem kmalloc_block {s : State} {S₀ S : SlabSystem} {es : List SlabEvent}
    (hinit : init s = some S₀) (hrun : run step S₀ es = some S) :
    (∃ V l, S.Inv V l) ∧ ∀ V l, S.Inv V l → ∀ size < 4294967296,
      (size + 4 ≤ 1073741824 → S.Whole V size ∧ ∀ q s', kmalloc S.st size = .ok (some q, s') →
        ∃ b es', upBound size = .ok b ∧ run step S es' = some ⟨s', ⟨q - 4, b, 0⟩ :: S.live⟩) ∧
      (1073741824 < size + 4 → ∀ q s', kmalloc S.st size = .ok (some q, s') →
        ¬ S.Block V size q s') := by
  refine ⟨run_inv (init_inv hinit) hrun, fun V l hI size _ => ⟨fun hsize => ?_,
    fun hsize q s' _ hblock => ?_⟩⟩
  · obtain ⟨t, ht, hb, hle⟩ := @upBound_at_most 30 size (by decide) hsize
    by_cases hsmall : t ≤ 28
    · rcases hI.kmalloc_small hsmall hb hle with hspin | hmade
      · exact ⟨Or.inl hspin, fun q s' hq => absurd (hspin.symm.trans hq) (by simp)⟩
      · obtain ⟨q, s', hcall, hblock, hes⟩ := hmade
        refine ⟨Or.inr (Or.inr ⟨q, s', hcall, hblock⟩), fun q' t' hq' => ?_⟩
        obtain ⟨hq, rfl⟩ := Prod.mk.inj (Except.ok.inj (hcall.symm.trans hq'))
        obtain rfl := Option.some.inj hq
        obtain ⟨es', hes'⟩ := hes
        exact ⟨_, es', hb, hes'⟩
    · have hspin := hI.kmalloc_middle (by omega) hb
      exact ⟨Or.inl hspin, fun q s' hq => absurd (hspin.symm.trans hq) (by simp)⟩
  · have := hblock.size_le
    omega

theorem kmalloc_sizes_return : ((init PagesSystem.blank).bind fun S =>
    (kmalloc S.st 600).toOption.bind fun r => r.1).isSome = true ∧
    ((init PagesSystem.blank).bind fun S =>
      (kmalloc S.st 4294967295).toOption.bind fun r => r.1).isSome = true := by
  decide +kernel

theorem kmalloc_block_sample : ∃ (S : SlabSystem) (V : View), S.Whole V 600 := by
  obtain ⟨q, hq⟩ := Option.isSome_iff_exists.1 kmalloc_sizes_return.1
  obtain ⟨S, hinit, -⟩ := Option.bind_eq_some_iff.1 hq
  obtain ⟨⟨V, l, hI⟩, hall⟩ := @kmalloc_block _ S S [] hinit rfl
  exact ⟨S, V, ((hall V l hI 600 (by decide)).1 (by decide)).1⟩

theorem kmalloc_block_fails : ∃ (S : SlabSystem) (V : View) (l : List Extent),
    init PagesSystem.blank = some S ∧ S.Inv V l ∧ ¬ S.Whole V 4294967295 := by
  obtain ⟨q, hq⟩ := Option.isSome_iff_exists.1 kmalloc_sizes_return.2
  obtain ⟨S, hinit, hbind⟩ := Option.bind_eq_some_iff.1 hq
  obtain ⟨⟨res, s'⟩, hres, hsome⟩ := Option.bind_eq_some_iff.1 hbind
  obtain rfl : res = some q := hsome
  have hcall := Res.toOption_eq_some.1 hres
  obtain ⟨V, l, hI⟩ := init_inv hinit
  refine ⟨S, V, l, hinit, hI, fun hw => ?_⟩
  rcases hw with hspin | hnull | hblock
  · exact absurd (hcall.symm.trans hspin) (by simp)
  · obtain ⟨t, ht⟩ := hnull
    exact absurd (hcall.symm.trans ht) (by simp)
  · obtain ⟨q', t, -, hb⟩ := hblock
    exact absurd hb.size_le (by decide)

end SlabSystem

end Aimv6.Mm
