import Aimv6.Mm.EmptyPools

/-! # Requests for which there is no slot yet

Where no pool of its key has a free slot, a request makes a new pool, and for a
new key a descriptor before that. With an alignment that the pages cannot hold a
slot for, `slb_alloc_align` gives them back at the wrong address, keeps the
descriptor, or takes an object from an empty list.
-/

namespace Aimv6.Mm

open Support

/-- `p` is a slot with `size` bytes in a pool that `s` has on its lists, aligned as asked. -/
structure SlotAt (s : State) (size align p : Nat) : Prop where
  placed : ∃ V d v, Stored s V ∧ V.Pool d v ∧ p ∈ V.used v ∧ size ≤ V.osize d ∧
    v + 16 ≤ p ∧ p + V.osize d ≤ v + s.poolSize v
  aligned : align ∣ p

/-- The free pages and the descriptors are those of before. -/
structure NoTrace (s s' : State) : Prop where
  pages : ∀ l, Represents s l → Represents s' l
  slabs : ∀ V, Stored s V → Stored s' V

/-- The request is answered with a slot, or with `NULL` and nothing has changed. -/
def GrowsOrLeaves (s : State) (size align : Nat) : Prop :=
  (∃ p s', slbAllocAlign s size align = .ok (some p, s') ∧ SlotAt s' size align p) ∨
    ∃ s', slbAllocAlign s size align = .ok (none, s') ∧ NoTrace s s'

/-- There is a free slot with the key of the request, or pages that hold one. -/
structure Growable (V : View) (l : List Extent) (size align : Nat) : Prop where
  request : Request size align
  slot : (∃ d v, V.Pool d v ∧ V.align d = keyAlign size align ∧ V.osize d = keySize size ∧
      V.free v ≠ []) ∨
    (∃ d ∈ V.slabs, V.align d = keyAlign size align ∧ V.osize d = keySize size) ∧
      PoolFor l (keySize size) (keyAlign size align) ∨
    (∀ d ∈ V.slabs, V.align d = keyAlign size align → V.osize d ≠ keySize size) ∧
      ∃ l₁, V.slabPages l = some l₁ ∧ SlabFor l₁ (keySize size) (keyAlign size align)

theorem Stuck.not_growsOrLeaves {s : State} {l : List Extent} {size align : Nat}
    (hs : Stuck (slbAllocAlign s size align)) (h : Represents s l) :
    ¬ GrowsOrLeaves s size align := by
  intro hg
  rcases hg with hslot | hnull
  · obtain ⟨p, s', hrun, -⟩ := hslot
    exact hs.not_some p s' hrun
  · obtain ⟨s', hrun, htrace⟩ := hnull
    rcases hs with herr | hspoilt
    · obtain ⟨e, he⟩ := herr
      exact absurd (he.symm.trans hrun) (by simp)
    · obtain ⟨t, ht, hno⟩ := hspoilt
      obtain ⟨-, rfl⟩ := Prod.mk.inj (Except.ok.inj (ht.symm.trans hrun))
      exact hno l (htrace.pages l h)

namespace SlabInv

variable {s : State} {V : View} {l : List Extent} {size align : Nat}

/-- A request in the range of the allocator is answered with a slot exactly where there is one or
pages for one; elsewhere the call is stuck. -/
theorem alloc_fit (h : SlabInv s V l) (hreq : Request size align) :
    (Growable V l size align ∧ ∃ p s' V' l', slbAllocAlign s size align = .ok (some p, s') ∧
      Allocated V size align p s' V' l') ∨
    (¬ Growable V l size align ∧ Stuck (slbAllocAlign s size align)) := by
  obtain ⟨depth, hdepth⟩ : ∃ k, walkFuel = k + 2 := ⟨4294967294, rfl⟩
  unfold slbAllocAlign
  rw [hdepth]
  by_cases hex : ∃ d ∈ V.slabs, V.align d = keyAlign size align ∧ V.osize d = keySize size
  · obtain ⟨d, hd, hal, hos⟩ := hex
    rcases @alloc_hit_fit s V l d h size align (depth + 1) hd hal hos with hfree | hfull
    · obtain ⟨⟨v, hv, hne⟩, ⟨p, s', V', hrun, ha, -⟩⟩ := hfree
      exact Or.inl ⟨⟨hreq, Or.inl ⟨d, v, ⟨hd, hv⟩, hal, hos, hne⟩⟩, p, s', V', l, hrun, ha⟩
    · obtain ⟨hempty, hgrown | hstuck⟩ := hfull
      · obtain ⟨a, l', hfit, hfits, ⟨p, s', V', hrun, ha, -⟩⟩ := hgrown
        exact Or.inl ⟨⟨hreq, Or.inr (Or.inl ⟨⟨d, hd, hal, hos⟩, a, l', hfit, hfits⟩)⟩, p, s', V', l',
          hrun, ha⟩
      · obtain ⟨hno, hstuck, -⟩ := hstuck
        refine Or.inr ⟨fun hg => ?_, hstuck⟩
        rcases hg.slot with hslot | hpool | hslab
        · obtain ⟨e, v, hv, heal, heos, hne⟩ := hslot
          obtain rfl := h.layout.keys e hv.1 d hd (heal.trans hal.symm) (heos.trans hos.symm)
          exact hne (hempty v hv.2)
        · exact hno hpool.2
        · exact hslab.1 d hd hal hos
  · have hmiss : ∀ d ∈ V.slabs, V.align d = keyAlign size align → V.osize d ≠ keySize size :=
      fun d hd hal hos => hex ⟨d, hd, hal, hos⟩
    rcases @alloc_miss_fit s V l h size align depth hreq.keyOk hmiss with hmade | hstuck
    · exact Or.inl ⟨⟨hreq, Or.inr (Or.inr ⟨hmiss, hmade.1⟩)⟩, hmade.2⟩
    · refine Or.inr ⟨fun hg => ?_, hstuck.2.1⟩
      rcases hg.slot with hslot | hpool | hslab
      · obtain ⟨e, v, hv, heal, heos, -⟩ := hslot
        exact hmiss e hv.1 heal heos
      · exact hex hpool.1
      · exact hstuck.1 hslab.2

end SlabInv

theorem Allocated.slotAt {V V' : View} {s' : State} {l' : List Extent} {size align p : Nat}
    (h : Allocated V size align p s' V' l') (hreq : Request size align) (hal : align ≠ 0) :
    SlotAt s' size align p := by
  obtain ⟨d, pre, v, post, hd, hkal, hkos, hpools, -, hin⟩ := h.slot
  have hv : V'.Pool d v := ⟨hd, by simp [hpools]⟩
  have htaken : p ∈ V'.taken := by
    rcases h.taken with hold | hnew
    · simp [hold.1]
    · obtain ⟨e, ht, -⟩ := hnew
      simp [ht]
  have hused : p ∈ V'.used v := View.mem_used.2 ⟨htaken, hin⟩
  have hok := h.inv.layout.pool_ok d v hv
  have hslot := View.mem_slots.2 (Or.inr hused)
  have hinside := hok.inside p hslot
  refine ⟨⟨V', d, v, h.inv.stored, hv, hused, ?_, hinside.1, ?_⟩, ?_⟩
  · rw [hkos, hreq.keySize_eq]
    exact Nat.le_max_left size 4
  · rw [(h.inv.stored.pool d v hv).size]
    exact hinside.2
  · have hand := hok.aligned p hslot
    rw [hkal, keyAlign_ne _ hal] at hand
    obtain ⟨k, -, rfl⟩ := hreq.2.2.resolve_left hal
    rw [Nat.and_two_pow_sub_one_eq_mod] at hand
    exact Nat.dvd_of_mod_eq_zero hand

theorem SlabInv.alloc_top {s s' : State} {V : View} {l : List Extent} {size : Nat} {r : Option Nat}
    (h : SlabInv s V l) (hsize : 10 * size + 26 ≤ 4294963200) :
    slbAllocAlign s size (2 ^ 31) ≠ .ok (r, s') := by
  have hks : keySize size = max size 4 := maxInt_four (by omega)
  have hka : keyAlign size (2 ^ 31) = 2147483648 := keyAlign_ne size (by decide)
  refine h.alloc_without_pool (fun d hd hal _ => ?_) fun u l' hu c hc => ?_
  · have hle := (h.layout.key_ok d hd).align_ok.le
    rw [hal, hka] at hle
    omega
  · rw [hka] at hc
    exact poolAlloc_wraps hu (by omega) hc

namespace SlabSystem

/-- In every state that a run of answered requests reaches, a request for a slot aligned to a power of
two grows the allocator or leaves no trace exactly where `Growable` says so. -/
theorem slab_growth_iff {s : State} {S₀ S : SlabSystem} {es : List SlabEvent}
    (hinit : init s = some S₀) (hrun : run step S₀ es = some S) :
    (∃ V l, S.Inv V l) ∧ ∀ V l, S.Inv V l → ∀ size k, 1 ≤ size → 10 * size + 26 < 4294967296 →
      k ≤ 31 → (GrowsOrLeaves S.st size (2 ^ k) ↔ Growable V l size (2 ^ k)) := by
  refine ⟨run_inv (init_inv hinit) hrun, fun V l hI size k hpos hlt hk => ⟨fun hgrows => ?_,
    fun hg => ?_⟩⟩
  · by_cases hsize : 10 * size + 26 ≤ 4294963200
    · by_cases htop : k = 31
      · subst htop
        rcases hgrows with hslot | hnull
        · obtain ⟨p, s', hcall, -⟩ := hslot
          exact absurd hcall (hI.slab.alloc_top hsize)
        · obtain ⟨s', hcall, -⟩ := hnull
          exact absurd hcall (hI.slab.alloc_top hsize)
      · have hreq : Request size (2 ^ k) := ⟨hpos, by omega, Or.inr ⟨k, by omega, rfl⟩⟩
        rcases hI.slab.alloc_fit hreq with hmade | hstuck
        · exact hmade.1
        · exact absurd hgrows (hstuck.2.not_growsOrLeaves hI.slab.represents)
    · have hstuck := hI.slab.alloc_wrapped (by omega) hlt hk
      exact absurd hgrows (hstuck.not_growsOrLeaves hI.slab.represents)
  · have hne : 2 ^ k ≠ 0 := Nat.pos_iff_ne_zero.1 (Nat.two_pow_pos k)
    rcases hI.slab.alloc_fit hg.request with hmade | hstuck
    · obtain ⟨-, p, s', V', l', hcall, ha⟩ := hmade
      exact Or.inl ⟨p, s', hcall, ha.slotAt hg.request hne⟩
    · exact absurd hg hstuck.1

theorem alloc_eight_returns : ((init PagesSystem.blank).bind fun S =>
    (slbAllocAlign S.st 8 (2 ^ 3)).toOption.bind fun r => r.1).isSome = true := by
  decide +kernel

theorem slab_growth_iff_eight : ∃ S : SlabSystem, GrowsOrLeaves S.st 8 (2 ^ 3) := by
  obtain ⟨p, hp⟩ := Option.isSome_iff_exists.1 alloc_eight_returns
  obtain ⟨S, hinit, hbind⟩ := Option.bind_eq_some_iff.1 hp
  obtain ⟨⟨res, s'⟩, hres, hsome⟩ := Option.bind_eq_some_iff.1 hbind
  obtain rfl : res = some p := hsome
  obtain ⟨⟨V, l, hI⟩, hall⟩ := @slab_growth_iff _ S S [] hinit rfl
  refine ⟨S, (hall V l hI 8 3 (by decide) (by decide) (by decide)).2 ?_⟩
  rcases hI.slab.alloc_fit (by decide : Request 8 (2 ^ 3)) with hmade | hstuck
  · exact hmade.1
  · exact absurd (Res.toOption_eq_some.1 hres) (hstuck.2.not_some p s')

/-- After start-up, a byte aligned to two pages: the answer is `NULL`, and where the list of free
pages starts before and after. -/
theorem alloc_pages_returns : ((init PagesSystem.blank).bind fun S =>
    (slbAllocAlign S.st 1 (2 ^ 13)).toOption.map fun r =>
      (r.1, S.st.fareaHead, r.2.fareaHead)) =
    some (none, some 2155876352, some 2155880448) := by
  decide +kernel

theorem slab_growth_fails : ∃ S : SlabSystem, init PagesSystem.blank = some S ∧
    ¬ GrowsOrLeaves S.st 1 (2 ^ 13) := by
  obtain ⟨S, hinit, hmap⟩ := Option.bind_eq_some_iff.1 alloc_pages_returns
  obtain ⟨⟨res, s'⟩, hres, hval⟩ := Option.map_eq_some_iff.1 hmap
  obtain ⟨hnull, hheads⟩ := Prod.mk.inj hval
  obtain ⟨hbefore, hafter⟩ := Prod.mk.inj hheads
  obtain rfl : res = none := hnull
  have hcall := Res.toOption_eq_some.1 hres
  obtain ⟨V, l, hI⟩ := init_inv hinit
  refine ⟨S, hinit, fun hg => ?_⟩
  rcases hg with hslot | hnull
  · obtain ⟨p, t, hrun, -⟩ := hslot
    exact absurd (hcall.symm.trans hrun) (by simp)
  · obtain ⟨t, hrun, htrace⟩ := hnull
    obtain ⟨-, rfl⟩ := Prod.mk.inj (Except.ok.inj (hcall.symm.trans hrun))
    have hold := hI.slab.represents.head_eq
    have hnew := (htrace.pages l hI.slab.represents).head_eq
    have hsame := (hbefore.symm.trans hold).trans (hnew.symm.trans hafter)
    exact absurd hsame (by decide)

end SlabSystem

end Aimv6.Mm
