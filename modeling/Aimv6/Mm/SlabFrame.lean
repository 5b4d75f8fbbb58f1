import Aimv6.Mm.SlabFree

/-! # What the allocators write

The bytes that the two allocators keep for themselves are those of the free
pages, of the descriptors, of the pool headers and of the free slots. A call
writes nothing else, and what it keeps afterwards it kept before, without the
slot it hands out.
-/

namespace Aimv6.Mm

open Support

namespace View

def own (V : View) (l : List Extent) : Set Nat :=
  {b | b ∈ virt (covered l) ∨ b ∈ V.linkBytes ∨
    ∃ d v p, V.Pool d v ∧ p ∈ V.free v ∧ p ≤ b ∧ b < p + V.osize d}

def pooled (V : View) : Set Nat := {b | ∃ d v, V.Pool d v ∧ v ≤ b ∧ b < v + V.psize v}

end View

/-- From `s`, `V`, `l` a call led to `s'`, `V'`, `l'`. -/
structure Kept (s : State) (V : View) (l : List Extent) (s' : State) (V' : View)
    (l' : List Extent) : Prop where
  shrinks : V'.own l' ⊆ V.own l
  /-- pages become pools, and no page is lost -/
  conserved : V'.pooled ∪ virt (covered l') = V.pooled ∪ virt (covered l)
  pages : covered l' ⊆ covered l
  frame : AgreeOn (V.own l)ᶜ s.mem s'.mem

variable {s s' s₁ s₂ : State} {V V' V₁ V₂ : View} {l l' l₁ l₂ : List Extent} {d v p : Nat}

theorem Kept.trans (h : Kept s V l s₁ V₁ l₁) (h' : Kept s₁ V₁ l₁ s₂ V₂ l₂) : Kept s V l s₂ V₂ l₂ :=
  ⟨h'.shrinks.trans h.shrinks, h'.conserved.trans h.conserved, h'.pages.trans h.pages,
    h.frame.trans (h'.frame.mono (Set.compl_subset_compl.2 h.shrinks))⟩

theorem SlabInv.own_not_used (h : SlabInv s V l) (hv : V.Pool d v) (hp : p ∈ V.used v)
    (hnd : p ∉ V.slabs) {b : Nat} (hb : b ∈ V.own l) : ¬ (p ≤ b ∧ b < p + V.osize d) := by
  have hps : p ∈ V.slots v := View.mem_slots.2 (Or.inr hp)
  rcases hb with hb | hb | ⟨e, w, q, hw, hq, h₁, h₂⟩
  · have hok := h.layout.pool_ok d v hv
    have := hok.inside p hps
    exact fun hin => hok.fresh b (by omega) (by omega) hb
  · exact h.layout.link_not_taken hv hp hnd hb
  · have hne : p ≠ q := fun hc =>
      h.layout.free_not_taken hw hq (hc ▸ (View.mem_used.1 hp).1)
    have := h.layout.slot_apart hv hw hps (View.mem_slots.2 (Or.inl hq)) hne
    omega

theorem SlabInv.congr (h : SlabInv s V l) (hfa : s'.fareaHead = s.fareaHead)
    (hsl : s'.slbHead = s.slbHead) (hm : AgreeOn (V.own l) s.mem s'.mem) : SlabInv s' V l :=
  ⟨h.represents.congr hfa (hm.mono fun _ hb => Or.inl hb), h.layout,
    h.stored.congr hsl (hm.mono fun _ hb => Or.inr (Or.inl hb))⟩

theorem SlabInv.take_kept (h : SlabInv s V l) (hv : V.Pool d v) {rest : List Nat}
    (hfree : V.free v = p :: rest) (hrun : s.takeObj v = .ok (some p, s')) :
    Kept s V l s' (V.reslot v rest (p :: V.taken)) l := by
  obtain ⟨t, ht, -, -, -, hag⟩ := h.stored.take h.layout hv hfree
  obtain rfl : t = s' := by
    have := ht.symm.trans hrun
    simpa using this
  have hsub : ∀ w q, q ∈ (V.reslot v rest (p :: V.taken)).free w → q ∈ V.free w := by
    intro w q hq
    by_cases hwv : w = v
    · subst hwv
      rw [show (V.reslot w rest (p :: V.taken)).free w = rest from Function.update_self _ _ _] at hq
      simp [hfree, hq]
    · rwa [show (V.reslot v rest (p :: V.taken)).free w = V.free w from
        Function.update_of_ne hwv _ _] at hq
  refine ⟨fun b hb => ?_, rfl, Set.Subset.refl _, hag.mono fun b hb hin => ?_⟩
  · rcases hb with hb | (hd | ⟨e, w, hw, hin | ⟨q, hq, h₁, h₂⟩⟩) | ⟨e, w, q, hw, hq, h₁, h₂⟩
    · exact Or.inl hb
    · exact Or.inr (Or.inl (Or.inl hd))
    · exact Or.inr (Or.inl (Or.inr ⟨e, w, hw, Or.inl hin⟩))
    · exact Or.inr (Or.inl (Or.inr ⟨e, w, hw, Or.inr ⟨q, hsub w q hq, h₁, h₂⟩⟩))
    · exact Or.inr (Or.inr ⟨e, w, q, hw, hsub w q hq, h₁, h₂⟩)
  · exact hb (Or.inr (Or.inl (Or.inr ⟨d, v, hv, Or.inl hin⟩)))

theorem PoolMade.conserved {osize align : Nat} {slots : List Nat}
    (hm : PoolMade s l osize align v s' l' slots) :
    {b | v ≤ b ∧ b < v + poolBytes osize} ∪ virt (covered l') = virt (covered l) := by
  have hlo := hm.lo
  ext b
  rw [hm.taken]
  constructor
  · rintro (hb | ⟨h₁, h₂⟩)
    · exact hm.wasFree b hb.1 hb.2
    · exact ⟨h₁, h₂.1⟩
  · intro hb
    by_cases hin : v ≤ b ∧ b < v + poolBytes osize
    · exact Or.inl hin
    · refine Or.inr ⟨hb.1, hb.2, fun hico => hin ?_⟩
      have hk : KERNEL_BASE ≤ b := hb.1
      have h₁ := hico.1
      have h₂ := hico.2
      unfold KERNEL_BASE at hk h₁ h₂
      omega

theorem View.own_addPool {slots : List Nat} {psize : Nat} (hd : d ∈ V.slabs)
    (hpages : covered l' ⊆ covered l) (hfree : ∀ b, v ≤ b → b < v + psize → b ∈ virt (covered l))
    (hroom : 16 ≤ psize)
    (hslots : ∀ q ∈ slots, v ≤ q ∧ q + V.osize d ≤ v + psize) (hsize : 4 ≤ V.osize d)
    (hfresh : ∀ e w, V.Pool e w → w ≠ v) :
    (V.addPool d v psize slots).own l' ⊆ V.own l := by
  have hpool : ∀ e w, (V.addPool d v psize slots).Pool e w →
      w = v ∧ e = d ∨ V.Pool e w ∧ (V.addPool d v psize slots).free w = V.free w := by
    intro e w hw
    rcases (Layout.addPool_pool hd).1 hw with ⟨he, hwv⟩ | hold
    · exact Or.inl ⟨hwv, he⟩
    · exact Or.inr ⟨hold, Function.update_of_ne (hfresh e w hold) _ _⟩
  have hnew : (V.addPool d v psize slots).free v = slots := Function.update_self _ _ _
  intro b hb
  rcases hb with hb | (hslab | ⟨e, w, hw, hin | ⟨q, hq, h₁, h₂⟩⟩) | ⟨e, w, q, hw, hq, h₁, h₂⟩
  · exact Or.inl (virt_mono hpages hb)
  · exact Or.inr (Or.inl (Or.inl hslab))
  · rcases hpool e w hw with ⟨rfl, rfl⟩ | ⟨hold, -⟩
    · exact Or.inl (hfree b hin.1 (by omega))
    · exact Or.inr (Or.inl (Or.inr ⟨e, w, hold, Or.inl hin⟩))
  · rcases hpool e w hw with ⟨rfl, rfl⟩ | ⟨hold, hsame⟩
    · rw [hnew] at hq
      have := hslots q hq
      exact Or.inl (hfree b (by omega) (by omega))
    · rw [hsame] at hq
      exact Or.inr (Or.inl (Or.inr ⟨e, w, hold, Or.inr ⟨q, hq, h₁, h₂⟩⟩))
  · have hos : (V.addPool d v psize slots).osize e = V.osize e := rfl
    rw [hos] at h₂
    rcases hpool e w hw with ⟨rfl, rfl⟩ | ⟨hold, hsame⟩
    · rw [hnew] at hq
      have := hslots q hq
      exact Or.inl (hfree b (by omega) (by omega))
    · rw [hsame] at hq
      exact Or.inr (Or.inr ⟨e, w, q, hold, hq, h₁, h₂⟩)

theorem View.pooled_addPool {F : Set Nat} {slots : List Nat} {psize : Nat} (hL : Layout V F)
    (hd : d ∈ V.slabs) (hpos : 0 < psize) (hfree : ∀ b, v ≤ b → b < v + psize → b ∈ F) :
    (V.addPool d v psize slots).pooled = V.pooled ∪ {b | v ≤ b ∧ b < v + psize} := by
  have hext : V.Extends (V.addPool d v psize slots) := hL.extends_addPool hd hpos hfree
  have hnew : (V.addPool d v psize slots).psize v = psize := Function.update_self _ _ _
  ext b
  constructor
  · rintro ⟨e, w, hw, h₁, h₂⟩
    rcases (Layout.addPool_pool hd).1 hw with ⟨-, rfl⟩ | hold
    · rw [hnew] at h₂
      exact Or.inr ⟨h₁, h₂⟩
    · rw [(hext.pool e w hold).2] at h₂
      exact Or.inl ⟨e, w, hold, h₁, h₂⟩
  · rintro (⟨e, w, hw, h₁, h₂⟩ | ⟨h₁, h₂⟩)
    · obtain ⟨hw', hps⟩ := hext.pool e w hw
      exact ⟨e, w, hw', h₁, by omega⟩
    · exact ⟨d, v, (Layout.addPool_pool hd).2 (Or.inl ⟨rfl, rfl⟩), h₁, by omega⟩

/-! ## The own bytes are those of the state -/

theorem Represents.covered_le (h : Represents s l) (h' : Represents s l') :
    covered l ⊆ covered l' := by
  rintro b ⟨e, he, hb⟩
  have hmem : node e ∈ l'.map node := by
    rw [Chain.unique h'.links h.links]
    exact List.mem_map_of_mem he
  obtain ⟨f, hf, hfe⟩ := List.mem_map.1 hmem
  have hstart : f.start = e.start := by
    have h₁ := (h'.paged f hf).node_eq
    have h₂ := (h.paged e he).node_eq
    omega
  have hsize : f.size = e.size := by
    have h₁ := h'.sizes f hf
    rw [hfe, h.sizes e he] at h₁
    exact h₁.symm
  refine ⟨f, hf, ?_⟩
  rw [Extent.mem_bytes, Extent.fin, hstart, hsize]
  exact hb

/-- Two views of one state have the same pools, with the same free slots. -/
theorem Stored.pool_same (h : Stored s V) (h' : Stored s V') (hv : V.Pool d v) :
    V'.Pool d v ∧ V'.psize v = V.psize v ∧ V'.free v = V.free v ∧ V'.osize d = V.osize d := by
  have hd : d ∈ V'.slabs := by
    rw [Chain.unique h'.slabs h.slabs]
    exact hv.1
  have hpools := Chain.unique (h'.slab d hd).pools (h.slab d hv.1).pools
  have hv' : V'.Pool d v := ⟨hd, by rw [hpools]; exact hv.2⟩
  exact ⟨hv', (h'.pool d v hv').size.symm.trans (h.pool d v hv).size,
    Chain.unique (h'.pool d v hv').objs (h.pool d v hv).objs,
    (h'.slab d hd).size.symm.trans (h.slab d hv.1).size⟩

theorem SlabInv.own_le (h : SlabInv s V l) (h' : SlabInv s V' l') : V.own l ⊆ V'.own l' := by
  rintro b (hb | (⟨d, hd, hin⟩ | ⟨d, v, hv, hin | ⟨p, hp, hin⟩⟩) | ⟨d, v, p, hv, hp, h₁, h₂⟩)
  · exact Or.inl (virt_mono (h.represents.covered_le h'.represents) hb)
  · rw [Chain.unique h.stored.slabs h'.stored.slabs] at hd
    exact Or.inr (Or.inl (Or.inl ⟨d, hd, hin⟩))
  · obtain ⟨hv', -⟩ := h.stored.pool_same h'.stored hv
    exact Or.inr (Or.inl (Or.inr ⟨d, v, hv', Or.inl hin⟩))
  · obtain ⟨hv', -, hfree, -⟩ := h.stored.pool_same h'.stored hv
    exact Or.inr (Or.inl (Or.inr ⟨d, v, hv', Or.inr ⟨p, by rw [hfree]; exact hp, hin⟩⟩))
  · obtain ⟨hv', -, hfree, hos⟩ := h.stored.pool_same h'.stored hv
    exact Or.inr (Or.inr ⟨d, v, p, hv', by rw [hfree]; exact hp, h₁, by rw [hos]; exact h₂⟩)

theorem SlabInv.own_unique (h : SlabInv s V l) (h' : SlabInv s V' l') : V.own l = V'.own l' :=
  Set.Subset.antisymm (h.own_le h') (h'.own_le h)

theorem SlabInv.pooled_le (h : SlabInv s V l) (h' : SlabInv s V' l') : V.pooled ⊆ V'.pooled := by
  rintro b ⟨d, v, hv, h₁, h₂⟩
  obtain ⟨hv', hps, -⟩ := h.stored.pool_same h'.stored hv
  exact ⟨d, v, hv', h₁, by rw [hps]; exact h₂⟩

theorem Kept.congr {V₂ : View} {l₂ : List Extent} (h : Kept s V l s' V' l') (h₁ : SlabInv s' V' l')
    (h₂ : SlabInv s' V₂ l₂) : Kept s V l s' V₂ l₂ := by
  have hpages : covered l₂ = covered l' := Set.Subset.antisymm
    (h₂.represents.covered_le h₁.represents) (h₁.represents.covered_le h₂.represents)
  refine ⟨?_, ?_, ?_, h.frame⟩
  · rw [h₂.own_unique h₁]
    exact h.shrinks
  · rw [Set.Subset.antisymm (h₂.pooled_le h₁) (h₁.pooled_le h₂), hpages]
    exact h.conserved
  · rw [hpages]
    exact h.pages

/-! ## `slb_alloc_align` -/

/-- A call that handed out `p` kept to the allocators' own bytes, and the slot was among them. -/
structure Served (s : State) (V : View) (l : List Extent) (size p : Nat) (s' : State) : Prop where
  kept : ∃ V' l', SlabInv s' V' l' ∧ Kept s V l s' V' l'
  slot : ∀ b, p ≤ b → b < p + keySize size → b ∈ V.own l

namespace SlabInv

theorem grow_kept (h : SlabInv s V l) {slots : List Nat} (hd : d ∈ V.slabs)
    (hm : PoolMade s l (V.osize d) (V.align d) v s' l' slots) :
    Kept s V l ((s'.setNextPool v (s'.poolHead d)).setPoolHead d (some v))
      (V.addPool d v (poolBytes (V.osize d)) slots) l' := by
  have hkey := h.layout.key_ok d hd
  obtain ⟨-, hbytes, -⟩ := poolBytes_spec hkey.small
  have hsize := hkey.size_pos
  have hstart := (segmStart_spec hm.start_aligned hkey.align_ok).1
  have hroom : 16 ≤ poolBytes (V.osize d) := by omega
  have hpages : covered l' ⊆ covered l := by
    rw [hm.taken]
    exact Set.sdiff_subset
  have hfresh : ∀ e w, V.Pool e w → w ≠ v := by
    intro e w hw hwv
    have := h.layout.fresh_apart (by omega : 0 < poolBytes (V.osize d)) hm.wasFree hw
    have := (h.layout.pool_ok e w hw).room
    omega
  refine ⟨?_, ?_, hpages, hm.frame.mono ?_ |>.trans fun b hb => ?_⟩
  · refine View.own_addPool hd hpages hm.wasFree hroom (fun q hq => ?_) hsize hfresh
    have := hm.carved.inside q hq
    omega
  · rw [View.pooled_addPool h.layout hd (by omega) hm.wasFree, Set.union_assoc, hm.conserved]
  · exact Set.compl_subset_compl.2 fun b hb => Or.inl hb
  · have hv : ¬ (v + 12 ≤ b ∧ b < v + 16) := fun hin =>
      hb (Or.inl (hm.wasFree b (by omega) (by omega)))
    have hdb : ¬ (d ≤ b ∧ b < d + 16) := fun hin => hb (Or.inr (Or.inl (Or.inl ⟨d, hd, hin⟩)))
    exact (store32_apply_of_outside (by omega)).trans (store32_apply_of_outside (by omega))

theorem alloc_hit_served (h : SlabInv s V l) {size align depth : Nat} (hd : d ∈ V.slabs)
    (hal : V.align d = keyAlign size align) (hos : V.osize d = keySize size)
    (hrun : slbAllocAlignRec (depth + 1) s size align = .ok (some p, s')) :
    Served s V l size p s' := by
  obtain ⟨last, hslab⟩ := h.scan_slabs _ _ hd hal hos
  obtain ⟨last', l₁, l₂, heq, -, hne, hscan⟩ := h.scan_pools hd
  cases l₂ with
  | cons v post =>
      have hv : V.Pool d v := ⟨hd, by simp [heq]⟩
      obtain ⟨q, rest, hfree⟩ := List.exists_cons_of_ne_nil (hne v rfl)
      obtain ⟨t, htake, hinv⟩ := h.take hv hfree
      have hcall : slbAllocAlignRec (depth + 1) s size align = .ok (some q, t) :=
        (allocRec_found hslab hscan).trans htake
      obtain ⟨rfl, rfl⟩ : q = p ∧ t = s' := by
        have := hcall.symm.trans hrun
        simpa using this
      refine ⟨⟨_, l, hinv, h.take_kept hv hfree htake⟩, fun b h₁ h₂ => ?_⟩
      exact Or.inr (Or.inr ⟨d, v, q, hv, by simp [hfree], h₁, by omega⟩)
  | nil =>
      have hgrow : slbAllocAlignRec (depth + 1) s size align = _ := allocRec_grow hslab hscan
      have hkey := h.layout.key_ok d hd
      rcases poolAlloc_spec h.represents hkey.small
        hkey.size_pos hkey.align_ok with hmade | hno
      · obtain ⟨v, t, l', slots, hpool, hm⟩ := hmade
        rw [hos, hal] at hpool
        rw [hpool, Res.ok_bind] at hgrow
        have htake := hgrow.symm.trans hrun
        obtain ⟨hinv, hext⟩ := h.grow hd hm
        have hkept := h.grow_kept hd hm
        have hv : (V.addPool d v (poolBytes (V.osize d)) slots).Pool d v :=
          (Layout.addPool_pool hd).2 (Or.inl ⟨rfl, rfl⟩)
        have hfree : (V.addPool d v (poolBytes (V.osize d)) slots).free v = slots :=
          Function.update_self _ _ _
        cases slots with
        | nil =>
            have hobjs := (hinv.stored.pool d v hv).objs
            rw [hfree] at hobjs
            have hnull := takeObj_none hobjs
            exact absurd (hnull.symm.trans htake) (by simp)
        | cons q rest =>
            obtain ⟨u, hu, hinv'⟩ := hinv.take hv hfree
            obtain ⟨rfl, rfl⟩ : q = p ∧ u = s' := by
              have := hu.symm.trans htake
              simpa using this
            refine ⟨⟨_, l', hinv', hkept.trans (hinv.take_kept hv hfree hu)⟩, fun b h₁ h₂ => ?_⟩
            refine hkept.shrinks (Or.inr (Or.inr ⟨d, v, q, hv, by simp [hfree], h₁, ?_⟩))
            have hsame : (V.addPool d v (poolBytes (V.osize d)) (q :: rest)).osize d = V.osize d := rfl
            omega
      · exfalso
        cases hpool : poolAlloc s (V.osize d) (V.align d) with
        | error e =>
            rw [hos, hal] at hpool
            rw [hpool] at hgrow
            exact absurd (hgrow.symm.trans hrun) (by simp [bind, Except.bind])
        | ok r =>
            obtain ⟨v, t⟩ := r
            cases v with
            | some v => exact hno.1 v t hpool
            | none =>
                rw [hos, hal] at hpool
                rw [hpool, Res.ok_bind] at hgrow
                exact absurd (hgrow.symm.trans hrun) (by simp)

end SlabInv

theorem View.own_addSlab {align osize : Nat} :
    (V.addSlab d align osize).own l ⊆ V.own l ∪ {b | d ≤ b ∧ b < d + 16} := by
  have hpool : ∀ e w, (V.addSlab d align osize).Pool e w →
      V.Pool e w ∧ (V.addSlab d align osize).osize e = V.osize e := by
    intro e w hw
    obtain ⟨hne, hold⟩ := Layout.addSlab_pool.1 hw
    exact ⟨hold, Function.update_of_ne hne _ _⟩
  intro b hb
  rcases hb with hb | (⟨e, he, hin⟩ | ⟨e, w, hw, hin⟩) | ⟨e, w, q, hw, hq, h₁, h₂⟩
  · exact Or.inl (Or.inl hb)
  · rcases List.mem_cons.1 he with rfl | hold
    · exact Or.inr hin
    · exact Or.inl (Or.inr (Or.inl (Or.inl ⟨e, hold, hin⟩)))
  · exact Or.inl (Or.inr (Or.inl (Or.inr ⟨e, w, (hpool e w hw).1, hin⟩)))
  · obtain ⟨hold, hos⟩ := hpool e w hw
    rw [hos] at h₂
    exact Or.inl (Or.inr (Or.inr ⟨e, w, q, hold, hq, h₁, h₂⟩))

theorem View.pooled_addSlab {align osize : Nat} (hds : d ∉ V.slabs) :
    (V.addSlab d align osize).pooled = V.pooled := by
  ext b
  constructor
  · rintro ⟨e, w, hw, hin⟩
    exact ⟨e, w, (Layout.addSlab_pool.1 hw).2, hin⟩
  · rintro ⟨e, w, hw, hin⟩
    exact ⟨e, w, Layout.addSlab_pool.2 ⟨fun hc => hds (hc ▸ hw.1), hw⟩, hin⟩

namespace SlabInv

/-- The descriptor of a new key, seen from the state before its slot was taken. -/
theorem newSlab_kept {V₀ : View} {l₀ : List Extent} {s₀ : State} (h : SlabInv s V l)
    {align osize : Nat} {t : State} {slots : List Nat} (hkey : KeyOk align osize)
    (hnew : ∀ e ∈ V.slabs, V.align e = align → V.osize e ≠ osize) (hv : V.Pool V.first v)
    (hd : d ∈ V.used v) (hds : d ∉ V.slabs) {w : Nat}
    (hm : PoolMade ((s.setObjAlign d align).setObjSize d osize) l osize align w t l' slots)
    (hkept : Kept s₀ V₀ l₀ s V l) (hslot : ∀ b, d ≤ b → b < d + 16 → b ∈ V₀.own l₀) :
    Kept s₀ V₀ l₀ { (t.setPoolHead d (some w)).setNextSlb d (t.setPoolHead d (some w)).slbHead with
        slbHead := some d } ((V.addSlab d align osize).addPool d w (poolBytes osize) slots) l' := by
  obtain ⟨-, hbytes, -⟩ := poolBytes_spec hkey.small
  have hsize := hkey.size_pos
  have hstart := (segmStart_spec hm.start_aligned hkey.align_ok).1
  have hL₁ := h.layout.addSlab hkey hnew (View.mem_used.1 hd).1 hds
    ⟨v, hv.2, (View.mem_used.1 hd).2⟩
  have hosd : (V.addSlab d align osize).osize d = osize := Function.update_self _ _ _
  have hmem : d ∈ (V.addSlab d align osize).slabs := List.mem_cons_self ..
  have hpages : covered l' ⊆ covered l := by
    rw [hm.taken]
    exact Set.sdiff_subset
  have hfresh : ∀ e u, (V.addSlab d align osize).Pool e u → u ≠ w := by
    intro e u hu huw
    have := hL₁.fresh_apart (by omega : 0 < poolBytes osize) hm.wasFree hu
    have := (hL₁.pool_ok e u hu).room
    omega
  refine ⟨?_, ?_, hpages.trans hkept.pages, fun b hb => ?_⟩
  · refine (View.own_addPool hmem hpages hm.wasFree (by omega) (fun q hq => ?_) ?_ hfresh).trans
      (View.own_addSlab.trans (Set.union_subset hkept.shrinks fun b hb => hslot b hb.1 hb.2))
    · have := hm.carved.inside q hq
      rw [hosd]
      omega
    · rw [hosd]
      exact hsize
  · rw [View.pooled_addPool hL₁ hmem (by omega) hm.wasFree, View.pooled_addSlab hds, Set.union_assoc,
      hm.conserved]
    exact hkept.conserved
  · have hout : ¬ (d ≤ b ∧ b < d + 16) := fun hin => hb (hslot b hin.1 hin.2)
    have hfree : b ∉ virt (covered l) := fun hin => hb (Or.inl (virt_mono hkept.pages hin))
    have hfilled : ((s.setObjAlign d align).setObjSize d osize).mem b = s.mem b :=
      (store32_apply_of_outside (by omega)).trans (store32_apply_of_outside (by omega))
    have hlinked : ((t.setPoolHead d (some w)).setNextSlb d
        (t.setPoolHead d (some w)).slbHead).mem b = t.mem b :=
      (store32_apply_of_outside (by omega)).trans (store32_apply_of_outside (by omega))
    exact hlinked.trans ((hm.frame b hfree).trans (hfilled.trans (hkept.frame b hb)))

theorem alloc_miss_served (h : SlabInv s V l) {size align depth : Nat}
    (hkey : KeyOk (keyAlign size align) (keySize size))
    (hno : ∀ d ∈ V.slabs, V.align d = keyAlign size align → V.osize d ≠ keySize size)
    (hrun : slbAllocAlignRec (depth + 2) s size align = .ok (some p, s')) :
    Served s V l size p s' := by
  obtain ⟨last, hslab⟩ := h.scan_slabs_none _ _ hno
  have hmiss : slbAllocAlignRec (depth + 2) s size align = _ := allocRec_miss hslab
  rcases h.alloc_descriptor depth with hdesc | hstop
  · obtain ⟨d, s₁, V₁, l₁, v, hcall, -, ha, hslabs, -, hv, hd, hds, hreps⟩ := hdesc
    have hserved : Served s V l SIZEOF_SLB d s₁ := @alloc_hit_served _ _ _ _ _ _ h SIZEOF_SLB 0 depth
      h.layout.first_mem h.layout.first_key.1 h.layout.first_key.2 hcall
    obtain ⟨V₀, l₀, hinv₀, hkept₀⟩ := hserved.kept
    have hkept := hkept₀.congr hinv₀ ha.inv
    rw [hcall, Res.ok_bind] at hmiss
    dsimp only at hmiss
    have hnew : ∀ e ∈ V₁.slabs, V₁.align e = keyAlign size align → V₁.osize e ≠ keySize size := by
      intro e he
      rw [hslabs] at he
      obtain ⟨-, hal, hos⟩ := ha.grows.key e he
      rw [hal, hos]
      exact hno e he
    rcases poolAlloc_spec (hreps (keyAlign size align) (keySize size)) hkey.small hkey.size_pos
      hkey.align_ok with hmade | hnone
    · obtain ⟨w, t, l', slots, hpool, hm⟩ := hmade
      rw [hpool, Res.ok_bind] at hmiss
      dsimp only at hmiss
      have hagain := hmiss.symm.trans hrun
      obtain ⟨hinv, -⟩ := ha.inv.newSlab hkey hnew hv hd hds hm
      have hfull := ha.inv.newSlab_kept hkey hnew hv hd hds hm hkept hserved.slot
      have hksize : keySize (keySize size) = keySize size := by
        have h₂ := hkey.small
        exact (maxInt_four (by omega)).trans (by have := hkey.size_pos; omega)
      have hkalign : keyAlign (keySize size) (keyAlign size align) = keyAlign size align :=
        keyAlign_ne _ hkey.align_ne
      have hlast := hinv.alloc_hit_served (d := d) (List.mem_cons_self ..)
        (by rw [hkalign]; exact Function.update_self _ _ _)
        (by rw [hksize]; exact Function.update_self _ _ _) hagain
      obtain ⟨V₂, l₂, hinv₂, hkept₂⟩ := hlast.kept
      refine ⟨⟨V₂, l₂, hinv₂, hfull.trans hkept₂⟩, fun b h₁ h₂ => hfull.shrinks ?_⟩
      exact hlast.slot b h₁ (by rw [hksize]; exact h₂)
    · exfalso
      obtain ⟨u, hu⟩ : ∃ u, u = (s₁.setObjAlign d (keyAlign size align)).setObjSize d
        (keySize size) := ⟨_, rfl⟩
      rw [← hu] at hmiss hnone
      cases hpool : poolAlloc u (keySize size) (keyAlign size align) with
      | error e =>
          rw [hpool] at hmiss
          exact absurd (hmiss.symm.trans hrun) (by simp [bind, Except.bind])
      | ok r =>
          obtain ⟨w, t⟩ := r
          cases w with
          | some w => exact hnone.1 w t hpool
          | none =>
              rw [hpool, Res.ok_bind] at hmiss
              obtain ⟨c, -, hc⟩ := Res.bind_eq_ok.1 (hmiss.symm.trans hrun)
              exact absurd hc (by simp)
  · obtain ⟨-, hstop⟩ := hstop
    rw [hstop] at hmiss
    exact absurd (hmiss.symm.trans hrun) (by simp [bind, Except.bind])

/-- `slb_alloc_align` hands out a slot that was the allocators' own, and writes own bytes only. -/
theorem alloc_served (h : SlabInv s V l) {size align : Nat}
    (hkey : KeyOk (keyAlign size align) (keySize size))
    (hrun : slbAllocAlign s size align = .ok (some p, s')) : Served s V l size p s' := by
  obtain ⟨depth, hdepth⟩ : ∃ k, walkFuel = k + 2 := ⟨4294967294, rfl⟩
  unfold slbAllocAlign at hrun
  rw [hdepth] at hrun
  by_cases hex : ∃ d ∈ V.slabs, V.align d = keyAlign size align ∧ V.osize d = keySize size
  · obtain ⟨d, hd, hal, hos⟩ := hex
    exact h.alloc_hit_served hd hal hos hrun
  · exact h.alloc_miss_served hkey (fun d hd hal hos => hex ⟨d, hd, hal, hos⟩) hrun

/-! ## `slb_free_align` -/

theorem put_frame (h : SlabInv s V l) (hv : V.Pool d v) (hp : p ∈ V.used v) (hnd : p ∉ V.slabs) :
    AgreeOn {b | b ∉ V.own l ∧ ¬ (p ≤ b ∧ b < p + V.osize d)} s.mem (s.putObj v p).mem := by
  have hsize := (h.layout.key_ok d hv.1).size_pos
  refine (h.stored.put h.layout hv hp hnd).2.mono fun b hb => ⟨fun hin => ?_, fun hin => ?_⟩
  · exact hb.1 (Or.inr (Or.inl (Or.inr ⟨d, v, hv, Or.inl hin⟩)))
  · exact hb.2 ⟨hin.1, by omega⟩

end SlabInv

/-! ## Pools and pages -/

theorem SlabInv.own_le_pooled (h : SlabInv s V l) :
    V.own l ⊆ V.pooled ∪ virt (covered l) := by
  have hslot : ∀ d v p b, V.Pool d v → p ∈ V.slots v → p ≤ b → b < p + V.osize d →
      b ∈ V.pooled := by
    intro d v p b hv hp h₁ h₂
    have := (h.layout.pool_ok d v hv).inside p hp
    exact ⟨d, v, hv, by omega, by omega⟩
  rintro b (hb | (⟨d, hd, h₁, h₂⟩ | ⟨d, v, hv, hin | ⟨p, hp, h₁, h₂⟩⟩) | ⟨d, v, p, hv, hp, h₁, h₂⟩)
  · exact Or.inr hb
  · obtain ⟨v, hv, hdv⟩ := h.layout.descriptor_slot hd
    exact Or.inl (hslot _ v d b hv hdv h₁ (by rw [h.layout.first_key.2]; exact h₂))
  · have := (h.layout.pool_ok d v hv).room
    exact Or.inl ⟨d, v, hv, hin.1, by omega⟩
  · have := (h.layout.key_ok d hv.1).size_pos
    exact Or.inl (hslot d v p b hv (View.mem_slots.2 (Or.inl hp)) h₁ (by omega))
  · exact Or.inl (hslot d v p b hv (View.mem_slots.2 (Or.inl hp)) h₁ h₂)

theorem virt_union (A B : Set Nat) : virt (A ∪ B) = virt A ∪ virt B := by
  ext b
  constructor
  · rintro ⟨h, hA | hB⟩
    · exact Or.inl ⟨h, hA⟩
    · exact Or.inr ⟨h, hB⟩
  · rintro (⟨h, hA⟩ | ⟨h, hB⟩)
    · exact ⟨h, Or.inl hA⟩
    · exact ⟨h, Or.inr hB⟩

theorem Layout.repage {F F' : Set Nat} (h : Layout V F) (hF : Disjoint V.pooled F') :
    Layout V F' :=
  { h with
    pool_ok := fun d v hv => { h.pool_ok d v hv with
      fresh := fun _ h₁ h₂ hb => Set.disjoint_left.1 hF ⟨d, v, hv, h₁, h₂⟩ hb } }

theorem SlabInv.repage {F : Set Nat} (h : SlabInv s V l)
    (hrep : Represents s' l') (hframe : Frame F s s') (hF : Disjoint V.pooled F)
    (hl : Disjoint V.pooled (virt (covered l'))) : SlabInv s' V l' := by
  refine ⟨hrep, h.layout.repage hl, h.stored.congr hframe.slbHead (hframe.mem.mono ?_)⟩
  intro b hb hbF
  rcases h.own_le_pooled (Or.inr (Or.inl hb)) with hpool | hfree
  · exact Set.disjoint_left.1 hF hpool hbF
  · exact h.layout.link_fresh hb hfree

theorem SlabInv.pooled_fresh (h : SlabInv s V l) :
    Disjoint V.pooled (virt (covered l)) := by
  refine Set.disjoint_left.2 ?_
  rintro b ⟨d, v, hv, h₁, h₂⟩ hb
  exact (h.layout.pool_ok d v hv).fresh b h₁ h₂ hb

/-! ## `slb_init` -/

theorem slbInit_conserved (h : Represents s l) (hrun : slbInit s = .ok (0, s')) {rest : List Nat}
    (hI : SlabInv s' (View.initial d v (poolBytes 16) rest) l') :
    (View.initial d v (poolBytes 16) rest).pooled ∪ virt (covered l') = virt (covered l) := by
  obtain ⟨w, t, l₁, e, slots, hm, rfl⟩ := slbInit_made h hrun
  have hlo := hm.lo
  have hhi := hm.hi
  -- the descriptor and the pool that the state leads to are the ones just made
  obtain rfl : e = d := Option.some.inj hI.stored.slabs.1
  have hpools := (hI.stored.slab e (List.mem_singleton.2 rfl)).pools.1
  rw [poolHead_firstSlab (by omega) (by omega)] at hpools
  obtain rfl := Option.some.inj hpools
  have hrep₁ := hm.initial_represents
  have hpages : covered l' = covered l₁ := Set.Subset.antisymm
    (hI.represents.covered_le hrep₁) (hrep₁.covered_le hI.represents)
  have hpooled : (View.initial e w (poolBytes 16) rest).pooled =
      {b | w ≤ b ∧ b < w + poolBytes 16} := by
    ext b
    constructor
    · rintro ⟨f, u, hu, hin⟩
      obtain rfl : u = w := List.mem_singleton.1 hu.2
      exact hin
    · exact fun hin => ⟨e, w, ⟨List.mem_singleton.2 rfl, List.mem_singleton.2 rfl⟩, hin⟩
  rw [hpages, hpooled]
  exact hm.conserved

end Aimv6.Mm
