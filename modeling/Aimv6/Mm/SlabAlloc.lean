import Aimv6.Mm.SlabSearch

/-! # What one slab-allocator call does

`slb_alloc_align` hands out the first free slot of the first pool that has one,
and makes a pool or a descriptor where there is none; `slb_free_align` puts a
slot back at the head of its pool's list, or finds no descriptor and changes
nothing.
-/

namespace Aimv6.Mm

open Support

/-- The entries of a view stay as they are when it grows. -/
structure View.Extends (V V' : View) : Prop where
  pool : ∀ d v, V.Pool d v → V'.Pool d v ∧ V'.psize v = V.psize v
  key : ∀ d ∈ V.slabs, d ∈ V'.slabs ∧ V'.align d = V.align d ∧ V'.osize d = V.osize d
  first : V'.first = V.first

theorem View.Extends.trans {V₁ V₂ V₃ : View} (h : V₁.Extends V₂) (h' : V₂.Extends V₃) :
    V₁.Extends V₃ := by
  refine ⟨fun d v hv => ?_, fun d hd => ?_, h'.first.trans h.first⟩
  · obtain ⟨h₁, h₂⟩ := h.pool d v hv
    obtain ⟨h₃, h₄⟩ := h'.pool d v h₁
    exact ⟨h₃, h₄.trans h₂⟩
  · obtain ⟨h₁, h₂, h₃⟩ := h.key d hd
    obtain ⟨h₄, h₅, h₆⟩ := h'.key d h₁
    exact ⟨h₄, h₅.trans h₂, h₆.trans h₃⟩

theorem View.Extends.reslot (V : View) (v : Nat) (free taken : List Nat) :
    V.Extends (V.reslot v free taken) :=
  ⟨fun _ _ hv => ⟨hv, rfl⟩, fun _ hd => ⟨hd, rfl, rfl⟩, rfl⟩

variable {s s' : State} {V V' : View} {l l' : List Extent} {d v p : Nat}

theorem Layout.extends_addPool {F : Set Nat} (h : Layout V F) {psize : Nat} {slots : List Nat}
    (hd : d ∈ V.slabs) (hpos : 0 < psize) (hfree : ∀ b, v ≤ b → b < v + psize → b ∈ F) :
    V.Extends (V.addPool d v psize slots) := by
  refine ⟨fun e w hw => ⟨(Layout.addPool_pool hd).2 (Or.inr hw), ?_⟩, fun e he => ⟨he, rfl, rfl⟩,
    rfl⟩
  exact Function.update_of_ne
    (@Layout.count_addPool V F d v h psize e w slots hpos hfree hw).2 _ _

theorem View.extends_addSlab {align osize : Nat} (hds : d ∉ V.slabs) :
    V.Extends (V.addSlab d align osize) := by
  have hne : ∀ e ∈ V.slabs, e ≠ d := fun e he hc => hds (hc ▸ he)
  refine ⟨fun e w hw => ⟨Layout.addSlab_pool.2 ⟨hne e hw.1, hw⟩, rfl⟩, fun e he => ?_, rfl⟩
  exact ⟨List.mem_cons_of_mem _ he, Function.update_of_ne (hne e he) _ _,
    Function.update_of_ne (hne e he) _ _⟩

/-- `p` is a slot for requests of this size and alignment. -/
def View.Holds (V : View) (size align p : Nat) : Prop :=
  ∃ d v, V.Pool d v ∧ V.align d = keyAlign size align ∧ V.osize d = keySize size ∧
    v ≤ p ∧ p < v + V.psize v

theorem View.Extends.holds (h : V.Extends V') {size align : Nat} (hp : V.Holds size align p) :
    V'.Holds size align p := by
  obtain ⟨d, v, hv, hal, hos, h₁, h₂⟩ := hp
  obtain ⟨hv', hps⟩ := h.pool d v hv
  obtain ⟨-, hal', hos'⟩ := h.key d hv.1
  exact ⟨d, v, hv', hal'.trans hal, hos'.trans hos, h₁, by rw [hps]; exact h₂⟩

namespace SlabInv

theorem client (h : SlabInv s V l) (hv : V.Pool d v) (hp : p ∈ V.used v) (hnd : p ∉ V.slabs)
    (hfa : s'.fareaHead = s.fareaHead) (hsl : s'.slbHead = s.slbHead)
    (hm : AgreeOn {b | ¬ (p ≤ b ∧ b < p + V.osize d)} s.mem s'.mem) : SlabInv s' V l := by
  refine ⟨h.represents.congr hfa (hm.mono fun b hb hin => ?_), h.layout,
    h.stored.congr hsl (hm.mono fun b hb => h.layout.link_not_taken hv hp hnd hb)⟩
  have hok := h.layout.pool_ok d v hv
  have := hok.inside p (View.mem_slots.2 (Or.inr hp))
  exact hok.fresh b (by omega) (by omega) hb

theorem take (h : SlabInv s V l) (hv : V.Pool d v) {rest : List Nat}
    (hfree : V.free v = p :: rest) :
    ∃ s', s.takeObj v = .ok (some p, s') ∧ SlabInv s' (V.reslot v rest (p :: V.taken)) l := by
  obtain ⟨s', hrun, hstored, hfa, -, hag⟩ := h.stored.take h.layout hv hfree
  refine ⟨s', hrun, h.represents.congr hfa (hag.mono fun b hb hin => ?_),
    h.layout.take hv hfree, hstored⟩
  have hok := h.layout.pool_ok d v hv
  have := hok.room
  exact hok.fresh b hin.1 (by omega) hb

theorem put (h : SlabInv s V l) (hv : V.Pool d v) (hp : p ∈ V.used v) (hnd : p ∉ V.slabs) :
    SlabInv (s.putObj v p) (V.reslot v (p :: V.free v) (V.taken.erase p)) l := by
  obtain ⟨hstored, hag⟩ := h.stored.put h.layout hv hp hnd
  refine ⟨h.represents.congr rfl (hag.mono fun b hb => ?_), h.layout.put hv hp hnd, hstored⟩
  have hok := h.layout.pool_ok d v hv
  have h₁ := hok.room
  have h₂ := hok.inside p (View.mem_slots.2 (Or.inr hp))
  have h₃ := (h.layout.key_ok d hv.1).size_pos
  constructor
  · exact fun hin => hok.fresh b hin.1 (by omega) hb
  · exact fun hin => hok.fresh b (by omega) (by omega) hb

/-- A slot of the first descriptor lies apart from the free pages. -/
theorem slot_not_free (h : SlabInv s V l) (hv : V.Pool V.first v) (hd : d ∈ V.used v) :
    ∀ b, d ≤ b → b < d + 16 → b ∉ virt (covered l) := by
  intro b h₁ h₂
  have hok := h.layout.pool_ok V.first v hv
  have hin := hok.inside d (View.mem_slots.2 (Or.inr hd))
  rw [h.layout.first_key.2] at hin
  exact hok.fresh b (by omega) (by omega)

/-- A pool with a free slot is used before any new one is made. -/
theorem alloc_reuse (h : SlabInv s V l) {size align depth : Nat} {pre post rest : List Nat}
    (hd : d ∈ V.slabs) (hal : V.align d = keyAlign size align) (hos : V.osize d = keySize size)
    (hpools : V.pools d = pre ++ v :: post) (hpre : ∀ w ∈ pre, V.free w = [])
    (hfree : V.free v = p :: rest) :
    ∃ s', slbAllocAlignRec (depth + 1) s size align = .ok (some p, s') ∧
      SlabInv s' (V.reslot v rest (p :: V.taken)) l := by
  obtain ⟨last, hslab⟩ := h.scan_slabs _ _ hd hal hos
  obtain ⟨last', l₁, l₂, heq, hempty, hne, hscan⟩ := h.scan_pools hd
  have hsplit : l₂ = v :: post := by
    rw [hpools] at heq
    rcases List.append_eq_append_iff.1 heq with ⟨m, hl₁, hm⟩ | ⟨m, hpre', hm⟩
    · cases m with
      | nil => simpa using hm.symm
      | cons w m =>
          obtain rfl : v = w := by simpa using congrArg List.head? hm
          have := hempty v (by simp [hl₁])
          rw [hfree] at this
          exact absurd this (by simp)
    · cases m with
      | nil => simpa using hm
      | cons w m =>
          exact absurd (hpre w (by simp [hpre'])) (hne w (by simp [hm]))
  rw [hsplit] at hscan
  have hv : V.Pool d v := ⟨hd, by simp [hpools]⟩
  obtain ⟨s', hrun, hinv⟩ := h.take hv hfree
  exact ⟨s', (allocRec_found hslab hscan).trans hrun, hinv⟩

/-- `pool_alloc` and the two stores that put the pool at the head of the descriptor's list. -/
theorem grow (h : SlabInv s V l) {slots : List Nat} (hd : d ∈ V.slabs)
    (hm : PoolMade s l (V.osize d) (V.align d) v s' l' slots) :
    SlabInv ((s'.setNextPool v (s'.poolHead d)).setPoolHead d (some v))
      (V.addPool d v (poolBytes (V.osize d)) slots) l' ∧
      V.Extends (V.addPool d v (poolBytes (V.osize d)) slots) := by
  have hkey := h.layout.key_ok d hd
  obtain ⟨-, hbytes, -⟩ := poolBytes_spec hkey.small
  have hpos := hkey.size_pos
  have hlo := hm.lo
  have hhi := hm.hi
  have hstart := (segmStart_spec hm.start_aligned hkey.align_ok).1
  have hslots : ∀ q ∈ slots, v + 16 ≤ q ∧ q + 4 ≤ v + poolBytes (V.osize d) := by
    intro q hq
    have := hm.carved.inside q hq
    omega
  have hlayout := h.layout.addPool_made hd rfl hm
  obtain ⟨t, ht⟩ : ∃ t, t = s'.setNextPool v (s'.poolHead d) := ⟨_, rfl⟩
  have hword : ∀ a, a + 4 ≤ v + 12 ∨ v + 16 ≤ a → t.word a = s'.word a := by
    intro a ha
    rw [ht]
    exact State.word_setWord_ne _ (by omega)
  have hmem : AgreeOn (virt (covered l))ᶜ s.mem t.mem := by
    rw [ht]
    refine hm.frame.trans fun b hb => store32_apply_of_outside ?_
    by_contra hin
    exact hb (hm.wasFree b (by omega) (by omega))
  have hstored : Stored t V := h.stored.congr (by rw [ht]; exact hm.slbHead)
    (hmem.mono fun b hb => h.layout.link_fresh hb)
  have hnew : NewPool t v (poolBytes (V.osize d)) slots := by
    refine hm.header.congr (fun q hq => (hslots q hq).1) fun a _ ha => hword a ?_
    rcases ha with ha | ha
    · omega
    · have := hslots a ha
      omega
  have hapart : d + 16 ≤ v ∨ v + poolBytes (V.osize d) ≤ d := by
    by_contra hmeet
    refine h.layout.link_fresh (b := max d v) (Or.inl ⟨d, hd, by omega, by omega⟩) ?_
    exact hm.wasFree _ (by omega) (by omega)
  have hlink : t.nextPool v = t.poolHead d := by
    have hhead : t.poolHead d = s'.poolHead d := congrArg ptr (hword _ (by omega))
    have hnext : t.nextPool v = s'.poolHead d := by
      rw [ht]
      unfold State.nextPool State.setNextPool State.poolHead
      rw [ptrVal_ptr, State.word_setWord_same _ (State.word_lt _ _)]
    rw [hhead, hnext]
  refine ⟨⟨?_, hlayout, ?_⟩, h.layout.extends_addPool hd (by omega) hm.wasFree⟩
  · refine hm.represents.congr (by rfl) fun b hb => ?_
    rw [hm.taken] at hb
    have hout : ¬ (v ≤ b ∧ b < v + poolBytes (V.osize d)) := by
      intro hin
      refine hb.2.2 ?_
      unfold KERNEL_BASE
      rw [Set.mem_Ico]
      omega
    have hdb : ¬ (d ≤ b ∧ b < d + 16) := fun hin =>
      h.layout.link_fresh (Or.inl ⟨d, hd, hin.1, hin.2⟩) ⟨hb.1, hb.2.1⟩
    exact (store32_apply_of_outside (by omega)).trans (store32_apply_of_outside (by omega))
  · rw [← ht]
    exact hstored.linkPool h.layout hd (by omega) hm.wasFree (by omega) hnew hslots hlink

end SlabInv

/-- A call of `slb_alloc_align` that handed out `p`. -/
structure Allocated (V : View) (size align p : Nat) (s' : State) (V' : View)
    (l' : List Extent) : Prop where
  inv : SlabInv s' V' l'
  grows : V.Extends V'
  taken : V'.taken = p :: V.taken ∧ V'.slabs = V.slabs ∨
    ∃ d, V'.taken = p :: d :: V.taken ∧ V'.slabs = d :: V.slabs
  /-- the slot lies in the first pool that has, or had, a free one -/
  slot : ∃ d pre v post, d ∈ V'.slabs ∧ V'.align d = keyAlign size align ∧
    V'.osize d = keySize size ∧ V'.pools d = pre ++ v :: post ∧ (∀ w ∈ pre, V'.free w = []) ∧
    v ≤ p ∧ p < v + V'.psize v

theorem takeObj_none (h : s.objHead v = none) : s.takeObj v = .error .nullDeref := by
  unfold State.takeObj
  rw [h]

theorem Layout.free_inPool {F : Set Nat} (h : Layout V F) (hv : V.Pool d v) (hp : p ∈ V.free v) :
    v ≤ p ∧ p < v + V.psize v := by
  have h₁ := (h.pool_ok d v hv).inside p (View.mem_slots.2 (Or.inl hp))
  have h₂ := (h.key_ok d hv.1).size_pos
  omega

def PoolFor (l : List Extent) (osize align : Nat) : Prop :=
  ∃ a l', firstFit (poolBytes osize) l = some (a, l') ∧ Fits osize align (a + 2147483648)

/-- A new descriptor gets one pool at once, and another one where that has no slot. -/
def SlabFor (l : List Extent) (osize align : Nat) : Prop :=
  ∃ a l', firstFit (poolBytes osize) l = some (a, l') ∧
    (Fits osize align (a + 2147483648) ∨
      segmStart (a + 2147483648) align < a + 2147483648 + poolBytes osize ∧ PoolFor l' osize align)

theorem poolFor_iff {l l' : List Extent} {osize align a : Nat}
    (hfit : firstFit (poolBytes osize) l = some (a, l')) :
    PoolFor l osize align ↔ Fits osize align (a + 2147483648) := by
  refine ⟨fun h => ?_, fun h => ⟨a, l', hfit, h⟩⟩
  obtain ⟨a', l'', hfit', hfits⟩ := h
  obtain ⟨rfl, -⟩ := Prod.mk.inj (Option.some.inj (hfit.symm.trans hfit'))
  exact hfits

theorem PoolFor.none_of_roomy {s : State} {l : List Extent} {osize align : Nat} (h : Represents s l)
    (hkey : KeyOk align osize) (hroom : Roomy osize align) (hno : ¬ PoolFor l osize align) :
    firstFit (poolBytes osize) l = none := by
  rcases poolAlloc_fit h hkey.small hkey.size_pos hkey.align_ok with hspin | hpages
  · exact hspin.1
  · obtain ⟨a, l', hfit, hval, -⟩ := hpages
    exact absurd ⟨a, l', hfit, hroom.fits hval hkey.align_ok⟩ hno

/-- The extents that are left when a slot for a descriptor has been taken. -/
def View.slabPages (V : View) (l : List Extent) : Option (List Extent) :=
  if ∃ v ∈ V.pools V.first, V.free v ≠ [] then some l
  else (firstFit (poolBytes 16) l).map fun r => r.2

/-- The call does not come back, or with `NULL` and no free list. -/
def Stuck (r : Res (Option Nat × State)) : Prop :=
  (∃ e, r = .error e) ∨ ∃ s', r = .ok (none, s') ∧ ∀ m, ¬ Represents s' m

theorem Stuck.not_some {r : Res (Option Nat × State)} (h : Stuck r) (p : Nat) (s' : State) :
    r ≠ .ok (some p, s') := by
  intro hc
  rcases h with ⟨e, he⟩ | ⟨t, ht, -⟩
  · exact absurd (he.symm.trans hc) (by simp)
  · exact absurd (ht.symm.trans hc) (by simp)

/-- A call that was answered with a slot, with no or one new descriptor. -/
structure Hit (V : View) (size align : Nat) (r : Res (Option Nat × State)) (l' : List Extent) :
    Prop where
  returns : ∃ p s' V', r = .ok (some p, s') ∧ Allocated V size align p s' V' l' ∧
    V'.slabs = V.slabs ∧ V'.taken = p :: V.taken

/-- A call that took the slot `d` in the pool `v` for a new descriptor. -/
structure Descriptor (V : View) (l : List Extent) (r : Res (Option Nat × State)) (d : Nat)
    (s₁ : State) (V₁ : View) (l₁ : List Extent) (v : Nat) : Prop where
  returns : r = .ok (some d, s₁)
  pages : V.slabPages l = some l₁
  allocated : Allocated V SIZEOF_SLB 0 d s₁ V₁ l₁
  slabs : V₁.slabs = V.slabs
  taken : V₁.taken = d :: V.taken
  pool : V₁.Pool V₁.first v
  used : d ∈ V₁.used v
  unlinked : d ∉ V₁.slabs
  represents : ∀ align osize, Represents ((s₁.setObjAlign d align).setObjSize d osize) l₁

namespace Descriptor

variable {r : Res (Option Nat × State)} {s₁ : State} {V₁ : View} {l₁ : List Extent} {size align : Nat}

theorem apart (h : Descriptor V l r d s₁ V₁ l₁ v) :
    ∀ b, d ≤ b → b < d + 16 → b ∉ virt (covered l₁) :=
  h.allocated.inv.slot_not_free h.pool h.used

theorem bounds (h : Descriptor V l r d s₁ V₁ l₁ v) : 2155872272 ≤ d ∧ d + 16 ≤ 2667577344 := by
  have hslot := h.allocated.inv.layout.slot_bounds h.pool (View.mem_slots.2 (Or.inr h.used))
  rwa [h.allocated.inv.layout.first_key.2] at hslot

theorem new_key (h : Descriptor V l r d s₁ V₁ l₁ v)
    (hno : ∀ e ∈ V.slabs, V.align e = keyAlign size align → V.osize e ≠ keySize size) :
    ∀ e ∈ V₁.slabs, V₁.align e = keyAlign size align → V₁.osize e ≠ keySize size := by
  intro e he
  rw [h.slabs] at he
  obtain ⟨-, hal, hos⟩ := h.allocated.grows.key e he
  rw [hal, hos]
  exact hno e he

end Descriptor

theorem KeyOk.keySize_eq {align osize : Nat} (h : KeyOk align osize) : keySize osize = osize := by
  have h₁ := h.small
  have h₂ := h.size_pos
  exact (maxInt_four (by omega)).trans (by omega)

theorem slabFor_iff {osize align a : Nat} (hfit : firstFit (poolBytes osize) l = some (a, l')) :
    SlabFor l osize align ↔ Fits osize align (a + 2147483648) ∨
      segmStart (a + 2147483648) align < a + 2147483648 + poolBytes osize ∧ PoolFor l' osize align := by
  constructor
  · rintro ⟨a', l'', hfit', hfits⟩
    obtain ⟨rfl, rfl⟩ := Prod.mk.inj (Option.some.inj (hfit.symm.trans hfit'))
    exact hfits
  · exact fun hfits => ⟨a, l', hfit, hfits⟩

namespace SlabInv

/-- A descriptor without a free slot gets a new pool, whose first slot is handed out. -/
theorem alloc_grow (h : SlabInv s V l) {size align depth : Nat} (hd : d ∈ V.slabs)
    (hal : V.align d = keyAlign size align) (hos : V.osize d = keySize size)
    (hempty : ∀ v ∈ V.pools d, V.free v = []) :
    (∃ a l', firstFit (poolBytes (keySize size)) l = some (a, l') ∧
      Fits (keySize size) (keyAlign size align) (a + 2147483648) ∧
      Hit V size align (slbAllocAlignRec (depth + 1) s size align) l') ∨
    (¬ PoolFor l (keySize size) (keyAlign size align) ∧
      Stuck (slbAllocAlignRec (depth + 1) s size align) ∧
      (firstFit (poolBytes (keySize size)) l = none →
        slbAllocAlignRec (depth + 1) s size align = .error .spin)) := by
  obtain ⟨last, hslab⟩ := h.scan_slabs _ _ hd hal hos
  obtain ⟨last', l₁, l₂, heq, -, hne, hscan⟩ := h.scan_pools hd
  have hnil : l₂.head? = none := by
    rw [List.head?_eq_none_iff]
    by_contra hl₂
    obtain ⟨v, post, rfl⟩ := List.exists_cons_of_ne_nil hl₂
    exact hne v rfl (hempty v (by simp [heq]))
  rw [hnil] at hscan
  have hgrow : slbAllocAlignRec (depth + 1) s size align = _ := allocRec_grow hslab hscan
  have hkey := h.layout.key_ok d hd
  rcases poolAlloc_fit h.represents hkey.small hkey.size_pos hkey.align_ok with hspin | hpages
  · obtain ⟨hno, hpool⟩ := hspin
    rw [hos, hal] at hpool
    rw [hpool] at hgrow
    rw [hos] at hno
    refine Or.inr ⟨fun hc => ?_, Or.inl ⟨.spin, hgrow⟩, fun _ => hgrow⟩
    obtain ⟨a, l', hfit, -⟩ := hc
    exact absurd (hno.symm.trans hfit) (by simp)
  · obtain ⟨a, l', hfit, hval, hout | hin⟩ := hpages
    · -- the pages do not reach the first aligned address
      obtain ⟨hout, t, hpool, hspoilt⟩ := hout
      rw [hos, hal] at hout hpool
      rw [hos] at hfit
      rw [hpool, Res.ok_bind] at hgrow
      refine Or.inr ⟨fun hc => ?_, Or.inr ⟨t, hgrow, hspoilt.spoilt t rfl (AgreeOn.refl _ _)⟩,
        fun hno => absurd (hno.symm.trans hfit) (by simp)⟩
      have hfits := (poolFor_iff hfit).1 hc
      have hpos := hkey.size_pos
      rw [hos] at hpos
      unfold Fits at hfits
      omega
    · obtain ⟨v, hav⟩ : ∃ v, v = a + 2147483648 := ⟨_, rfl⟩
      rw [← hav] at hin
      obtain ⟨-, t, slots, hpool, hm, hiff⟩ := hin
      rw [hos, hal] at hpool hiff
      rw [hpool, Res.ok_bind] at hgrow
      dsimp only at hgrow
      obtain ⟨hinv, hext⟩ := h.grow hd hm
      have hv : (V.addPool d v (poolBytes (V.osize d)) slots).Pool d v :=
        (Layout.addPool_pool hd).2 (Or.inl ⟨rfl, rfl⟩)
      have hfree : (V.addPool d v (poolBytes (V.osize d)) slots).free v = slots :=
        Function.update_self _ _ _
      rw [hos] at hfit
      cases slots with
      | nil =>
          have hnull : slbAllocAlignRec (depth + 1) s size align = .error .nullDeref := by
            refine hgrow.trans (takeObj_none ?_)
            have := (hinv.stored.pool d v hv).objs
            rw [hfree] at this
            exact this
          refine Or.inr ⟨fun hc => ?_, Or.inl ⟨.nullDeref, hnull⟩, fun hno =>
            absurd (hno.symm.trans hfit) (by simp)⟩
          have hfits := (poolFor_iff hfit).1 hc
          rw [← hav] at hfits
          exact absurd rfl (hiff.1 hfits)
      | cons p rest =>
          obtain ⟨s', hrun, hinv'⟩ := hinv.take hv hfree
          have hin := hinv.layout.free_inPool (p := p) hv (by simp [hfree])
          have hfits := hiff.2 (List.cons_ne_nil p rest)
          rw [hav] at hfits
          refine Or.inl ⟨a, l', hfit, hfits, ⟨p, s', _, hgrow.trans hrun,
            ⟨hinv', hext.trans (View.Extends.reslot _ _ _ _), Or.inl ⟨rfl, rfl⟩, d, [], v,
              V.pools d, hd, hal, hos, ?_, by simp, hin⟩, rfl, rfl⟩⟩
          exact Function.update_self _ _ _

theorem alloc_hit_fit (h : SlabInv s V l) {size align depth : Nat} (hd : d ∈ V.slabs)
    (hal : V.align d = keyAlign size align) (hos : V.osize d = keySize size) :
    ((∃ v ∈ V.pools d, V.free v ≠ []) ∧
      Hit V size align (slbAllocAlignRec (depth + 1) s size align) l) ∨
    ((∀ v ∈ V.pools d, V.free v = []) ∧
      ((∃ a l', firstFit (poolBytes (keySize size)) l = some (a, l') ∧
        Fits (keySize size) (keyAlign size align) (a + 2147483648) ∧
        Hit V size align (slbAllocAlignRec (depth + 1) s size align) l') ∨
      (¬ PoolFor l (keySize size) (keyAlign size align) ∧
        Stuck (slbAllocAlignRec (depth + 1) s size align) ∧
        (firstFit (poolBytes (keySize size)) l = none →
          slbAllocAlignRec (depth + 1) s size align = .error .spin)))) := by
  by_cases hfull : ∀ v ∈ V.pools d, V.free v = []
  · exact Or.inr ⟨hfull, h.alloc_grow hd hal hos hfull⟩
  · obtain ⟨last, hslab⟩ := h.scan_slabs _ _ hd hal hos
    obtain ⟨last', l₁, l₂, heq, hempty, hne, hscan⟩ := h.scan_pools hd
    push Not at hfull
    cases l₂ with
    | nil =>
        obtain ⟨v, hv, hfree⟩ := hfull
        rw [heq, List.append_nil] at hv
        exact absurd (hempty v hv) hfree
    | cons v post =>
        have hv : V.Pool d v := ⟨hd, by simp [heq]⟩
        obtain ⟨p, rest, hfree⟩ := List.exists_cons_of_ne_nil (hne v rfl)
        obtain ⟨s', hrun, hinv⟩ := h.take hv hfree
        have hin := h.layout.free_inPool hv (by simp [hfree] : p ∈ V.free v)
        refine Or.inl ⟨hfull, ⟨p, s', _, (allocRec_found hslab hscan).trans hrun,
          ⟨hinv, View.Extends.reslot _ _ _ _, Or.inl ⟨rfl, rfl⟩, d, l₁, v, post, hd, hal, hos, heq,
            ?_, hin⟩, rfl, rfl⟩⟩
        intro w hw
        have hwv : w ≠ v := by
          intro hc
          have := hempty w hw
          rw [hc, hfree] at this
          exact absurd this (by simp)
        exact (Function.update_of_ne hwv _ _).trans (hempty w hw)

theorem alloc_hit (h : SlabInv s V l) {size align depth : Nat} (hd : d ∈ V.slabs)
    (hal : V.align d = keyAlign size align) (hos : V.osize d = keySize size) :
    (∃ p s' V' l', slbAllocAlignRec (depth + 1) s size align = .ok (some p, s') ∧
      Allocated V size align p s' V' l' ∧ V'.slabs = V.slabs ∧ V'.taken = p :: V.taken) ∨
    ((∀ p s', slbAllocAlignRec (depth + 1) s size align ≠ .ok (some p, s')) ∧
      (Roomy (keySize size) (keyAlign size align) →
        slbAllocAlignRec (depth + 1) s size align = .error .spin)) := by
  rcases @alloc_hit_fit s V l d h size align depth hd hal hos with hfree | hfull
  · obtain ⟨p, s', V', hrun, ha, hslabs, htaken⟩ := hfree.2.returns
    exact Or.inl ⟨p, s', V', l, hrun, ha, hslabs, htaken⟩
  · rcases hfull.2 with hgrown | hstuck
    · obtain ⟨a, l', -, -, hhit⟩ := hgrown
      obtain ⟨p, s', V', hrun, ha, hslabs, htaken⟩ := hhit.returns
      exact Or.inl ⟨p, s', V', l', hrun, ha, hslabs, htaken⟩
    · obtain ⟨hno, hstuck, hspin⟩ := hstuck
      have hkey := h.layout.key_ok d hd
      rw [hal, hos] at hkey
      exact Or.inr ⟨hstuck.not_some, fun hroom => hspin (PoolFor.none_of_roomy h.represents hkey hroom hno)⟩

theorem roomy_descriptor : Roomy (keySize SIZEOF_SLB) (keyAlign SIZEOF_SLB 0) := by
  unfold Roomy
  decide

section NewSlab

variable {align osize w a : Nat} {q : Option Nat} {t : State} {slots : List Nat}

theorem word_enlist (ha : a + 4 ≤ d + 8 ∨ d + 16 ≤ a) :
    ((t.setPoolHead d (some w)).setNextSlb d q).word a = t.word a := by
  unfold State.setNextSlb State.setPoolHead
  rw [State.word_setWord_ne _ (by omega), State.word_setWord_ne _ (by omega)]

theorem poolHead_enlist (hw : 0 < w) (hlt : w < 4294967296) :
    ((t.setPoolHead d (some w)).setNextSlb d q).poolHead d = some w := by
  have hword : ((t.setPoolHead d (some w)).setNextSlb d q).word (d + 8) = w := by
    unfold State.setNextSlb State.setPoolHead
    rw [State.word_setWord_ne _ (by omega), ptrVal_some, State.word_setWord_same _ hlt]
  unfold State.poolHead
  rw [hword]
  exact ptr_of_pos hw

theorem nextSlb_enlist (hq : ∀ e ∈ q, 0 < e ∧ e < 4294967296) :
    ((t.setPoolHead d (some w)).setNextSlb d q).nextSlb d = q := by
  have hword : ((t.setPoolHead d (some w)).setNextSlb d q).word (d + 12) = ptrVal q := by
    refine State.word_setWord_same _ ?_
    cases hs : q with
    | none => decide
    | some e => exact (hq e hs).2
  unfold State.nextSlb
  rw [hword]
  exact ptr_ptrVal fun e he => (hq e he).1

variable {u : State}

/-- The layout with the new descriptor and its pool. -/
theorem newSlab_layout (h : SlabInv s V l) (hkey : KeyOk align osize)
    (hnew : ∀ e ∈ V.slabs, V.align e = align → V.osize e ≠ osize)
    (hv : V.Pool V.first v) (hd : d ∈ V.used v) (hds : d ∉ V.slabs)
    (hm : PoolMade u l osize align w t l' slots) :
    Layout ((V.addSlab d align osize).addPool d w (poolBytes osize) slots) (virt (covered l')) ∧
      V.Extends ((V.addSlab d align osize).addPool d w (poolBytes osize) slots) := by
  obtain ⟨-, hbytes, -⟩ := poolBytes_spec hkey.small
  have hlayout := h.layout.addSlab hkey hnew (View.mem_used.1 hd).1 hds
    ⟨v, hv.2, (View.mem_used.1 hd).2⟩
  have hald : (V.addSlab d align osize).align d = align := Function.update_self _ _ _
  have hosd : (V.addSlab d align osize).osize d = osize := Function.update_self _ _ _
  have hmem : d ∈ (V.addSlab d align osize).slabs := List.mem_cons_self ..
  have hpool := hlayout.addPool_made hmem rfl (by rw [hald, hosd]; exact hm)
  rw [hosd] at hpool
  exact ⟨hpool, (View.extends_addSlab hds).trans
    (hlayout.extends_addPool hmem (by omega) hm.wasFree)⟩

/-- The memory with the new descriptor and its pool. -/
theorem newSlab_stored (h : SlabInv s V l) (hkey : KeyOk align osize)
    (hv : V.Pool V.first v) (hd : d ∈ V.used v) (hds : d ∉ V.slabs)
    (hm : PoolMade ((s.setObjAlign d align).setObjSize d osize) l osize align w t l' slots) :
    Stored { (t.setPoolHead d (some w)).setNextSlb d s.slbHead with slbHead := some d }
      ((V.addSlab d align osize).addPool d w (poolBytes osize) slots) := by
  obtain ⟨-, hbytes, -⟩ := poolBytes_spec hkey.small
  have hsmall := hkey.small
  have hlo := hm.lo
  have hhi := hm.hi
  have hdfree := h.slot_not_free hv hd
  have hapart : d + 16 ≤ w ∨ w + poolBytes osize ≤ d := by
    by_contra hmeet
    exact hdfree (max d w) (by omega) (by omega) (hm.wasFree _ (by omega) (by omega))
  have hslots : ∀ q ∈ slots, w + 16 ≤ q ∧ q + 4 ≤ w + poolBytes osize := by
    intro q hq
    have h₁ := hm.carved.inside q hq
    have h₂ := (segmStart_spec hm.start_aligned hkey.align_ok).1
    have h₃ := hkey.size_pos
    omega
  obtain ⟨u, hu⟩ : ∃ u, u = (t.setPoolHead d (some w)).setNextSlb d s.slbHead := ⟨_, rfl⟩
  have hword : ∀ a, a + 4 ≤ d + 8 ∨ d + 16 ≤ a → u.word a = t.word a := by
    intro a ha
    rw [hu, word_enlist ha]
  have hkept : ∀ a, d ≤ a → a + 4 ≤ d + 8 → u.word a =
      ((s.setObjAlign d align).setObjSize d osize).word a := fun a h₁ h₂ =>
    (hword a (by omega)).trans (load32_congr hm.frame fun b h₃ h₄ => hdfree b (by omega) (by omega))
  have hslb : u.slbHead = s.slbHead := by
    rw [hu]
    exact hm.slbHead
  have hframe : AgreeOn {b | b ∉ virt (covered l) ∧ ¬ (d ≤ b ∧ b < d + 16)} s.mem u.mem := by
    rw [hu]
    intro b hb
    have hout : ¬ (d ≤ b ∧ b < d + 16) := hb.2
    have hfirst : t.mem b = s.mem b := (hm.frame b hb.1).trans
      ((store32_apply_of_outside (by omega)).trans (store32_apply_of_outside (by omega)))
    exact ((store32_apply_of_outside (by omega)).trans (store32_apply_of_outside (by omega))).trans
      hfirst
  have hstored : Stored u V := by
    refine h.stored.congr hslb (hframe.mono fun b hb => ?_)
    have hout := h.layout.link_not_taken hv hd hds hb
    rw [h.layout.first_key.2] at hout
    exact ⟨h.layout.link_fresh hb, hout⟩
  have hpool : NewPool u w (poolBytes osize) slots := by
    refine hm.header.congr (fun q hq => (hslots q hq).1) fun a h₁ h₂ => hword a ?_
    rcases h₂ with h₂ | h₂
    · omega
    · have := hslots a h₂
      omega
  have hold : ∀ e ∈ s.slbHead, 0 < e ∧ e < 4294967296 := by
    intro e he
    rw [h.stored.slabs.head_eq] at he
    exact h.descriptor_bounds (List.mem_of_mem_head? he)
  rw [← hu]
  refine hstored.linkSlab h.layout hds (by omega) hm.wasFree hpool ?_ ?_ ?_ ?_ ?_
  · exact (congrArg ptr (hword _ (by omega))).trans hm.last
  · refine (hkept d (Nat.le_refl d) (by omega)).trans ?_
    have := hkey.align_ok.le
    unfold State.setObjSize State.setObjAlign
    rw [State.word_setWord_ne _ (by omega), State.word_setWord_same _ (by omega)]
  · refine (hkept (d + 4) (by omega) (by omega)).trans ?_
    unfold State.setObjSize
    rw [State.word_setWord_same _ (by omega)]
  · rw [hu]
    exact poolHead_enlist (by omega) (by omega)
  · rw [hslb, hu]
    exact nextSlb_enlist hold

/-- The descriptor of a new key: its slot, filled in, with one pool, and linked in. -/
theorem newSlab (h : SlabInv s V l) (hkey : KeyOk align osize)
    (hnew : ∀ e ∈ V.slabs, V.align e = align → V.osize e ≠ osize)
    (hv : V.Pool V.first v) (hd : d ∈ V.used v) (hds : d ∉ V.slabs)
    (hm : PoolMade ((s.setObjAlign d align).setObjSize d osize) l osize align w t l' slots) :
    SlabInv { (t.setPoolHead d (some w)).setNextSlb d (t.setPoolHead d (some w)).slbHead with
        slbHead := some d } ((V.addSlab d align osize).addPool d w (poolBytes osize) slots) l' ∧
      V.Extends ((V.addSlab d align osize).addPool d w (poolBytes osize) slots) := by
  obtain ⟨hlayout, hext⟩ := h.newSlab_layout hkey hnew hv hd hds hm
  have hslb : (t.setPoolHead d (some w)).slbHead = s.slbHead := hm.slbHead
  rw [hslb]
  refine ⟨⟨hm.represents.congr rfl fun b hb => ?_, hlayout, h.newSlab_stored hkey hv hd hds hm⟩, hext⟩
  rw [hm.taken] at hb
  have hout : ¬ (d ≤ b ∧ b < d + 16) := fun hin =>
    h.slot_not_free hv hd b hin.1 hin.2 ⟨hb.1, hb.2.1⟩
  exact (store32_apply_of_outside (by omega)).trans (store32_apply_of_outside (by omega))

end NewSlab

/-- The slot for a new descriptor, taken from the pools of the first one. -/
theorem alloc_descriptor (h : SlabInv s V l) (depth : Nat) :
    (∃ d s₁ V₁ l₁ v, Descriptor V l (slbAllocAlignRec (depth + 1) s SIZEOF_SLB 0) d s₁ V₁ l₁ v) ∨
    (V.slabPages l = none ∧ slbAllocAlignRec (depth + 1) s SIZEOF_SLB 0 = .error .spin) := by
  obtain ⟨hfal, hfos⟩ := h.layout.first_key
  have hsize : keySize SIZEOF_SLB = 16 := by decide
  have hmade : (∃ l₁, V.slabPages l = some l₁ ∧
      Hit V SIZEOF_SLB 0 (slbAllocAlignRec (depth + 1) s SIZEOF_SLB 0) l₁) ∨
      (V.slabPages l = none ∧ slbAllocAlignRec (depth + 1) s SIZEOF_SLB 0 = .error .spin) := by
    unfold View.slabPages
    rcases @alloc_hit_fit s V l V.first h SIZEOF_SLB 0 depth h.layout.first_mem hfal hfos with
      hfree | hfull
    · rw [if_pos hfree.1]
      exact Or.inl ⟨l, rfl, hfree.2⟩
    · have hno : ¬ ∃ v ∈ V.pools V.first, V.free v ≠ [] := by
        push Not
        exact hfull.1
      rw [if_neg hno, ← hsize]
      rcases hfull.2 with hgrown | hstuck
      · obtain ⟨a, l', hfit, -, hhit⟩ := hgrown
        exact Or.inl ⟨l', by rw [hfit]; rfl, hhit⟩
      · obtain ⟨hpool, -, hspin⟩ := hstuck
        have hkey := h.layout.key_ok V.first h.layout.first_mem
        rw [hfal, hfos, ← hsize] at hkey
        have hnone := PoolFor.none_of_roomy h.represents hkey roomy_descriptor hpool
        exact Or.inr ⟨by rw [hnone]; rfl, hspin hnone⟩
  rcases hmade with hdesc | hspin
  · obtain ⟨l₁, hpages, ⟨d, s₁, V₁, hrun, ha, hslabs, htaken⟩⟩ := hdesc
    have hds : d ∉ V₁.slabs := by
      rw [hslabs]
      intro hc
      have hnodup := ha.inv.layout.taken_nodup
      rw [htaken] at hnodup
      exact (List.nodup_cons.1 hnodup).1 (h.layout.descriptor d hc).1
    obtain ⟨e, pre, v, post, he, heal, heos, hpools, -, hin⟩ := ha.slot
    obtain rfl : e = V₁.first := ha.inv.layout.keys e he V₁.first ha.inv.layout.first_mem
      (heal.trans ha.inv.layout.first_key.1.symm) (heos.trans ha.inv.layout.first_key.2.symm)
    have hv : V₁.Pool V₁.first v := ⟨he, by simp [hpools]⟩
    have hd : d ∈ V₁.used v := View.mem_used.2 ⟨by simp [htaken], hin⟩
    have hslot := ha.inv.layout.pool_ok V₁.first v hv
    have hdin := hslot.inside d (View.mem_slots.2 (Or.inr hd))
    rw [ha.inv.layout.first_key.2] at hdin
    refine Or.inl ⟨d, s₁, V₁, l₁, v, hrun, hpages, ha, hslabs, htaken, hv, hd, hds,
      fun align osize => ?_⟩
    refine ha.inv.represents.congr rfl fun b hb => ?_
    have hout : ¬ (d ≤ b ∧ b < d + 16) := fun hc => hslot.fresh b (by omega) (by omega) hb
    exact (store32_apply_of_outside (by omega)).trans (store32_apply_of_outside (by omega))
  · exact Or.inr hspin

/-- The descriptor for which no pool could be made is not put back: `slb_free` asks for a key that
no descriptor has. -/
theorem free_descriptor (h : SlabInv s V l) (hv : V.Pool V.first v) (hd : d ∈ V.used v)
    (hds : d ∉ V.slabs) {t : State} (hsl : t.slbHead = s.slbHead)
    (hm : AgreeOn {b | 2147483648 ≤ b ∧ b ∉ virt (covered l) ∧ ¬ (d ≤ b ∧ b < d + 16)}
      s.mem t.mem) : slbFreeAlign t d SIZEOF_SLB 0 = .ok (1, t) := by
  have hstored : Stored t V := by
    refine h.stored.congr hsl (hm.mono fun b hb => ?_)
    have hout := h.layout.link_not_taken hv hd hds hb
    rw [h.layout.first_key.2] at hout
    exact ⟨h.layout.link_high hb, h.layout.link_fresh hb, hout⟩
  obtain ⟨last, hslab⟩ := hstored.scan_slabs_none h.layout (freeKeyAlign SIZEOF_SLB 0) SIZEOF_SLB
    fun e he hal _ => (h.layout.key_ok e he).align_ne hal
  exact free_miss hslab

section Miss

variable {s₁ t : State} {V₁ : View} {l₁ : List Extent} {size align depth w : Nat} {slots : List Nat}

/-- The pages for the first pool of a new descriptor are lost, and the descriptor with them. -/
theorem alloc_spoilt (h : SlabInv s V l)
    (hno : ∀ e ∈ V.slabs, V.align e = keyAlign size align → V.osize e ≠ keySize size)
    (hdesc : Descriptor V l (slbAllocAlignRec (depth + 1) s SIZEOF_SLB 0) d s₁ V₁ l₁ v)
    (hpool : poolAlloc ((s₁.setObjAlign d (keyAlign size align)).setObjSize d (keySize size))
      (keySize size) (keyAlign size align) = .ok (none, t))
    (hspoilt : Spoilt ((s₁.setObjAlign d (keyAlign size align)).setObjSize d (keySize size)) l₁ t) :
    Stuck (slbAllocAlignRec (depth + 2) s size align) := by
  obtain ⟨last, hslab⟩ := h.scan_slabs_none _ _ hno
  have hmiss : slbAllocAlignRec (depth + 2) s size align = _ := allocRec_miss hslab
  have hbounds := hdesc.bounds
  have hagree : AgreeOn {b | b < 2147483648 ∨ b ∈ virt (covered l₁)} t.mem
      (t.setPoolHead d none).mem := by
    intro b hb
    refine store32_apply_of_outside ?_
    rcases hb with hb | hb
    · have : b < 2147483648 := hb
      omega
    · by_contra hc
      exact hdesc.apart b (by omega) (by omega) hb
  have hfreed := @free_descriptor s₁ V₁ l₁ d v hdesc.allocated.inv hdesc.pool hdesc.used
    hdesc.unlinked (t.setPoolHead d none) hspoilt.slbHead (by
      intro b hb
      have hout : ¬ (d ≤ b ∧ b < d + 16) := hb.2.2
      have hstore : t.mem b = s₁.mem b := (hspoilt.frame b ⟨hb.1, hb.2.1⟩).trans
        ((store32_apply_of_outside (by omega)).trans (store32_apply_of_outside (by omega)))
      exact (store32_apply_of_outside (by omega)).trans hstore)
  rw [hdesc.returns, Res.ok_bind] at hmiss
  dsimp only at hmiss
  rw [hpool, Res.ok_bind] at hmiss
  dsimp only at hmiss
  rw [hfreed, Res.ok_bind] at hmiss
  exact Or.inr ⟨_, hmiss, hspoilt.spoilt _ rfl hagree⟩

/-- The request is answered from the first pool of its new descriptor, or from a second one. -/
theorem alloc_made (h : SlabInv s V l) (hkey : KeyOk (keyAlign size align) (keySize size))
    (hno : ∀ e ∈ V.slabs, V.align e = keyAlign size align → V.osize e ≠ keySize size)
    (hdesc : Descriptor V l (slbAllocAlignRec (depth + 1) s SIZEOF_SLB 0) d s₁ V₁ l₁ v)
    (hpool : poolAlloc ((s₁.setObjAlign d (keyAlign size align)).setObjSize d (keySize size))
      (keySize size) (keyAlign size align) = .ok (some w, t))
    (hm : PoolMade ((s₁.setObjAlign d (keyAlign size align)).setObjSize d (keySize size)) l₁
      (keySize size) (keyAlign size align) w t l' slots) :
    ((slots ≠ [] ∨ PoolFor l' (keySize size) (keyAlign size align)) ∧
      ∃ p s' V' l', slbAllocAlignRec (depth + 2) s size align = .ok (some p, s') ∧
        Allocated V size align p s' V' l') ∨
    (slots = [] ∧ ¬ PoolFor l' (keySize size) (keyAlign size align) ∧
      Stuck (slbAllocAlignRec (depth + 2) s size align) ∧
      (Roomy (keySize size) (keyAlign size align) →
        slbAllocAlignRec (depth + 2) s size align = .error .spin)) := by
  obtain ⟨last, hslab⟩ := h.scan_slabs_none _ _ hno
  have hmiss : slbAllocAlignRec (depth + 2) s size align = _ := allocRec_miss hslab
  rw [hdesc.returns, Res.ok_bind] at hmiss
  dsimp only at hmiss
  rw [hpool, Res.ok_bind] at hmiss
  dsimp only at hmiss
  obtain ⟨hinv, hext⟩ := hdesc.allocated.inv.newSlab hkey (hdesc.new_key hno) hdesc.pool hdesc.used
    hdesc.unlinked hm
  have hkalign : keyAlign (keySize size) (keyAlign size align) = keyAlign size align :=
    keyAlign_ne _ hkey.align_ne
  obtain ⟨V₂, hV₂⟩ : ∃ V₂, V₂ = (V₁.addSlab d (keyAlign size align) (keySize size)).addPool d w
    (poolBytes (keySize size)) slots := ⟨_, rfl⟩
  have hald : V₂.align d = keyAlign size align := by
    rw [hV₂]
    exact Function.update_self _ _ _
  have hosd : V₂.osize d = keySize size := by
    rw [hV₂]
    exact Function.update_self _ _ _
  have hmem : d ∈ V₂.slabs := by
    rw [hV₂]
    exact List.mem_cons_self ..
  have hpools : V₂.pools d = [w] := by
    rw [hV₂]
    unfold View.addPool View.addSlab
    dsimp only
    rw [Function.update_self, Function.update_self]
  have hfree : V₂.free w = slots := by
    rw [hV₂]
    exact Function.update_self _ _ _
  rw [← hV₂] at hinv hext
  have hagain := @alloc_hit_fit _ V₂ l' d hinv (keySize size) (keyAlign size align) depth
    hmem (hald.trans hkalign.symm) (hosd.trans hkey.keySize_eq.symm)
  rw [hkey.keySize_eq, hkalign, hpools, ← hmiss] at hagain
  have hdone : ∀ m, Hit V₂ (keySize size) (keyAlign size align)
      (slbAllocAlignRec (depth + 2) s size align) m →
      ∃ p s' V' l', slbAllocAlignRec (depth + 2) s size align = .ok (some p, s') ∧
        Allocated V size align p s' V' l' := by
    intro m hhit
    obtain ⟨p, s', V', hrun', ha', hslabs', htaken'⟩ := hhit.returns
    refine ⟨p, s', V', m, hrun', ha'.inv, hdesc.allocated.grows.trans (hext.trans ha'.grows),
      Or.inr ⟨d, ?_, ?_⟩, ?_⟩
    · rw [htaken', hV₂]
      exact congrArg (List.cons p) hdesc.taken
    · rw [hslabs', hV₂]
      exact congrArg (List.cons d) hdesc.slabs
    · have hslot := ha'.slot
      rwa [hkey.keySize_eq, hkalign] at hslot
  rcases hagain with hslot | hfull
  · obtain ⟨⟨u, hu, hne⟩, hhit⟩ := hslot
    obtain rfl := List.mem_singleton.1 hu
    rw [hfree] at hne
    exact Or.inl ⟨Or.inl hne, hdone l' hhit⟩
  · obtain ⟨hempty, hgrown | hstuck⟩ := hfull
    · obtain ⟨a, m, hfit, hfits, hhit⟩ := hgrown
      exact Or.inl ⟨Or.inr ⟨a, m, hfit, hfits⟩, hdone m hhit⟩
    · obtain ⟨hno', hstuck, hspin⟩ := hstuck
      have hnil : slots = [] := by
        rw [← hfree]
        exact hempty w (List.mem_singleton.2 rfl)
      exact Or.inr ⟨hnil, hno', hstuck, fun hroom =>
        hspin (PoolFor.none_of_roomy hinv.represents hkey hroom hno')⟩

end Miss

theorem alloc_miss_fit (h : SlabInv s V l) {size align depth : Nat}
    (hkey : KeyOk (keyAlign size align) (keySize size))
    (hno : ∀ d ∈ V.slabs, V.align d = keyAlign size align → V.osize d ≠ keySize size) :
    ((∃ l₁, V.slabPages l = some l₁ ∧ SlabFor l₁ (keySize size) (keyAlign size align)) ∧
      ∃ p s' V' l', slbAllocAlignRec (depth + 2) s size align = .ok (some p, s') ∧
        Allocated V size align p s' V' l') ∨
    ((¬ ∃ l₁, V.slabPages l = some l₁ ∧ SlabFor l₁ (keySize size) (keyAlign size align)) ∧
      Stuck (slbAllocAlignRec (depth + 2) s size align) ∧
      (Roomy (keySize size) (keyAlign size align) →
        slbAllocAlignRec (depth + 2) s size align = .error .spin)) := by
  obtain ⟨last, hslab⟩ := h.scan_slabs_none _ _ hno
  have hmiss : slbAllocAlignRec (depth + 2) s size align = _ := allocRec_miss hslab
  rcases h.alloc_descriptor depth with hdesc | hstop
  · obtain ⟨d, s₁, V₁, l₁, v, hdesc⟩ := hdesc
    have honly : (∃ m, V.slabPages l = some m ∧ SlabFor m (keySize size) (keyAlign size align)) ↔
        SlabFor l₁ (keySize size) (keyAlign size align) := by
      rw [hdesc.pages]
      constructor
      · intro hm
        obtain ⟨m, hm, hfor⟩ := hm
        rwa [Option.some.inj hm]
      · exact fun hfor => ⟨l₁, rfl, hfor⟩
    rw [honly]
    rcases poolAlloc_fit (hdesc.represents (keyAlign size align) (keySize size)) hkey.small
      hkey.size_pos hkey.align_ok with hspin | hmade
    · obtain ⟨hnone, hpool⟩ := hspin
      rw [hdesc.returns, Res.ok_bind] at hmiss
      dsimp only at hmiss
      rw [hpool] at hmiss
      have hstop : ¬ SlabFor l₁ (keySize size) (keyAlign size align) := by
        rintro ⟨a, l', hfit, -⟩
        exact absurd (hnone.symm.trans hfit) (by simp)
      exact Or.inr ⟨hstop, Or.inl ⟨.spin, hmiss⟩, fun _ => hmiss⟩
    · obtain ⟨a, l', hfit, hval, hwhere⟩ := hmade
      rw [slabFor_iff hfit]
      rcases hwhere with hout | hin
      · obtain ⟨hout, t, hpool, hspoilt⟩ := hout
        have hpos := hkey.size_pos
        have hnofit : ¬ Fits (keySize size) (keyAlign size align) (a + 2147483648) := by
          unfold Fits
          omega
        refine Or.inr ⟨fun hc => ?_, h.alloc_spoilt hno hdesc hpool hspoilt, fun hroom => ?_⟩
        · rcases hc with hfits | hin
          · exact hnofit hfits
          · omega
        · exact absurd (hroom.fits hval hkey.align_ok) hnofit
      · obtain ⟨hstart, t, slots, hpool, hm, hiff⟩ := hin
        rcases h.alloc_made hkey hno hdesc hpool hm with hdone | hstuck
        · exact Or.inl ⟨hdone.1.imp hiff.2 fun hfor => ⟨hstart, hfor⟩, hdone.2⟩
        · obtain ⟨hnil, hno', hstuck⟩ := hstuck
          refine Or.inr ⟨fun hc => ?_, hstuck⟩
          rcases hc with hfits | hin
          · exact hiff.1 hfits hnil
          · exact hno' hin.2
  · obtain ⟨hpages, hstop⟩ := hstop
    have hall : slbAllocAlignRec (depth + 2) s size align = .error .spin := by
      rw [hmiss, hstop]
      rfl
    rw [hpages]
    exact Or.inr ⟨by simp, Or.inl ⟨.spin, hall⟩, fun _ => hall⟩

theorem alloc_miss (h : SlabInv s V l) {size align depth : Nat}
    (hkey : KeyOk (keyAlign size align) (keySize size))
    (hno : ∀ d ∈ V.slabs, V.align d = keyAlign size align → V.osize d ≠ keySize size) :
    (∃ p s' V' l', slbAllocAlignRec (depth + 2) s size align = .ok (some p, s') ∧
      Allocated V size align p s' V' l') ∨
    ((∀ p s', slbAllocAlignRec (depth + 2) s size align ≠ .ok (some p, s')) ∧
      (Roomy (keySize size) (keyAlign size align) →
        slbAllocAlignRec (depth + 2) s size align = .error .spin)) := by
  rcases @alloc_miss_fit s V l h size align depth hkey hno with hdone | hstuck
  · exact Or.inl hdone.2
  · exact Or.inr ⟨hstuck.2.1.not_some, hstuck.2.2⟩

/-- A call hands out a fresh slot for the request, or does not come back with one. The latter
means no memory when the pool has room for a slot. -/
theorem alloc_spec (h : SlabInv s V l) {size align : Nat}
    (hkey : KeyOk (keyAlign size align) (keySize size)) :
    (∃ p s' V' l', slbAllocAlign s size align = .ok (some p, s') ∧
      Allocated V size align p s' V' l') ∨
    ((∀ p s', slbAllocAlign s size align ≠ .ok (some p, s')) ∧
      (Roomy (keySize size) (keyAlign size align) →
        slbAllocAlign s size align = .error .spin)) := by
  obtain ⟨depth, hdepth⟩ : ∃ k, walkFuel = k + 2 := ⟨4294967294, rfl⟩
  unfold slbAllocAlign
  rw [hdepth]
  by_cases hex : ∃ d ∈ V.slabs, V.align d = keyAlign size align ∧ V.osize d = keySize size
  · obtain ⟨d, hd, hal, hos⟩ := hex
    rcases @alloc_hit s V l d h size align (depth + 1) hd hal hos with hhit | hno
    · obtain ⟨p, s', V', l', hrun, ha, -⟩ := hhit
      exact Or.inl ⟨p, s', V', l', hrun, ha⟩
    · exact Or.inr hno
  · exact h.alloc_miss hkey fun d hd hal hos => hex ⟨d, hd, hal, hos⟩

end SlabInv

end Aimv6.Mm
