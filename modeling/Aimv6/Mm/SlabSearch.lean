import Aimv6.Mm.SlabStored

/-! # Searches of the slab allocator

The walks over descriptors and pools that `slb_alloc_align` and `slb_free_align`
make, on a memory that holds a view. A descriptor is found by its key, the pair
of alignment and object size that a request is reduced to.
-/

namespace Aimv6.Mm

open Support

/-- `if (align == 0) align = min(osize, 4);` -/
def keyAlign (size align : Nat) : Nat := if align = 0 then minInt size 4 else align

/-- `if (align == 0 && size <= 4) align = size;` -/
def freeKeyAlign (size align : Nat) : Nat := if align = 0 ∧ size ≤ 4 then size else align

/-- `osize = max(osize, sizeof(slb_obj_t));` -/
def keySize (size : Nat) : Nat := maxInt size SIZEOF_OBJ

theorem keyAlign_ne {align : Nat} (size : Nat) (h : align ≠ 0) : keyAlign size align = align :=
  if_neg h

theorem minInt_four {a : Nat} (h : a < 2147483648) : minInt a 4 = min a 4 := by
  unfold minInt
  rw [toInt_of_lt h, toInt_of_lt (by decide)]
  by_cases hlt : a < 4
  · rw [if_pos (by omega)]
    omega
  · rw [if_neg (by omega)]
    omega

theorem maxInt_four {a : Nat} (h : a < 2147483648) : maxInt a 4 = max a 4 := by
  unfold maxInt
  rw [toInt_of_lt h, toInt_of_lt (by decide)]
  by_cases hlt : a > 4
  · rw [if_pos (by omega)]
    omega
  · rw [if_neg (by omega)]
    omega

/-- The free pages, the view and the memory that holds both. -/
structure SlabInv (s : State) (V : View) (l : List Extent) : Prop where
  represents : Represents s l
  layout : Layout V (virt (covered l))
  stored : Stored s V

/-- Without the key the walk over the descriptors comes to the end of the list. -/
theorem Stored.scan_slabs_none {s : State} {V : View} {F : Set Nat} (h : Stored s V)
    (hL : Layout V F) (align osize : Nat)
    (hno : ∀ d ∈ V.slabs, V.align d = align → V.osize d ≠ osize) :
    ∃ last, scan s.nextSlb (fun d => decide (s.objAlign d = align ∧ s.objSize d = osize)) walkFuel
      none s.slbHead = some (last, none) := by
  have hlen : V.slabs.length < walkFuel := by
    refine h.slabs.length_lt (by decide) fun e he => ?_
    obtain ⟨v, hv, hev⟩ := hL.descriptor_slot he
    have := hL.slot_bounds hv hev
    show 0 < e ∧ e < 4294967296
    omega
  refine ⟨_, scan_chain_none h.slabs hlen fun e he => decide_eq_false ?_⟩
  rw [(h.slab e he).align, (h.slab e he).size]
  exact fun hc => hno e he hc.1 hc.2

namespace SlabInv

variable {s : State} {V : View} {l : List Extent} {d v p : Nat}

theorem descriptor_bounds (h : SlabInv s V l) (hd : d ∈ V.slabs) : 0 < d ∧ d < 4294967296 := by
  obtain ⟨v, hv, hdv⟩ := h.layout.descriptor_slot hd
  have := h.layout.slot_bounds hv hdv
  omega

theorem pool_bounds (h : SlabInv s V l) (hv : V.Pool d v) : 0 < v ∧ v < 4294967296 := by
  have hok := h.layout.pool_ok d v hv
  have h₁ := hok.lo
  have h₂ := hok.hi
  omega

/-- The walk over the descriptors stops at the one with the key, if there is one. -/
theorem scan_slabs (h : SlabInv s V l) (align osize : Nat) (hd : d ∈ V.slabs)
    (hal : V.align d = align) (hos : V.osize d = osize) :
    ∃ last, scan s.nextSlb (fun d => decide (s.objAlign d = align ∧ s.objSize d = osize)) walkFuel
      none s.slbHead = some (last, some d) := by
  have hlen : V.slabs.length < walkFuel :=
    h.stored.slabs.length_lt (by decide) fun e he => h.descriptor_bounds he
  obtain ⟨l₁, l₂, heq, hfail, hstop, hscan⟩ := @scan_chain Nat s.nextSlb
    (fun d => decide (s.objAlign d = align ∧ s.objSize d = osize)) walkFuel none s.slbHead V.slabs
    h.stored.slabs hlen
  have hkey : ∀ e ∈ V.slabs, decide (s.objAlign e = align ∧ s.objSize e = osize) = true ↔ e = d := by
    intro e he
    rw [decide_eq_true_iff, (h.stored.slab e he).align, (h.stored.slab e he).size]
    constructor
    · rintro ⟨h₁, h₂⟩
      exact h.layout.keys e he d hd (h₁.trans hal.symm) (h₂.trans hos.symm)
    · rintro rfl
      exact ⟨hal, hos⟩
  cases l₂ with
  | nil =>
      rw [List.append_nil] at heq
      have := hfail d (heq ▸ hd)
      rw [(hkey d hd).2 rfl] at this
      exact absurd this (by decide)
  | cons e l₂ =>
      obtain rfl := (hkey e (by rw [heq]; simp)).1 (hstop e rfl)
      exact ⟨_, hscan⟩

theorem scan_slabs_none (h : SlabInv s V l) (align osize : Nat)
    (hno : ∀ d ∈ V.slabs, V.align d = align → V.osize d ≠ osize) :
    ∃ last, scan s.nextSlb (fun d => decide (s.objAlign d = align ∧ s.objSize d = osize)) walkFuel
      none s.slbHead = some (last, none) :=
  h.stored.scan_slabs_none h.layout align osize hno

theorem scan_pools (h : SlabInv s V l) (hd : d ∈ V.slabs) :
    ∃ last l₁ l₂, V.pools d = l₁ ++ l₂ ∧ (∀ v ∈ l₁, V.free v = []) ∧
      (∀ v ∈ l₂.head?, V.free v ≠ []) ∧
      scan s.nextPool (fun v => (s.objHead v).isSome) walkFuel none (s.poolHead d) =
        some (last, l₂.head?) := by
  have hchain := (h.stored.slab d hd).pools
  have hlen : (V.pools d).length < walkFuel :=
    hchain.length_lt (by decide) fun v hv => h.pool_bounds ⟨hd, hv⟩
  obtain ⟨l₁, l₂, heq, hfail, hstop, hscan⟩ := @scan_chain Nat s.nextPool
    (fun v => (s.objHead v).isSome) walkFuel none (s.poolHead d) (V.pools d) hchain hlen
  have hhead : ∀ v ∈ V.pools d, s.objHead v = (V.free v).head? := fun v hv =>
    (h.stored.pool d v ⟨hd, hv⟩).objs.head_eq
  refine ⟨_, l₁, l₂, heq, fun v hv => ?_, fun v hv hnil => ?_, hscan⟩
  · have := hfail v hv
    rw [hhead v (by simp [heq, hv])] at this
    exact List.head?_eq_none_iff.1 (Option.isSome_eq_false_iff.1 this |> Option.isNone_iff_eq_none.1)
  · have := hstop v hv
    rw [hhead v (by simp [heq, List.mem_of_mem_head? hv]), hnil] at this
    exact absurd this (by decide)

theorem scan_holder (h : SlabInv s V l) (hv : V.Pool d v) (hin : v ≤ p ∧ p < v + V.psize v) :
    ∃ last, scan s.nextPool (fun v => decide (v ≤ p ∧ add32 v (s.poolSize v) > p)) walkFuel none
      (s.poolHead d) = some (last, some v) := by
  have hchain := (h.stored.slab d hv.1).pools
  have hlen : (V.pools d).length < walkFuel :=
    hchain.length_lt (by decide) fun w hw => h.pool_bounds ⟨hv.1, hw⟩
  obtain ⟨l₁, l₂, heq, hfail, hstop, hscan⟩ := @scan_chain Nat s.nextPool
    (fun v => decide (v ≤ p ∧ add32 v (s.poolSize v) > p)) walkFuel none (s.poolHead d) (V.pools d)
    hchain hlen
  have hkey : ∀ w ∈ V.pools d, decide (w ≤ p ∧ add32 w (s.poolSize w) > p) = true ↔ w = v := by
    intro w hw
    have hhi := (h.layout.pool_ok d w ⟨hv.1, hw⟩).hi
    rw [decide_eq_true_iff, (h.stored.pool d w ⟨hv.1, hw⟩).size, add32_of_lt (by omega)]
    constructor
    · exact fun hc => h.layout.pool_unique ⟨hv.1, hw⟩ hv hc hin
    · rintro rfl
      exact hin
  cases l₂ with
  | nil =>
      rw [List.append_nil] at heq
      have := hfail v (heq ▸ hv.2)
      rw [(hkey v hv.2).2 rfl] at this
      exact absurd this (by decide)
  | cons w l₂ =>
      obtain rfl := (hkey w (by rw [heq]; simp)).1 (hstop w rfl)
      exact ⟨_, hscan⟩

end SlabInv

/-! ## The branches of `slb_alloc_align` and `slb_free_align` -/

section Branches

variable {s : State} {size align depth d v p : Nat} {last last' : Option Nat}

theorem allocRec_found
    (hslab : scan s.nextSlb (fun d => decide (s.objAlign d = keyAlign size align ∧
      s.objSize d = keySize size)) walkFuel none s.slbHead = some (last, some d))
    (hpool : scan s.nextPool (fun v => (s.objHead v).isSome) walkFuel none (s.poolHead d) =
      some (last', some v)) :
    slbAllocAlignRec (depth + 1) s size align = s.takeObj v := by
  unfold keyAlign keySize at hslab
  rw [slbAllocAlignRec]
  simp only [hslab, hpool, Res.ofFuel_some, Res.ok_bind]

theorem allocRec_grow
    (hslab : scan s.nextSlb (fun d => decide (s.objAlign d = keyAlign size align ∧
      s.objSize d = keySize size)) walkFuel none s.slbHead = some (last, some d))
    (hpool : scan s.nextPool (fun v => (s.objHead v).isSome) walkFuel none (s.poolHead d) =
      some (last', none)) :
    slbAllocAlignRec (depth + 1) s size align =
      (poolAlloc s (keySize size) (keyAlign size align) >>= fun r => match r.1 with
        | none => .ok (none, r.2)
        | some v => ((r.2.setNextPool v (r.2.poolHead d)).setPoolHead d (some v)).takeObj v) := by
  unfold keyAlign keySize at hslab ⊢
  rw [slbAllocAlignRec]
  rw [hslab, Res.ofFuel_some, Res.ok_bind]
  dsimp only
  rw [hpool]
  exact rfl

theorem allocRec_miss
    (hslab : scan s.nextSlb (fun d => decide (s.objAlign d = keyAlign size align ∧
      s.objSize d = keySize size)) walkFuel none s.slbHead = some (last, none)) :
    slbAllocAlignRec (depth + 1) s size align =
      (slbAllocAlignRec depth s SIZEOF_SLB 0 >>= fun r => match r.1 with
        | none => .ok (none, r.2)
        | some slb =>
            poolAlloc ((r.2.setObjAlign slb (keyAlign size align)).setObjSize slb (keySize size))
              (keySize size) (keyAlign size align) >>= fun r => match r.1 with
              | none => slbFreeAlign (r.2.setPoolHead slb none) slb SIZEOF_SLB 0 >>= fun c =>
                  .ok (none, c.2)
              | some pool => slbAllocAlignRec depth
                  { (r.2.setPoolHead slb (some pool)).setNextSlb slb
                      (r.2.setPoolHead slb (some pool)).slbHead with slbHead := some slb }
                  (keySize size) (keyAlign size align)) := by
  unfold keyAlign keySize at hslab ⊢
  rw [slbAllocAlignRec]
  simp only [hslab, Res.ofFuel_some, Res.ok_bind]
  congr 1
  funext r
  obtain ⟨slb, t⟩ := r
  cases slb with
  | none => rfl
  | some slb =>
      dsimp only
      congr 1
      funext r
      obtain ⟨pool, t⟩ := r
      cases pool with
      | none => rfl
      | some pool => rfl

theorem free_found
    (hslab : scan s.nextSlb (fun d => decide (s.objAlign d = freeKeyAlign size align ∧
      s.objSize d = size)) walkFuel none s.slbHead = some (last, some d))
    (hpool : scan s.nextPool (fun v => decide (v ≤ p ∧ add32 v (s.poolSize v) > p)) walkFuel none
      (s.poolHead d) = some (last', some v)) :
    slbFreeAlign s p size align = .ok (0, s.putObj v p) := by
  unfold freeKeyAlign at hslab
  unfold slbFreeAlign State.putObj
  simp only [hslab, hpool, Res.ofFuel_some, Res.ok_bind]

theorem free_miss
    (hslab : scan s.nextSlb (fun d => decide (s.objAlign d = freeKeyAlign size align ∧
      s.objSize d = size)) walkFuel none s.slbHead = some (last, none)) :
    slbFreeAlign s p size align = .ok (1, s) := by
  unfold freeKeyAlign at hslab
  unfold slbFreeAlign
  simp only [hslab, Res.ofFuel_some, Res.ok_bind]

end Branches

end Aimv6.Mm
