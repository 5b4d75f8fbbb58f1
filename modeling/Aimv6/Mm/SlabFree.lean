import Aimv6.Mm.SlabAlloc

/-! # Putting slots back, and the first descriptor

`slb_free_align` derives its key from the arguments by its own rule. Where the
rule agrees with that of `slb_alloc_align` the slot goes back to the head of its
pool's list; elsewhere no descriptor has the key. `slb_init` takes the first
descriptor out of a pool by hand.
-/

namespace Aimv6.Mm

open Support

variable {s s' : State} {V V' : View} {l l' : List Extent} {d v p : Nat}

/-- The arguments for which allocating and freeing derive the same key. -/
def KeysAgree (size align : Nat) : Prop := 4 ≤ size ∧ (align ≠ 0 ∨ size = 4)

instance (size align : Nat) : Decidable (KeysAgree size align) :=
  inferInstanceAs (Decidable (_ ∧ _))

theorem KeysAgree.iff {size align : Nat} (h : size < 2147483648) :
    KeysAgree size align ↔ freeKeyAlign size align = keyAlign size align ∧ size = keySize size := by
  unfold KeysAgree freeKeyAlign keyAlign keySize SIZEOF_OBJ
  rw [minInt_four h, maxInt_four h]
  by_cases hz : align = 0
  · by_cases hs : size ≤ 4
    · rw [if_pos ⟨hz, hs⟩, if_pos hz]
      omega
    · rw [if_neg (fun hc => hs hc.2), if_pos hz]
      omega
  · rw [if_neg (fun hc => hz hc.1), if_neg hz]
    omega

namespace SlabInv

theorem free_agree (h : SlabInv s V l) {size align : Nat} (hsize : size < 2147483648)
    (hagree : KeysAgree size align) (hv : V.Pool d v) (hal : V.align d = keyAlign size align)
    (hos : V.osize d = keySize size) (hin : v ≤ p ∧ p < v + V.psize v) :
    slbFreeAlign s p size align = .ok (0, s.putObj v p) := by
  obtain ⟨hkey, hks⟩ := (KeysAgree.iff hsize).1 hagree
  obtain ⟨last, hslab⟩ := h.scan_slabs (freeKeyAlign size align) size hv.1 (hal.trans hkey.symm)
    (hos.trans hks.symm)
  obtain ⟨last', hpool⟩ := h.scan_holder hv hin
  exact free_found hslab hpool

theorem free_disagree (h : SlabInv s V l) {size align : Nat} (hagree : ¬ KeysAgree size align) :
    slbFreeAlign s p size align = .ok (1, s) := by
  obtain ⟨last, hslab⟩ := h.scan_slabs_none (freeKeyAlign size align) size (by
    intro e he hal hos
    have hkey := h.layout.key_ok e he
    have h₁ := hkey.size_pos
    have h₂ := hkey.align_ne
    refine hagree ⟨by omega, ?_⟩
    by_cases hz : align = 0
    · unfold freeKeyAlign at hal
      by_cases hs : size ≤ 4
      · exact Or.inr (by omega)
      · rw [if_neg (fun hc => hs hc.2)] at hal
        exact absurd (hal.trans hz) h₂
    · exact Or.inl hz)
  exact free_miss hslab

end SlabInv

/-! ## `slb_init` -/

/-- The view after `slb_init`: one descriptor, in a pool of its own. -/
def View.initial (d v psize : Nat) (rest : List Nat) : View where
  slabs := [d]
  pools := fun _ => [v]
  free := fun _ => rest
  taken := [d]
  first := d
  align := fun _ => 4
  osize := fun _ => 16
  psize := fun _ => psize

theorem Carved.aligned_four {v lim : Nat} {slots : List Nat} (hv : v % 4096 = 0)
    (h : Carved (segmStart v 0) lim 16 0 slots) : ∀ p ∈ slots, p &&& (4 - 1) = 0 := by
  intro p hp
  obtain ⟨k, hk⟩ := h.stride p hp
  have hstart : segmStart v 0 = v + 16 := if_neg (by simp)
  rw [hstart, if_pos (by decide)] at hk
  rw [show (4 - 1 : Nat) = 2 ^ 2 - 1 from rfl, Nat.and_two_pow_sub_one_eq_mod,
    show (2 : Nat) ^ 2 = 4 from rfl]
  omega

theorem keyOk_descriptor : KeyOk 4 16 :=
  ⟨by decide, by decide, Or.inr (Or.inr ⟨2, by decide, rfl⟩), by decide⟩

theorem Layout.initial {F : Set Nat} {psize : Nat} {rest : List Nat}
    (hok : PoolOk (View.initial d v psize rest) F d v) (hd : v ≤ d ∧ d < v + psize) :
    Layout (View.initial d v psize rest) F where
  key_ok _ _ := keyOk_descriptor
  keys e he e' he' _ _ := (List.mem_singleton.1 he).trans (List.mem_singleton.1 he').symm
  pool_ok e w hw := by
    obtain rfl : e = d := List.mem_singleton.1 hw.1
    obtain rfl : w = v := List.mem_singleton.1 hw.2
    exact hok
  pools_apart e w e' w' hw hw' hne :=
    absurd ((List.mem_singleton.1 hw.2).trans (List.mem_singleton.1 hw'.2).symm) hne
  owner e e' w hw hw' := (List.mem_singleton.1 hw.1).trans (List.mem_singleton.1 hw'.1).symm
  first_mem := List.mem_singleton.2 rfl
  first_key := ⟨rfl, rfl⟩
  taken_nodup := List.nodup_singleton d
  taken_pool p hp := by
    obtain rfl : p = d := List.mem_singleton.1 hp
    exact ⟨p, v, ⟨List.mem_singleton.2 rfl, List.mem_singleton.2 rfl⟩, hd⟩
  descriptor e he := by
    obtain rfl : e = d := List.mem_singleton.1 he
    exact ⟨List.mem_singleton.2 rfl, v, List.mem_singleton.2 rfl, hd⟩

theorem roomy_first : Roomy 16 0 := by
  unfold Roomy
  decide

/-- `slb_init` behind `pool_alloc`: the first slot `d` of the pool `v` is taken and filled in. -/
def State.firstSlab (t : State) (v d : Nat) : State :=
  (((({ t with slbHead := some d }.setObjHead v (t.nextObj d)).setObjAlign d 4).setObjSize d
    16).setPoolHead d (some v)).setNextSlb d none

theorem slbInit_of_pool {t : State}
    (hpool : poolAlloc { s with slbHead := none } 16 0 = .ok (some v, t))
    (hhead : t.objHead v = some d) : slbInit s = .ok (0, t.firstSlab v d) := by
  unfold slbInit
  dsimp only
  rw [show (4 <<< 2 : Nat) = 16 from rfl, hpool, Res.ok_bind]
  dsimp only
  rw [hhead]
  rfl

section FirstSlab

variable {t : State} {a : Nat} {rest : List Nat}

theorem word_firstSlab (hd : v + 16 ≤ d) (hpool : a + 4 ≤ v + 8 ∨ v + 12 ≤ a)
    (hslab : a + 4 ≤ d ∨ d + 16 ≤ a) : (t.firstSlab v d).word a = t.word a := by
  unfold State.firstSlab State.setNextSlb State.setPoolHead State.setObjSize State.setObjAlign
    State.setObjHead
  simp (disch := omega) only [State.word_setWord_ne]
  rfl

theorem objHead_firstSlab (hd : v + 16 ≤ d) : (t.firstSlab v d).objHead v = t.nextObj d := by
  have hlink : ptrVal (t.nextObj d) < 4294967296 := by
    unfold State.nextObj
    rw [ptrVal_ptr]
    exact State.word_lt t d
  have hword : (t.firstSlab v d).word (v + 8) = ptrVal (t.nextObj d) := by
    unfold State.firstSlab State.setNextSlb State.setPoolHead State.setObjSize State.setObjAlign
      State.setObjHead
    simp (disch := omega) only [State.word_setWord_ne]
    exact State.word_setWord_same _ hlink
  unfold State.objHead
  rw [hword]
  unfold State.nextObj
  rw [ptrVal_ptr]

theorem objAlign_firstSlab : (t.firstSlab v d).objAlign d = 4 := by
  unfold State.objAlign State.firstSlab State.setNextSlb State.setPoolHead State.setObjSize
    State.setObjAlign
  simp (disch := omega) only [State.word_setWord_ne]
  exact State.word_setWord_same _ (by decide)

theorem objSize_firstSlab : (t.firstSlab v d).objSize d = 16 := by
  unfold State.objSize State.firstSlab State.setNextSlb State.setPoolHead State.setObjSize
  simp (disch := omega) only [State.word_setWord_ne]
  exact State.word_setWord_same _ (by decide)

theorem poolHead_firstSlab (hv : 0 < v) (hlt : v < 4294967296) :
    (t.firstSlab v d).poolHead d = some v := by
  have hword : (t.firstSlab v d).word (d + 8) = v := by
    unfold State.firstSlab State.setNextSlb State.setPoolHead
    simp (disch := omega) only [State.word_setWord_ne]
    exact State.word_setWord_same _ (by rw [ptrVal_some]; omega)
  unfold State.poolHead
  rw [hword]
  exact ptr_of_pos hv

theorem nextSlb_firstSlab : (t.firstSlab v d).nextSlb d = none :=
  congrArg ptr (State.word_setWord_same _ (by decide))

/-- The slots of the first pool lie one behind the other, the descriptor behind all the others. -/
theorem PoolMade.first_bounds (hm : PoolMade s l 16 0 v t l' (d :: rest)) :
    v + 16 ≤ d ∧ d + 16 ≤ v + 4096 ∧ ∀ q ∈ rest, v + 16 ≤ q ∧ q + 16 ≤ d := by
  have hcv := hm.carved
  have hstart : segmStart v 0 = v + 16 := if_neg (by simp)
  have hbytes : poolBytes 16 = 4096 := by decide
  rw [hstart, hbytes] at hcv
  have hd := hcv.inside d (List.mem_cons_self ..)
  refine ⟨hd.1, hd.2, fun q hq => ⟨(hcv.inside q (List.mem_cons_of_mem _ hq)).1, ?_⟩⟩
  exact (List.pairwise_cons.1 hcv.apart).1 q hq

theorem View.initial_slots {psize : Nat} (hd : v ≤ d ∧ d < v + psize) :
    (View.initial d v psize rest).slots v = rest ++ [d] := by
  have hused : (View.initial d v psize rest).used v = [d] :=
    List.filter_cons_of_pos (View.inPool_iff.2 hd)
  unfold View.slots
  rw [hused]
  rfl

theorem PoolMade.not_free (hm : PoolMade s l 16 0 v t l' (d :: rest)) :
    ∀ b ∈ virt (covered l'), ¬ (v ≤ b ∧ b < v + poolBytes 16) := by
  intro b hb hin
  have hlo := hm.lo
  rw [hm.taken] at hb
  refine hb.2.2 ?_
  unfold KERNEL_BASE
  rw [Set.mem_Ico]
  omega

theorem PoolMade.initial_ok (hm : PoolMade s l 16 0 v t l' (d :: rest)) :
    PoolOk (View.initial d v (poolBytes 16) rest) (virt (covered l')) d v := by
  obtain ⟨hlo, hhi, -⟩ := hm.first_bounds
  have hbytes : poolBytes 16 = 4096 := by decide
  have hstart : segmStart v 0 = v + 16 := if_neg (by simp)
  have hslots := @View.initial_slots d v rest (poolBytes 16) (by omega)
  have hperm : (rest ++ [d]).Perm (d :: rest) := List.perm_append_singleton d rest
  refine ⟨hm.lo, hm.hi, Nat.le_of_ble_eq_true rfl, ?_, ?_, ?_, ?_⟩
  · exact fun b hb₁ hb₂ hb => hm.not_free b hb ⟨hb₁, hb₂⟩
  · intro q hq
    rw [hslots, hperm.mem_iff] at hq
    have hin := hm.carved.inside q hq
    rw [hstart] at hin
    exact hin
  · intro q hq
    rw [hslots, hperm.mem_iff] at hq
    exact hm.carved.aligned_four hm.start_aligned q hq
  · rw [hslots]
    refine (hperm.pairwise_iff Or.symm).2 ?_
    exact hm.carved.apart.imp fun hpq => Or.inr hpq

theorem PoolMade.firstSlab_frame (hm : PoolMade s l 16 0 v t l' (d :: rest)) :
    AgreeOn {b | ¬ (v ≤ b ∧ b < v + poolBytes 16)} t.mem (t.firstSlab v d).mem := by
  obtain ⟨hlo, hhi, -⟩ := hm.first_bounds
  have hbytes : poolBytes 16 = 4096 := by decide
  intro b hb
  have hout : ¬ (v ≤ b ∧ b < v + poolBytes 16) := hb
  exact ((((store32_apply_of_outside (by omega)).trans (store32_apply_of_outside (by omega))).trans
    (store32_apply_of_outside (by omega))).trans
    (store32_apply_of_outside (by omega))).trans (store32_apply_of_outside (by omega))

theorem PoolMade.initial_represents (hm : PoolMade s l 16 0 v t l' (d :: rest)) :
    Represents (t.firstSlab v d) l' :=
  hm.represents.congr rfl (hm.firstSlab_frame.mono hm.not_free)

theorem PoolMade.initial_stored (hm : PoolMade s l 16 0 v t l' (d :: rest)) :
    Stored (t.firstSlab v d) (View.initial d v (poolBytes 16) rest) := by
  obtain ⟨hlo, hhi, hrest⟩ := hm.first_bounds
  have hvlo := hm.lo
  have hvhi := hm.hi
  refine ⟨⟨rfl, nextSlb_firstSlab⟩, fun e he => ?_, fun e w hw => ?_⟩
  · obtain rfl : e = d := List.mem_singleton.1 he
    refine ⟨objAlign_firstSlab, objSize_firstSlab, poolHead_firstSlab (by omega) (by omega), ?_⟩
    exact (congrArg ptr (word_firstSlab hlo (by omega) (by omega))).trans hm.last
  · obtain rfl : w = v := List.mem_singleton.1 hw.2
    refine ⟨(word_firstSlab hlo (by omega) (by omega)).trans hm.header.size, ?_, ?_⟩
    · rw [objHead_firstSlab hlo]
      refine Seg.congr hm.header.objs.2 fun q hq => congrArg ptr (word_firstSlab hlo ?_ ?_)
      · have := hrest q hq
        omega
      · have := hrest q hq
        omega
    · have hcnt : (View.initial d w (poolBytes 16) rest).count w = 0 := by
        simp [View.count, View.initial]
      rw [hcnt]
      exact (word_firstSlab hlo (by omega) (by omega)).trans hm.header.cnt

end FirstSlab

theorem slbInit_cases (h : Represents s l) :
    (∃ v t l' d rest, PoolMade { s with slbHead := none } l 16 0 v t l' (d :: rest) ∧
      slbInit s = .ok (0, t.firstSlab v d)) ∨ slbInit s = .error .spin := by
  have hrep : Represents { s with slbHead := none } l := h.congr rfl (AgreeOn.refl _ _)
  rcases @poolAlloc_spec _ _ 16 0 hrep (by decide) (by decide) (Or.inl rfl) with hmade | hfail
  · obtain ⟨v, t, l', slots, hpool, hm⟩ := hmade
    cases slots with
    | nil => exact absurd rfl (hm.nonempty roomy_first)
    | cons d rest => exact Or.inl ⟨v, t, l', d, rest, hm, slbInit_of_pool hpool hm.header.objs.1⟩
  · refine Or.inr ?_
    unfold slbInit
    dsimp only
    rw [show (4 <<< 2 : Nat) = 16 from rfl, hfail.2 roomy_first]
    rfl

theorem slbInit_made (h : Represents s l) (hrun : slbInit s = .ok (0, s')) :
    ∃ v t l' d rest, PoolMade { s with slbHead := none } l 16 0 v t l' (d :: rest) ∧
      s' = t.firstSlab v d := by
  rcases slbInit_cases h with hmade | hspin
  · obtain ⟨v, t, l', d, rest, hm, hcall⟩ := hmade
    exact ⟨v, t, l', d, rest, hm, (Prod.mk.inj (Except.ok.inj (hrun.symm.trans hcall))).2⟩
  · exact absurd (hspin.symm.trans hrun) (by simp)

/-- On a fresh page allocator `slb_init` makes one pool and takes its first slot as descriptor. -/
theorem slbInit_spec (h : Represents s l) :
    (∃ s' d v rest l', slbInit s = .ok (0, s') ∧
      SlabInv s' (View.initial d v (poolBytes 16) rest) l') ∨ slbInit s = .error .spin := by
  rcases slbInit_cases h with hmade | hspin
  · obtain ⟨v, t, l', d, rest, hm, hcall⟩ := hmade
    obtain ⟨hlo, hhi, -⟩ := hm.first_bounds
    have hbytes : poolBytes 16 = 4096 := by decide
    exact Or.inl ⟨_, d, v, rest, l', hcall, hm.initial_represents,
      Layout.initial hm.initial_ok (by omega), hm.initial_stored⟩
  · exact Or.inr hspin

end Aimv6.Mm
